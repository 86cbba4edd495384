import Ilxd.Lurk.Import

/-!
# What import expansion produces

The text `macroExpandImport` produces, and the text its extractors take from a module.

* `macroExpandImport_copies` — text in which no import form starts is copied unchanged.
* `macroExpandImport_import` — an import form is replaced by the expansion of the text
  `expandImport` finds for its path; the text around it is copied.
* `extractModuleStep_module`, `extractModule_single` — what the code takes for a module named
  in a file: the text between its brackets without its last byte, followed by a newline; a
  panic for an empty module.
* `macroExpandImport_module` — the whole expansion of a program importing a module by its
  name: the module's text without its last byte, and a newline, in place of the form.
-/

set_option autoImplicit false

namespace Ilxd

open Parser

theorem foldl_snoc (acc cs : List Char) : cs.foldl (fun r c => r ++ [c]) acc = acc ++ cs := by
  induction cs generalizing acc <;> simp [*]

/-! ## Import forms -/

section ImportForms

variable (expand : List Char → List (List Char) → Except Fault (List Char))
  (dependencyDir : FsDirectory) (dependencyChain : List (List Char))

/-- **One pass over an import form**: the path is read up to `)`, replaced by its expansion,
and the cursor moved past the `)`. -/
theorem importStep_import {p : Parser} {path post : List Char}
    (hp : p.rest = "!(import ".toList ++ path ++ ')' :: post)
    (hpath : ∀ c ∈ path, c ≠ '\x00' ∧ c ≠ ')') (result : List Char) :
    importStep expand dependencyDir dependencyChain p result =
      (expandImport expand dependencyDir dependencyChain path).map
        fun e => (p.skip (path.length + 10), result ++ e) := by
  have hkw : "!(import".toList.isPrefixOf p.rest = true := by
    rw [hp, List.isPrefixOf_iff_prefix]; exact ⟨_, rfl⟩
  have h9 : (p.skip 9).rest = path ++ ')' :: post := by
    rw [rest_skip, hp]; rfl
  obtain ⟨hpath', hslice⟩ := read_word (f := (· != ')')) h9
    (fun x hx => ⟨(hpath x hx).1, by simpa using (hpath x hx).2⟩) (.inr (by decide))
  rw [skip_skip] at hpath'
  simp only [skip_input, skip_pos, Nat.add_assoc] at hslice
  have hq : (p.skip (9 + path.length)).rest = ')' :: post := by
    rw [← skip_skip, rest_skip, h9, List.drop_left]
  have hread : (p.skip (9 + path.length)).consumeWhile (· != ')') = p.skip (9 + path.length) :=
    consumeWhile_of_rest (show _ = [] ++ ')' :: post from hq) (by simp) (.inr (by decide))
  simp only [importStep, hkw, if_true, hpath', skip_input, skip_pos, hslice, ReadUntil, hread,
    Consume_of_rest hq, skip_skip, show 9 + path.length + 1 = path.length + 10 by omega]
  cases h : expandImport expand dependencyDir dependencyChain path <;>
    simp only [bind, Except.bind, h, Except.map, pure, Except.pure]

end ImportForms

/-- **Text in which no import form starts is copied unchanged.** -/
theorem macroExpandImport_copies (n : Nat) {t : List Char} (dependencyDir : FsDirectory)
    (dependencyChain : List (List Char)) (hno : NoMatch "!(import".toList t t.length)
    (h0 : '\x00' ∉ t) : macroExpandImport (n + 1) t dependencyDir dependencyChain = .ok t := by
  rw [macroExpandImport, Nat.add_comm,
    loop_noMatch _ (f := fun r c => r ++ [c]) (fun q s => importStep_consume _ _ _ q s)
      (NewParser t) t [] 1 [] (List.append_nil t).symm hno h0,
    loop_end _ (by omega) (by simp [NewParser, rest]), foldl_snoc, List.nil_append]

/-- **An import form is replaced by its expansion**, and the text before and after it, in
which no import form starts, is copied. -/
theorem macroExpandImport_import (n : Nat) (dependencyDir : FsDirectory)
    (dependencyChain : List (List Char)) {pre path post : List Char}
    (hpre : NoMatch "!(import".toList (pre ++ "!(import ".toList ++ path ++ ')' :: post)
      pre.length)
    (h0pre : '\x00' ∉ pre) (hpath : ∀ c ∈ path, c ≠ '\x00' ∧ c ≠ ')')
    (hpost : NoMatch "!(import".toList post post.length) (h0post : '\x00' ∉ post) :
    macroExpandImport (n + 1) (pre ++ "!(import ".toList ++ path ++ ')' :: post) dependencyDir
        dependencyChain =
      (expandImport (fun content chain => macroExpandImport n content dependencyDir chain)
        dependencyDir dependencyChain path).map fun e => pre ++ e ++ post := by
  have hlen : (pre ++ "!(import ".toList ++ path ++ ')' :: post).length + 1 =
      (post.length + path.length + 10) + 1 + pre.length := by
    simp only [List.length_append, List.length_cons, show "!(import ".toList.length = 9 from rfl]
    omega
  set p := NewParser (pre ++ "!(import ".toList ++ path ++ ')' :: post)
  have hp : (p.skip pre.length).rest = "!(import ".toList ++ path ++ ')' :: post := by
    simp [p, NewParser, rest]
  have hpk : (p.skip pre.length).Peek = '!' := by rw [Peek, hp]; rfl
  rw [macroExpandImport, hlen,
    loop_noMatch (importStep (fun content chain => macroExpandImport n content dependencyDir chain)
      dependencyDir dependencyChain) (f := fun r c => r ++ [c])
      (fun q s => importStep_consume _ _ _ q s) p pre
      ("!(import ".toList ++ path ++ ')' :: post) _ [] (by simp [p, NewParser, rest]) hpre h0pre,
    foldl_snoc, List.nil_append, loop, if_neg (by rw [hpk]; decide),
    importStep_import _ _ _ hp hpath]
  cases expandImport (fun content chain => macroExpandImport n content dependencyDir chain)
    dependencyDir dependencyChain path with
  | error e => rfl
  | ok e =>
    have hq : ((p.skip pre.length).skip (path.length + 10)).rest = post := by
      rw [rest_skip, hp]; simp [show "!(import ".toList.length = 9 from rfl]
    rw [show post.length + path.length + 10 = (path.length + 9 + 1) + post.length by omega]
    simp only [Except.map]
    rw [loop_noMatch _ (f := fun r c => r ++ [c]) (fun q s => importStep_consume _ _ _ q s) _ post
      [] _ _ (by rw [hq, List.append_nil]) (by rw [hq]; exact hpost) h0post,
      loop_end _ (by omega) (by rw [rest_skip, hq, List.drop_length]), foldl_snoc,
      List.append_assoc]

/-! ## Modules -/

/-- **One pass over a module form** whose name is the one looked for: the module is counted,
and the text from after its `(` up to the byte before its closing `)` is taken, with a
newline; an empty module makes the slice panic. -/
theorem extractModuleStep_module {p : Parser} {name body post : List Char}
    (hp : p.rest = "!(module ".toList ++ name ++ " (".toList ++ body ++ ')' :: post)
    (hname : ∀ c ∈ name, c ≠ '\x00' ∧ c ≠ ' ') (hb : Balanced body) (h0 : '\x00' ∉ body)
    (s : Nat × List Char) :
    extractModuleStep name p s = if body = [] then .error .panic else
      .ok (p.skip (11 + name.length + body.length), (s.1 + 1, s.2 ++ body.dropLast ++ ['\n'])) := by
  have hkw : "!(module".toList.isPrefixOf p.rest = true := by
    rw [hp, List.isPrefixOf_iff_prefix]; exact ⟨_, rfl⟩
  have h9 : (p.skip 9).rest = name ++ ' ' :: '(' :: (body ++ ')' :: post) := by
    rw [rest_skip, hp, List.append_assoc, List.append_assoc, List.append_assoc]; rfl
  obtain ⟨hname', hslice⟩ := read_word (f := (· != ' ')) h9
    (fun x hx => ⟨(hname x hx).1, by simpa using (hname x hx).2⟩) (.inr (by decide))
  rw [skip_skip] at hname'
  simp only [skip_input, skip_pos, Nat.add_assoc] at hslice
  have hsp : (p.skip (9 + name.length)).rest = ' ' :: '(' :: (body ++ ')' :: post) := by
    rw [← skip_skip, rest_skip, h9, List.drop_left]
  have hparen : (p.skip (9 + name.length)).consumeWhile (· != '(') =
      p.skip (9 + name.length + 1) := by
    rw [consumeWhile_of_rest (show _ = [' '] ++ '(' :: (body ++ ')' :: post) from hsp) (by simp)
      (.inr (by decide)), skip_skip]; rfl
  have hopen : (p.skip (9 + name.length + 1)).rest = '(' :: (body ++ ')' :: post) := by
    rw [← skip_skip, rest_skip, hsp]; rfl
  have hbody : (p.skip (11 + name.length)).rest = body ++ ')' :: post := by
    rw [show 11 + name.length = 9 + name.length + 1 + 1 by omega, ← skip_skip, rest_skip, hopen]
    rfl
  have hscan : (p.skip (11 + name.length)).scanDepth =
      p.skip (11 + name.length + body.length) := by
    rw [scanDepth, hbody, depthScan_balanced _ hb h0, skip_skip]
  rw [extractModuleStep, if_pos hkw]
  simp only [hname', skip_input, skip_pos]
  rw [hslice, hparen, if_pos (Peek_of_rest hopen), Consume_of_rest hopen]
  simp only [skip_skip, show 9 + name.length + 1 + 1 = 11 + name.length by omega, hscan,
    skip_input, skip_pos, bind, Except.bind, if_true]
  have hin : p.pos + (11 + name.length) ≤ p.input.length := by
    have := congrArg List.length hbody
    simp only [rest, skip_input, skip_pos, List.length_drop, List.length_append,
      List.length_cons] at this
    omega
  by_cases hne : body = []
  · subst hne
    rw [if_pos rfl]
    simp only [slice, List.length_nil, Nat.add_zero, skip_input, skip_pos]
    rw [if_neg (by omega)]
  · have hlt : 0 < body.length := List.length_pos.2 hne
    rw [if_neg hne, show p.pos + (11 + name.length + body.length) - 1 =
      (p.skip (11 + name.length)).pos + (body.length - 1) by simp; omega,
      ← skip_input p (11 + name.length), ← skip_pos p (11 + name.length),
      slice_take _ (by simpa using hin) (by rw [hbody]; simp; omega), hbody,
      List.take_append_of_le_length (by omega), ← List.dropLast_eq_take]
    rfl

/-- **What `extractModule` takes for a module**: in a file holding one module of the name
looked for, the text between the module's brackets loses its last byte and gains a newline;
an empty module panics. -/
theorem extractModule_single {pre name body post : List Char}
    (hpre : NoMatch "!(module".toList
      (pre ++ "!(module ".toList ++ name ++ " (".toList ++ body ++ ')' :: post) pre.length)
    (h0pre : '\x00' ∉ pre) (hname : ∀ c ∈ name, c ≠ '\x00' ∧ c ≠ ' ') (hb : Balanced body)
    (h0 : '\x00' ∉ body) (hpost : NoMatch "!(module".toList post post.length)
    (h0post : '\x00' ∉ post) :
    extractModule [pre ++ "!(module ".toList ++ name ++ " (".toList ++ body ++ ')' :: post] name =
      if body = [] then .error .panic else .ok (body.dropLast ++ ['\n']) := by
  have hhead : ("!(module ".toList ++ name ++ " (".toList ++ body).length =
      11 + name.length + body.length := by
    simp only [List.length_append, show "!(module ".toList.length = 9 from rfl,
      show " (".toList.length = 2 from rfl]
    omega
  have hlen : (pre ++ "!(module ".toList ++ name ++ " (".toList ++ body ++ ')' :: post).length + 1
      = (11 + name.length + body.length + (')' :: post).length) + 1 + pre.length := by
    simp only [List.length_append, List.length_cons] at hhead ⊢
    omega
  set p := NewParser (pre ++ "!(module ".toList ++ name ++ " (".toList ++ body ++ ')' :: post)
  have hp : (p.skip pre.length).rest =
      "!(module ".toList ++ name ++ " (".toList ++ body ++ ')' :: post := by
    simp [p, NewParser, rest]
  have hpk : (p.skip pre.length).Peek = '!' := by rw [Peek, hp]; rfl
  simp only [extractModule, List.foldlM_cons, List.foldlM_nil]
  rw [hlen, loop_noMatch (extractModuleStep name) (f := fun s _ => s)
    (fun q s => extractModuleStep_consume _ q s) p pre
    ("!(module ".toList ++ name ++ " (".toList ++ body ++ ')' :: post) _ _
    (by simp [p, NewParser, rest]) hpre h0pre, List.foldl_fixed, loop,
    if_neg (by rw [hpk]; decide), extractModuleStep_module hp hname hb h0]
  by_cases hne : body = []
  · rw [if_pos hne, if_pos hne]; rfl
  · rw [if_neg hne, if_neg hne]
    have hq : ((p.skip pre.length).skip (11 + name.length + body.length)).rest = ')' :: post := by
      rw [rest_skip, hp, List.drop_left' hhead]
    simp only
    rw [loop_noMatch (extractModuleStep name) (f := fun s _ => s)
      (fun q s => extractModuleStep_consume _ q s) _ (')' :: post) [] _ _
      (by rw [hq, List.append_nil]) (by rw [hq]; exact NoMatch.cons rfl hpost)
      (by simp [h0post]), List.foldl_fixed,
      loop_end _ (by omega) (by rw [rest_skip, hq, List.drop_length])]
    rfl

/-! ## Importing a module -/

/-- **Importing a module by its name**: where the `.lurk` files of the dependency directory
are one file in which one module form starts, of that name, the import form becomes the
module's text without its last byte, followed by a newline.  The text around the form and
the module's text are ASCII, which the expansion copies byte for byte. -/
theorem macroExpandImport_module (n : Nat) (dependencyDir : FsDirectory)
    {pre name body post filePre filePost : List Char}
    (hfiles : loadFilesFromFS dependencyDir.fileSystem dependencyDir.path =
      .ok [filePre ++ "!(module ".toList ++ name ++ " (".toList ++ body ++ ')' :: filePost])
    (hfilePre : NoMatch "!(module".toList
      (filePre ++ "!(module ".toList ++ name ++ " (".toList ++ body ++ ')' :: filePost)
      filePre.length)
    (h0filePre : '\x00' ∉ filePre) (hfilePost : NoMatch "!(module".toList filePost filePost.length)
    (h0filePost : '\x00' ∉ filePost)
    (hname : ∀ c ∈ name, c ≠ '\x00' ∧ c ≠ ' ' ∧ c ≠ '/' ∧ c ≠ ')')
    (hb : Balanced body) (h0 : Verbatim body) (hne : body ≠ [])
    (hbody : NoMatch "!(import".toList body body.length)
    (hpre : NoMatch "!(import".toList (pre ++ "!(import ".toList ++ name ++ ')' :: post)
      pre.length)
    (h0pre : Verbatim pre) (hpost : NoMatch "!(import".toList post post.length)
    (h0post : Verbatim post) :
    macroExpandImport (n + 2) (pre ++ "!(import ".toList ++ name ++ ')' :: post) dependencyDir [] =
      .ok (pre ++ (body.dropLast ++ ['\n']) ++ post) := by
  have hsplit : name.splitOn '/' = [name] :=
    List.splitOnP_eq_single (· == '/') name fun x hx => by simpa using (hname x hx).2.2.1
  have hextract := extractModule_single hfilePre h0filePre
    (fun c hc => ⟨(hname c hc).1, (hname c hc).2.1⟩) hb h0.1 hfilePost h0filePost
  rw [if_neg hne] at hextract
  have hload : loadImport dependencyDir [name] = .ok (body.dropLast ++ ['\n']) := by
    simp only [loadImport, List.length_singleton, if_true, hfiles, List.getLastD_cons,
      List.getLastD_nil]
    exact hextract
  have hcopy := macroExpandImport_copies n dependencyDir [name]
    (t := body.dropLast ++ ['\n'])
    (by rw [show (body.dropLast ++ ['\n']).length = body.length by
          have := List.length_pos.2 hne; simp; omega]
        exact NoMatch.dropLast_append (by decide) hbody)
    (by simpa using fun h => h0.1 (List.dropLast_subset _ h))
  rw [macroExpandImport_import (n + 1) dependencyDir [] hpre h0pre.1
    (fun c hc => ⟨(hname c hc).1, (hname c hc).2.2.2⟩) hpost h0post.1]
  simp only [expandImport, List.not_mem_nil, if_false, hsplit, List.length_singleton,
    Nat.lt_irrefl, hload, List.nil_append, bind, Except.bind, pure, Except.pure, hcopy,
    Except.map]

/-- A dependency directory of one file, holding the module `m` with the text `x`. -/
def moduleDeps : FsDirectory :=
  ⟨⟨[("m.lurk".toList, "!(module m (x))".toList)], by decide, by decide⟩, ['.']⟩

theorem importModule_loses_last_byte :
    macroExpandImport 2 ([] ++ "!(import ".toList ++ "m".toList ++ ')' :: []) moduleDeps [] =
      .ok ([] ++ ("x".toList.dropLast ++ ['\n']) ++ []) :=
  @macroExpandImport_module 0 moduleDeps [] "m".toList "x".toList [] [] [')'] rfl
    (by unfold NoMatch; decide) (by decide) (by unfold NoMatch; decide) (by decide) (by decide)
    (by decide) (by decide) (by decide) (by unfold NoMatch; decide) (by unfold NoMatch; decide)
    (by decide) (by unfold NoMatch; decide) (by decide)

/-! ## A keyword at the end of the text

Each scanner jumps its cursor over its keyword and the byte after it before it looks at the
text again, so a keyword that ends the text leaves the cursor past the end, and the slice of
the name from there panics. -/

section AtEnd

open Parser

theorem input_length_of_rest {q : Parser} {t : List Char} (hq : q.rest = t) (ht : t ≠ []) :
    q.input.length = q.pos + t.length := by
  have hl := congrArg List.length hq
  have : 0 < t.length := List.length_pos.2 ht
  simp only [rest, List.length_drop] at hl
  omega

theorem NoMatch.nil (kw t : List Char) : NoMatch kw t ([] : List Char).length :=
  fun _ hk => absurd hk (Nat.not_lt_zero _)

theorem importStep_at_end (expand : List Char → List (List Char) → Except Fault (List Char))
    (dependencyDir : FsDirectory) (dependencyChain : List (List Char)) {q : Parser}
    (hq : q.rest = "!(import".toList) (result : List Char) :
    importStep expand dependencyDir dependencyChain q result = .error .panic := by
  have hlen := input_length_of_rest hq (by decide)
  have h9 : (q.skip 9).rest = [] := by rw [rest_skip, hq]; rfl
  rw [importStep, if_pos (by rw [hq]; rfl)]
  simp only [consumeWhile, h9, countWhile, skip_input, skip_pos]
  rw [slice_past_end _ (by simp at hlen; omega)]
  rfl

/-- **`!(import` at the end of a program panics**, whatever the text before it. -/
theorem macroExpandImport_keyword_at_end (n : Nat) (dependencyDir : FsDirectory)
    (dependencyChain : List (List Char)) (pre : List Char)
    (hpre : NoMatch "!(import".toList (pre ++ "!(import".toList) pre.length) (h0 : '\x00' ∉ pre) :
    macroExpandImport (n + 1) (pre ++ "!(import".toList) dependencyDir dependencyChain =
      .error .panic := by
  rw [macroExpandImport]
  exact loop_fault_at _ (f := fun r c => r ++ [c]) (fun q s => importStep_consume _ _ _ q s)
    hpre h0 (by decide) (fun q s hq => importStep_at_end _ _ _ hq s) _

theorem extractModuleStep_at_end (moduleName : List Char) {q : Parser}
    (hq : q.rest = "!(module".toList) (s : Nat × List Char) :
    extractModuleStep moduleName q s = .error .panic := by
  have hlen := input_length_of_rest hq (by decide)
  have h9 : (q.skip 9).rest = [] := by rw [rest_skip, hq]; rfl
  rw [extractModuleStep, if_pos (by rw [hq]; rfl)]
  simp only [consumeWhile, h9, countWhile, skip_input, skip_pos]
  rw [slice_past_end _ (by simp at hlen; omega)]
  rfl

/-- **`!(module` at the end of a dependency file panics.** -/
theorem extractModule_keyword_at_end (moduleName pre : List Char)
    (hpre : NoMatch "!(module".toList (pre ++ "!(module".toList) pre.length) (h0 : '\x00' ∉ pre) :
    extractModule [pre ++ "!(module".toList] moduleName = .error .panic := by
  simp only [extractModule, List.foldlM_cons, List.foldlM_nil]
  rw [loop_fault_at _ (f := fun s _ => s) (fun q s => extractModuleStep_consume _ q s) hpre h0
    (by decide) (fun q s hq => extractModuleStep_at_end _ hq s)]
  rfl

theorem extractModuleExpressionStep_consume (exprName : List Char) (q : Parser)
    (e : List Char) (hq : "!(def".toList.isPrefixOf q.rest = false) (hpk : q.Peek ≠ '\x00') :
    extractModuleExpressionStep exprName q e = .ok (q.skip 1, e) := by
  have hne : ∀ kw : List Char, "!(def".toList <+: kw → kw.isPrefixOf q.rest = false :=
    fun kw hkw => Bool.eq_false_iff.2 fun h => by
      rw [List.isPrefixOf_iff_prefix] at h
      rw [(List.isPrefixOf_iff_prefix).2 (hkw.trans h)] at hq
      cases hq
  rw [extractModuleExpressionStep,
    if_neg (by rw [hne "!(defun".toList ⟨"un".toList, rfl⟩]; decide),
    if_neg (by rw [hq]; decide),
    if_neg (by rw [hne "!(defrec".toList ⟨"rec".toList, rfl⟩]; decide),
    Consume_of_Peek hpk]
  rfl

theorem extractModuleExpressionStep_at_end (exprName : List Char) {q : Parser}
    (hq : q.rest = "!(def".toList) (e : List Char) :
    extractModuleExpressionStep exprName q e = .error .panic := by
  have hlen := input_length_of_rest hq (by decide)
  have h6 : (q.skip 6).rest = [] := by rw [rest_skip, hq]; rfl
  rw [extractModuleExpressionStep, if_neg (by rw [hq]; decide), if_pos (by rw [hq]; rfl),
    extractDef]
  simp only [consumeWhile, h6, countWhile, skip_input, skip_pos]
  rw [slice_past_end _ (by simp at hlen; omega)]
  rfl

/-- **`!(def` at the end of a module's text panics.** -/
theorem extractModuleExpression_keyword_at_end (exprName pre : List Char)
    (hpre : NoMatch "!(def".toList (pre ++ "!(def".toList) pre.length) (h0 : '\x00' ∉ pre) :
    extractModuleExpression (pre ++ "!(def".toList) exprName = .error .panic :=
  loop_fault_at _ (f := fun s _ => s) (fun q s => extractModuleExpressionStep_consume _ q s)
    hpre h0 (by decide) (fun q s hq => extractModuleExpressionStep_at_end _ hq s) _

end AtEnd

/-! ## Module layouts the shipped `std` does not use -/

/-- A dependency directory with a module `m` whose body is one byte, and a module `c`
defining `f` with `!(defrec`. -/
def shadowDeps : FsDirectory :=
  ⟨⟨[("a.lurk".toList, "!(module c (!(defrec f (lambda (x) x))\n))".toList),
     ("m.lurk".toList, "!(module m (x))".toList)], by decide, by decide⟩, ['.']⟩

theorem macroExpandImport_drops_text (n : Nat) :
    macroExpandImport (n + 2) "!(import m)".toList shadowDeps [] = .ok ['\n'] ∧
    macroExpandImport (n + 2) "!(import c/f)".toList shadowDeps [] = .ok [] := ⟨rfl, rfl⟩

end Ilxd
