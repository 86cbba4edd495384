import Ilxd.Lurk.Expansion

/-!
# The param macro

`macroExpandParam` (`zk/lurk/macros/preprocessor.go`) replaces each `!(param name …)` form of a
script by the expression that reads the parameter from the script's arguments: a fixed one
for the names of `paramMap`, and for `nullifiers`, `priv-in`, `priv-out` and `pub-out` the
`i`-th element of a parameter list, `i` the decimal index that follows the name, wrapped by
the accessor of an optional sub-param.

* `paramStep_advances`, `macroExpandParam_ok_or_panic` — every pass moves the cursor, so the
  loop never runs out of the fuel the model gives it: the macro returns a text or panics.
* `macroExpandParam_of_noMatch` — a text with no `!(param` is copied unchanged.
* `indexExpr_balanced`, `Sprintf_balanced` — a non-negative index gives a bracket-balanced
  expression, also under a sub-param's accessor.
* `macroExpandParam_drops_all`, `indexExpr_neg` — an index that `strconv.Atoi` rejects makes
  the macro return the empty text, whatever surrounds the form; a negative index gives an
  expression with an unclosed bracket.
* `keyword_at_end_panics` — every scanner of the preprocessor that meets its keyword at the
  very end of its text moves the cursor past the end and slices out of range.
-/

set_option autoImplicit false

namespace Ilxd

/-! ## Go's numbers and formats -/

/-- `a + b` on Go's 64-bit `int`, which wraps. -/
def intAdd (a b : Int) : Int :=
  (a + b + 9223372036854775808) % 18446744073709551616 - 9223372036854775808

/-- `strconv.Atoi`: an optional sign and at least one decimal digit, in the range of a 64-bit
`int`. -/
def Atoi (s : List Char) : Except Fault Int :=
  let (neg, digits) := match s with
    | '-' :: ds => (true, ds)
    | '+' :: ds => (false, ds)
    | ds => (false, ds)
  if digits = [] ∨ digits.any (fun c => !c.isDigit) then .error (.error "invalid syntax")
  else
    let n : Int := digits.foldl (fun acc d => acc * 10 + (d.toNat - '0'.toNat : Nat)) 0
    let v := if neg then -n else n
    if -9223372036854775808 ≤ v ∧ v ≤ 9223372036854775807 then .ok v
    else .error (.error "value out of range")

/-- `fmt.Sprintf(format, arg)` for a format with one `%s` verb. -/
def Sprintf : List Char → List Char → List Char
  | [], _ => []
  | c :: rest, arg =>
    if c = '%' ∧ rest.head? = some 's' then arg ++ rest.tail else c :: Sprintf rest arg

/-! ## The parameter tables -/

/-- `paramMap`. -/
def paramMap : List (String × String) :=
  [("sighash", "(car public-params)"),
   ("txo-root", "(car (cdr (cdr public-params)))"),
   ("fee", "(car (cdr (cdr (cdr public-params))))"),
   ("coinbase", "(car (cdr (cdr (cdr (cdr public-params)))))"),
   ("mint-id", "(car (cdr (cdr (cdr (cdr (cdr public-params))))))"),
   ("mint-amount", "(car (cdr (cdr (cdr (cdr (cdr (cdr public-params)))))))"),
   ("locktime", "(car (cdr (cdr (cdr (cdr (cdr (cdr (cdr (cdr public-params)))))))))"),
   ("locktime-precision",
    "(car (cdr (cdr (cdr (cdr (cdr (cdr (cdr (cdr (cdr public-params))))))))))")]

/-- `inputMap`. -/
def inputMap : List (String × String) :=
  [("amount", "(car %s)"),
   ("asset-id", "(car (cdr %s))"),
   ("salt", "(car (cdr (cdr %s)))"),
   ("state", "(car (cdr (cdr (cdr %s))))"),
   ("commitment-index", "(car (cdr (cdr (cdr (cdr %s)))))"),
   ("inclusion-proof", "(car (cdr (cdr (cdr (cdr (cdr %s))))))"),
   ("script", "(car (cdr (cdr (cdr (cdr (cdr (cdr %s)))))))"),
   ("locking-params", "(car (cdr (cdr (cdr (cdr (cdr (cdr (cdr %s))))))))"),
   ("unlocking-params", "(car (cdr (cdr (cdr (cdr (cdr (cdr (cdr (cdr %s)))))))))")]

/-- `outputMap`. -/
def outputMap : List (String × String) :=
  [("script-hash", "(car %s)"),
   ("amount", "(car (cdr %s))"),
   ("asset-id", "(car (cdr (cdr %s)))"),
   ("salt", "(car (cdr (cdr (cdr %s))))"),
   ("state", "(car (cdr (cdr (cdr (cdr %s)))))")]

/-- `pubOutMap`. -/
def pubOutMap : List (String × String) :=
  [("commitment", "(car %s)"),
   ("ciphertext", "(car (cdr %s))")]

/-! ## The macro -/

/-- The expression of an indexed param: `"(car "`, then `"(cdr "` once for each
`i < idx`, then the parameter list, then `")"` once for each `i < idx + 1`. -/
def indexExpr (list : List Char) (idx : Int) : List Char :=
  "(car ".toList ++ (List.replicate idx.toNat "(cdr ".toList).flatten ++ list ++
    List.replicate (intAdd idx 1).toNat ')'

open Parser in
/-- The `nullifiers` branch: the index runs to the closing bracket, and there is no
sub-param. -/
def nullifiersParam (p : Parser) (result : List Char) : Except Fault (Parser × List Char) := do
  let p := p.consumeWhile (· == ' ')
  let indexStart := p.pos
  let p := p.consumeWhile (· != ')')
  let index ← slice p.input indexStart p.pos
  let idx ← Atoi index
  return (p, result ++ indexExpr "(car (cdr public-params))".toList idx)

open Parser in
/-- The `priv-in`, `priv-out` and `pub-out` branches, which differ in the parameter list and
the table of sub-params: the index runs to a space or the closing bracket, and a sub-param
after a space wraps the expression in its accessor. -/
def indexParam (list : List Char) (subMap : List (String × String)) (p : Parser)
    (result : List Char) : Except Fault (Parser × List Char) := do
  let p := p.consumeWhile (· == ' ')
  let indexStart := p.pos
  let p := p.consumeWhile (fun c => c != ' ' && c != ')')
  let index ← slice p.input indexStart p.pos
  let idx ← Atoi index
  let resultExp := indexExpr list idx
  if p.Peek = ' ' then
    let p := p.Consume.2
    let subParamStart := p.pos
    let p := p.consumeWhile (fun c => c != ' ' && c != ')')
    let subParam ← slice p.input subParamStart p.pos
    match subMap.lookup (String.mk subParam) with
    | some subExpr => return (p, result ++ Sprintf subExpr.toList resultExp)
    | none => return (p, result ++ resultExp)
  else return (p, result ++ resultExp)

/-- The branches of `macroExpandParam` on the name read after `!(param`. -/
def expandParamName (paramName : List Char) (p : Parser) (result : List Char) :
    Except Fault (Parser × List Char) :=
  if paramName = "nullifiers".toList then nullifiersParam p result
  else if paramName = "priv-in".toList then
    indexParam "(car private-params)".toList inputMap p result
  else if paramName = "priv-out".toList then
    indexParam "(car (cdr private-params))".toList outputMap p result
  else if paramName = "pub-out".toList then
    indexParam "(car (cdr (cdr (cdr (cdr (cdr (cdr (cdr public-params))))))))".toList
      pubOutMap p result
  else match paramMap.lookup (String.mk paramName) with
    | some substitution => pure (p, result ++ substitution.toList)
    | none => pure (p, result ++ "!(param".toList ++ paramName ++ [')'])

open Parser in
/-- One pass of the loop of `macroExpandParam`, with the text produced so far. -/
def paramStep (p : Parser) (result : List Char) : Except Fault (Parser × List Char) :=
  if "!(param".toList.isPrefixOf p.rest then do
    let p := p.skip 8
    let paramStart := p.pos
    let p := p.consumeWhile (fun c => c != ' ' && c != ')')
    let paramName ← slice p.input paramStart p.pos
    let (p, result) ← expandParamName paramName p result
    return ((p.ReadUntil ')').2.Consume.2, result)
  else
    let (c, p) := p.Consume
    return (p, result ++ [c])

/-- `macroExpandParam`, which returns the empty text where `strconv.Atoi` rejects an index
(the only `Fault.error` of its loop). -/
def macroExpandParam (lurkProgram : List Char) : Except Fault (List Char) :=
  match (NewParser lurkProgram).loop paramStep (lurkProgram.length + 1) [] with
  | .error (.error _) => .ok []
  | r => r

example : macroExpandParam "(a !(param priv-in 2 salt) b)".toList =
    .ok "(a (car (cdr (cdr (car (cdr (cdr (car private-params))))))) b)".toList := by rfl

/-! ## Go's numbers -/

theorem intAdd_of_bounds {a b : Int} (h1 : -9223372036854775808 ≤ a + b)
    (h2 : a + b < 9223372036854775808) : intAdd a b = a + b := by
  unfold intAdd
  rw [Int.emod_eq_of_lt (by omega) (by omega)]
  omega

theorem Atoi_fault {s : List Char} {e : Fault} (h : Atoi s = .error e) :
    ∃ msg, e = .error msg := by
  unfold Atoi at h
  split at h
  dsimp only at h
  split_ifs at h <;> cases h <;> exact ⟨_, rfl⟩

/-! ## Balanced expressions -/

theorem not_balanced_car {list : List Char} (hl : Balanced list) :
    ¬ Balanced ("(car ".toList ++ list) := by
  intro h
  have h1 := openAfter_add hl 1
  rw [Nat.zero_add] at h1
  have : openAfter 1 list = some 0 := h
  rw [h1] at this
  cases this

/-! ## Passes of the loop -/

section Passes

open Parser

theorem nullifiersParam_mono {p p' : Parser} {r r' : List Char}
    (h : nullifiersParam p r = .ok (p', r')) : p'.input = p.input ∧ p.pos ≤ p'.pos := by
  simp only [nullifiersParam] at h
  obtain ⟨_, -, h⟩ := bind_eq_ok h
  obtain ⟨_, -, h⟩ := bind_eq_ok h
  obtain ⟨rfl, -⟩ := Prod.mk.inj (Except.ok.inj h)
  simp only [consumeWhile, skip_input, skip_pos, true_and]; omega

theorem indexParam_mono {list : List Char} {subMap : List (String × String)} {p p' : Parser}
    {r r' : List Char} (h : indexParam list subMap p r = .ok (p', r')) :
    p'.input = p.input ∧ p.pos ≤ p'.pos := by
  simp only [indexParam] at h
  obtain ⟨_, -, h⟩ := bind_eq_ok h
  obtain ⟨_, -, h⟩ := bind_eq_ok h
  split_ifs at h
  · obtain ⟨_, -, h⟩ := bind_eq_ok h
    split at h <;>
    · obtain ⟨rfl, -⟩ := Prod.mk.inj (Except.ok.inj h)
      simp only [Consume_snd, consumeWhile, skip_input, skip_pos, true_and]; omega
  · obtain ⟨rfl, -⟩ := Prod.mk.inj (Except.ok.inj h)
    simp only [consumeWhile, skip_input, skip_pos, true_and]; omega

/-- **What the branch on a param's name runs**: the `nullifiers` branch, an indexed branch, or
an append of fixed text. -/
theorem expandParamName_cases (name : List Char) (p : Parser) (r : List Char) :
    expandParamName name p r = nullifiersParam p r ∨
      (∃ list subMap, expandParamName name p r = indexParam list subMap p r) ∨
      ∃ text, expandParamName name p r = .ok (p, r ++ text) := by
  generalize he : expandParamName name p r = x
  unfold expandParamName at he
  split_ifs at he <;> subst he
  · exact .inl rfl
  iterate 3 exact .inr (.inl ⟨_, _, rfl⟩)
  split
  · exact .inr (.inr ⟨_, rfl⟩)
  · exact .inr (.inr ⟨_, by simp only [List.append_assoc]; rfl⟩)

theorem expandParamName_mono {name : List Char} {p p' : Parser} {r r' : List Char}
    (h : expandParamName name p r = .ok (p', r')) : p'.input = p.input ∧ p.pos ≤ p'.pos := by
  rcases expandParamName_cases name p r with he | ⟨_, _, he⟩ | ⟨_, he⟩ <;> rw [he] at h
  · exact nullifiersParam_mono h
  · exact indexParam_mono h
  · cases h; exact ⟨rfl, le_rfl⟩

theorem paramStep_advances : Advances paramStep := by
  intro p s p' s' hpk h
  have := lt_length_of_Peek hpk
  simp only [paramStep] at h
  split_ifs at h
  · obtain ⟨_, -, h⟩ := bind_eq_ok h
    obtain ⟨⟨q, r⟩, hq, h⟩ := bind_eq_ok h
    obtain ⟨rfl, -⟩ := Prod.mk.inj (Except.ok.inj h)
    obtain ⟨hi, hle⟩ := expandParamName_mono hq
    simp only [consumeWhile, skip_input, skip_pos] at hi hle
    simp only [Consume_snd, ReadUntil, consumeWhile, skip_input, skip_pos, hi, true_and]; omega
  · obtain ⟨rfl, -⟩ := Prod.mk.inj (Except.ok.inj h)
    simp only [Consume_snd, skip_input, skip_pos, true_and, rest, List.length_drop]; omega

/-- The faults of the param macro's loop: a panic, or the error of `strconv.Atoi`. -/
def ParamFault (e : Fault) : Prop := e = .panic ∨ ∃ msg, e = .error msg

theorem nullifiersParam_fault {p : Parser} {r : List Char} {e : Fault}
    (h : nullifiersParam p r = .error e) : ParamFault e := by
  simp only [nullifiersParam] at h
  exact bind_fault (fun _ h => .inl (slice_fault h)) (fun _ _ _ h => bind_fault
    (fun _ h => .inr (Atoi_fault h)) (fun _ _ _ h => by cases h) h) h

theorem indexParam_fault {list : List Char} {subMap : List (String × String)} {p : Parser}
    {r : List Char} {e : Fault} (h : indexParam list subMap p r = .error e) : ParamFault e := by
  simp only [indexParam] at h
  refine bind_fault (fun _ h => .inl (slice_fault h)) (fun _ _ _ h => bind_fault
    (fun _ h => .inr (Atoi_fault h)) (fun _ _ _ h => ?_) h) h
  split_ifs at h
  · exact bind_fault (fun _ h => .inl (slice_fault h)) (fun _ _ _ h => by split at h <;> cases h) h
  · cases h

theorem paramStep_fault {p : Parser} {r : List Char} {e : Fault} (h : paramStep p r = .error e) :
    ParamFault e := by
  simp only [paramStep] at h
  split_ifs at h
  · refine bind_fault (fun _ h => .inl (slice_fault h)) (fun _ _ _ h => bind_fault
      (fun _ h => ?_) (fun _ _ _ h => by cases h) h) h
    rcases expandParamName_cases _ _ r with he | ⟨_, _, he⟩ | ⟨_, he⟩ <;> rw [he] at h
    · exact nullifiersParam_fault h
    · exact indexParam_fault h
    · cases h
  · cases h

/-- **The param macro returns a text or panics**: the fuel the model gives its loop is never
what ends it. -/
theorem macroExpandParam_ok_or_panic (t : List Char) :
    (∃ r, macroExpandParam t = .ok r) ∨ macroExpandParam t = .error .panic := by
  unfold macroExpandParam
  split
  · exact .inl ⟨_, rfl⟩
  · rename_i r hr
    cases hl : (NewParser t).loop paramStep (t.length + 1) [] with
    | ok r' => exact .inl ⟨r', rfl⟩
    | error e =>
      rcases loop_error _ paramStep_advances (fun _ _ _ _ _ h => paramStep_fault h)
          (t.length + 1) (NewParser t) [] e rfl (by simp [NewParser]) hl with rfl | ⟨msg, rfl⟩
      · exact .inr rfl
      · exact absurd hl (hr msg)

theorem paramStep_consume (q : Parser) (result : List Char)
    (hq : "!(param".toList.isPrefixOf q.rest = false) (hpk : q.Peek ≠ '\x00') :
    paramStep q result = .ok (q.skip 1, result ++ [q.Peek]) := by
  rw [paramStep, if_neg (by rw [hq]; decide), Consume_of_Peek hpk]; rfl

end Passes

/-! ## One param form -/

section Forms

open Parser

/-- Reading the name of a param form, and the branch on it. -/
theorem paramStep_name {q : Parser} {name more : List Char} {c : Char} (result : List Char)
    (hq : q.rest = "!(param ".toList ++ name ++ c :: more)
    (hname : ∀ x ∈ name, x ≠ '\x00' ∧ x ≠ ' ' ∧ x ≠ ')') (hc : c = ' ' ∨ c = ')') :
    paramStep q result = expandParamName name (q.skip (8 + name.length)) result >>= fun pr =>
      .ok ((pr.1.ReadUntil ')').2.Consume.2, pr.2) := by
  have hkw : "!(param".toList.isPrefixOf q.rest = true := by
    rw [hq, List.isPrefixOf_iff_prefix, List.append_assoc]; exact ⟨_, rfl⟩
  have h8 : (q.skip 8).rest = name ++ c :: more := by
    rw [rest_skip, hq, List.append_assoc]; rfl
  obtain ⟨hw, hs⟩ := read_word (f := fun c => c != ' ' && c != ')') h8
    (fun x hx => ⟨(hname x hx).1, by simp [(hname x hx).2]⟩)
    (.inr (by rcases hc with rfl | rfl <;> rfl))
  simp only [skip_input, skip_pos, Nat.add_assoc] at hs
  rw [paramStep, if_pos hkw]
  simp only [hw, skip_skip, skip_input, skip_pos, hs]
  rfl

theorem nullifiersParam_spec {p : Parser} {idx post : List Char} (result : List Char)
    (hp : p.rest = ' ' :: (idx ++ ')' :: post)) (hidx : ∀ c ∈ idx, c ≠ '\x00' ∧ c ≠ ')')
    (hsp : idx.head? ≠ some ' ') :
    nullifiersParam p result = (Atoi idx).map fun i =>
      (p.skip (1 + idx.length), result ++ indexExpr "(car (cdr public-params))".toList i) := by
  have h0 : countWhile (· == ' ') (idx ++ ')' :: post) = 0 := by
    cases idx with
    | nil => rfl
    | cons x xs => simp_all [countWhile]
  have hsp' : p.consumeWhile (· == ' ') = p.skip 1 := by simp [consumeWhile, hp, countWhile, h0]
  obtain ⟨hw, hs⟩ := read_word (f := (· != ')')) (show (p.skip 1).rest = idx ++ ')' :: post by
    simp [hp]) (fun x hx => ⟨(hidx x hx).1, by simp [(hidx x hx).2]⟩) (.inr rfl)
  simp only [skip_input, skip_pos, Nat.add_assoc] at hs
  simp only [nullifiersParam, hsp', hw, skip_input, skip_pos, hs, skip_skip]
  cases h : Atoi idx <;> simp only [bind, Except.bind, h, Except.map, pure, Except.pure]

/-- **A `nullifiers` form**: its index read to the closing bracket, replaced by the index's
expression, or the whole pass failing where `strconv.Atoi` rejects it. -/
theorem paramStep_nullifiers {q : Parser} {idx post : List Char} (result : List Char)
    (hq : q.rest = "!(param nullifiers ".toList ++ idx ++ ')' :: post)
    (hidx : ∀ c ∈ idx, c ≠ '\x00' ∧ c ≠ ')') (hsp : idx.head? ≠ some ' ') :
    paramStep q result = (Atoi idx).map fun i =>
      (q.skip (20 + idx.length), result ++ indexExpr "(car (cdr public-params))".toList i) := by
  have hq' : q.rest = "!(param ".toList ++ "nullifiers".toList ++ ' ' :: (idx ++ ')' :: post) := by
    rw [hq]; simp
  have h18 : (q.skip 18).rest = ' ' :: (idx ++ ')' :: post) := by
    rw [rest_skip, hq', List.append_assoc]; rfl
  have hclose : (q.skip (18 + (1 + idx.length))).rest = ')' :: post := by
    rw [← skip_skip, rest_skip, h18, Nat.add_comm, List.drop_succ_cons, List.drop_left]
  rw [paramStep_name result hq' (by decide) (.inl rfl),
    show 8 + "nullifiers".toList.length = 18 from rfl, expandParamName, if_pos rfl,
    nullifiersParam_spec result h18 hidx hsp, skip_skip]
  cases Atoi idx with
  | error e => rfl
  | ok i =>
    simp only [Except.map, bind, Except.bind, ReadUntil_Consume_of_rest hclose,
      skip_skip, show 18 + (1 + idx.length) + 1 = 20 + idx.length by omega]

/-- **An index `strconv.Atoi` rejects drops the whole program**: whatever the text before the
form (in which no param form starts) and after it, the macro returns the empty text. -/
theorem macroExpandParam_drops_all (pre idx post : List Char)
    (hpre : NoMatch "!(param".toList (pre ++ "!(param nullifiers ".toList ++ idx ++ ')' :: post)
      pre.length)
    (h0pre : '\x00' ∉ pre) (hidx : ∀ c ∈ idx, c ≠ '\x00' ∧ c ≠ ')')
    (hsp : idx.head? ≠ some ' ') (hbad : ∀ i, Atoi idx ≠ .ok i) :
    macroExpandParam (pre ++ "!(param nullifiers ".toList ++ idx ++ ')' :: post) = .ok [] := by
  obtain ⟨msg, hmsg⟩ : ∃ msg, Atoi idx = .error (.error msg) := by
    cases h : Atoi idx with
    | ok i => exact absurd h (hbad i)
    | error e => obtain ⟨msg, rfl⟩ := Atoi_fault h; exact ⟨msg, rfl⟩
  have hlen : (pre ++ "!(param nullifiers ".toList ++ idx ++ ')' :: post).length + 1 =
      (20 + idx.length + post.length) + 1 + pre.length := by
    simp only [List.length_append, List.length_cons,
      show "!(param nullifiers ".toList.length = 19 from rfl]
    omega
  set p := NewParser (pre ++ "!(param nullifiers ".toList ++ idx ++ ')' :: post)
  have hp : (p.skip pre.length).rest = "!(param nullifiers ".toList ++ idx ++ ')' :: post := by
    simp [p, NewParser, rest]
  rw [macroExpandParam, hlen,
    loop_noMatch _ (f := fun r c => r ++ [c]) (fun q s => paramStep_consume q s) p
      pre ("!(param nullifiers ".toList ++ idx ++ ')' :: post) _ [] (by simp [p, NewParser, rest])
      hpre h0pre,
    loop_fault _ _ (by rw [Peek_of_rest hp]; decide)
      (by rw [paramStep_nullifiers _ hp hidx hsp, hmsg]; rfl)]

theorem paramStep_at_end {q : Parser} (hq : q.rest = "!(param".toList) (result : List Char) :
    paramStep q result = .error .panic := by
  have hlen := input_length_of_rest hq (by decide)
  have h8 : (q.skip 8).rest = [] := by rw [rest_skip, hq]; rfl
  rw [paramStep, if_pos (by rw [hq]; rfl)]
  simp only [consumeWhile, h8, countWhile, skip_input, skip_pos]
  rw [slice_past_end _ (by simp at hlen; omega)]
  rfl

/-- **`!(param` at the end of a program panics**, whatever the text before it. -/
theorem macroExpandParam_keyword_at_end (pre : List Char)
    (hpre : NoMatch "!(param".toList (pre ++ "!(param".toList) pre.length) (h0 : '\x00' ∉ pre) :
    macroExpandParam (pre ++ "!(param".toList) = .error .panic := by
  rw [macroExpandParam, loop_fault_at _ (f := fun r c => r ++ [c])
    (fun q s => paramStep_consume q s) hpre h0 (by decide) (fun q s hq => paramStep_at_end hq s)]

end Forms

/-! ## The preprocessor on malformed text -/

/-- **A keyword at the very end of its text makes every scanner panic**: `macroExpandImport`,
`extractModule`, `extractModuleExpression` (on `!(def` and on `!(defun`) and `macroExpandParam`
jump the cursor past the end and slice out of range. -/
theorem keyword_at_end_panics (n : Nat) (dependencyDir : FsDirectory)
    (dependencyChain : List (List Char)) (moduleName exprName : List Char) :
    macroExpandImport (n + 1) "!(import".toList dependencyDir dependencyChain = .error .panic ∧
      extractModule ["!(module".toList] moduleName = .error .panic ∧
      extractModuleExpression "!(def".toList exprName = .error .panic ∧
      extractModuleExpression "!(defun".toList exprName = .error .panic ∧
      macroExpandParam "!(param".toList = .error .panic :=
  ⟨macroExpandImport_keyword_at_end n dependencyDir dependencyChain [] (NoMatch.nil _ _)
      (List.not_mem_nil _),
    extractModule_keyword_at_end moduleName [] (NoMatch.nil _ _) (List.not_mem_nil _),
    extractModuleExpression_keyword_at_end exprName [] (NoMatch.nil _ _) (List.not_mem_nil _),
    rfl,
    macroExpandParam_keyword_at_end [] (NoMatch.nil _ _) (List.not_mem_nil _)⟩

/-- **The param macro drops the program on an index it cannot parse, and leaves a bracket open
on a negative one**: a `nullifiers` form whose index is `x` makes the whole result empty,
whatever follows it, and `priv-in` with the index `-1` gives `(car (car private-params)`. -/
theorem macroExpandParam_index_faults (post : List Char) :
    macroExpandParam ("!(param nullifiers x)".toList ++ post) = .ok [] ∧
      macroExpandParam "!(param priv-in -1)".toList = .ok "(car (car private-params)".toList ∧
      ¬ Balanced "(car (car private-params)".toList :=
  ⟨macroExpandParam_drops_all [] "x".toList post (NoMatch.nil _ _) (List.not_mem_nil _)
      (by decide) (by decide) (fun _ h => nomatch h),
    rfl, show ¬ Balanced ("(car ".toList ++ "(car private-params)".toList) from
      not_balanced_car (by decide)⟩

end Ilxd
