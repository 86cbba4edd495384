import Ilxd.Lurk.Accessor
import Ilxd.Lurk.Param

/-!
# What the param macro's output reads

`macroExpandParam` builds its text from the tables of `zk/lurk/macros/preprocessor.go`, with
`fmt.Sprintf` and the loop of `(cdr ` that writes an index.  Read as Lurk, every such text is an
`Accessor`: this module proves that the macro, on every script whose param forms are well
formed, writes for each form the accessor of the parameter the form names.

The parameters are laid out as the tables assume: `public-params` is the list of the public
parameters in the order of `publicParams`, `private-params` the inputs then the outputs, and a
sub-param names the field of an input, an output or a public output at its position in its
table.

* `indexExpr_nth`, `Sprintf_nth` — the index loop writes the accessor of element `i`, and a
  table's format filled with an accessor is the accessor of the field.
* `tables_read_fields` — every table of the macro holds the accessor of the position the layout
  gives its name.
* `expands_of_valid` — one pass of the loop at a well-formed form writes the accessor of the
  form's path and moves past the form, whatever follows it.
* `macroExpandParam_reads_params` — on a whole script, the macro replaces each form by that
  accessor and copies the text between the forms; the accessor reads back as itself and
  evaluates to the item at the form's path.
-/

set_option autoImplicit false

namespace Ilxd

open Lurk Lurk.Accessor Parser

/-! ## The text builders print accessors -/

theorem Sprintf_append_of_not_mem (arg : List Char) :
    ∀ (u v : List Char), '%' ∉ u → Sprintf (u ++ v) arg = u ++ Sprintf v arg
  | [], _, _ => rfl
  | c :: u, v, hu => by
    have hc : c ≠ '%' := fun h => hu (h ▸ List.mem_cons_self c u)
    rw [List.cons_append, Sprintf, if_neg (fun h => hc h.1),
      Sprintf_append_of_not_mem arg u v (fun h => hu (List.mem_cons_of_mem c h))]
    rfl

/-- The accessor of field `k` of a record, with `%s` for the record: the form of the texts of
the tables of sub-params. -/
def fieldFormat (k : Nat) : List Char := ((Accessor.sym "%s".toList).nth k).print

/-- **Filling a field's format with an accessor gives the accessor of that field.** -/
theorem Sprintf_nth (k : Nat) (e : Accessor) :
    Sprintf (fieldFormat k) e.print = (e.nth k).print := by
  have hu : '%' ∉ "(car ".toList ++ (List.replicate k "(cdr ".toList).flatten := by
    simp [List.mem_flatten, List.mem_replicate]
  have hs : ∀ v, Sprintf ('%' :: 's' :: v) e.print = e.print ++ v := fun v => by
    rw [Sprintf, if_pos ⟨rfl, rfl⟩]; rfl
  rw [fieldFormat, print_nth, print_nth]
  simp only [print, List.append_assoc]
  rw [← List.append_assoc "(car ".toList, Sprintf_append_of_not_mem _ _ _ hu]
  exact congrArg _ (hs _)

/-- **The index loop writes the accessor of element `i`** of the list it is given. -/
theorem indexExpr_nth (e : Accessor) {i : Int} (h0 : 0 ≤ i) (h1 : i < 9223372036854775807) :
    indexExpr e.print i = (e.nth i.toNat).print := by
  have hc : (intAdd i 1).toNat = i.toNat + 1 := by
    rw [intAdd_of_bounds (by omega) (by omega)]; omega
  rw [indexExpr, hc, print_nth]

/-! ## The layout of the parameters -/

/-- The public parameters of a script, in the order of the list `public-params`, under the
names of the params that read them. -/
def publicParams : List (List Char) :=
  ["sighash", "nullifiers", "txo-root", "fee", "coinbase", "mint-id", "mint-amount", "pub-out",
    "locktime", "locktime-precision"].map String.toList

/-- The private parameters, in the order of the list `private-params`: the inputs, then the
outputs. -/
def privateParams : List (List Char) := ["priv-in", "priv-out"].map String.toList

/-- The list that holds the parameter of a param name, and its position there. -/
def paramPosition (name : List Char) : List Char × Nat :=
  if name ∈ privateParams then ("private-params".toList, privateParams.indexOf name)
  else ("public-params".toList, publicParams.indexOf name)

/-- The accessor of the parameter of a param name. -/
def paramAccessor (name : List Char) : Accessor :=
  ofPath (paramPosition name).1 [(paramPosition name).2]

/-- The params that take an index: `nullifiers`, and those with a table of sub-params. -/
def indexedNames : List (List Char) :=
  ["nullifiers", "priv-in", "priv-out", "pub-out"].map String.toList

/-- The table of sub-params of an indexed param. -/
def subParams (name : List Char) : List (String × String) :=
  if name = "priv-in".toList then inputMap
  else if name = "priv-out".toList then outputMap
  else if name = "pub-out".toList then pubOutMap
  else []

/-- A table that holds the format of field `n + k` at each position `k`. -/
def isFieldTable : Nat → List (String × String) → Bool
  | _, [] => true
  | n, (_, fmt) :: T => fmt.toList == fieldFormat n && isFieldTable (n + 1) T

/-- A word of a form, as the macro's scans delimit it: no space, no closing bracket and no
zero byte. -/
def Word (w : List Char) : Prop := ∀ x ∈ w, x ≠ '\x00' ∧ x ≠ ' ' ∧ x ≠ ')'

instance : DecidablePred Word := fun w => inferInstanceAs (Decidable (∀ x ∈ w, _))

/-- **The tables read what the layout says**: `paramMap` holds the accessor of each fixed
param's parameter, and each table of sub-params the format of field `k` at position `k`; the
names of all are words, and no fixed param has the name of an indexed one. -/
theorem tables_read_fields :
    (∀ e ∈ paramMap, e.2.toList = (paramAccessor e.1.toList).print ∧
      e.1.toList ∉ indexedNames ∧ Word e.1.toList) ∧
    ∀ name ∈ indexedNames, Word name ∧ isFieldTable 0 (subParams name) = true ∧
      ∀ e ∈ subParams name, Word e.1.toList := by
  decide

theorem lookup_fieldTable : ∀ (n : Nat) (T : List (String × String)), isFieldTable n T = true →
    ∀ key ∈ T.map Prod.fst,
      (T.lookup key).map String.toList = some (fieldFormat (n + (T.map Prod.fst).indexOf key))
  | _, [], _, _, h => absurd h (List.not_mem_nil _)
  | n, (k', fmt) :: T, hT, key, hkey => by
    simp only [isFieldTable, Bool.and_eq_true, beq_iff_eq] at hT
    by_cases h : key = k'
    · subst h; simpa [List.lookup_cons, List.indexOf_cons] using hT.1
    · have hmem : key ∈ T.map Prod.fst := by simpa [h] using hkey
      simp only [List.lookup_cons, beq_false_of_ne h, List.map_cons, List.indexOf_cons,
        beq_false_of_ne (Ne.symm h), cond_false, lookup_fieldTable (n + 1) T hT.2 key hmem]
      rw [Nat.add_right_comm, Nat.add_assoc]

theorem lookup_of_mem (key : String) : ∀ T : List (String × String), key ∈ T.map Prod.fst →
    ∃ v, T.lookup key = some v ∧ (key, v) ∈ T
  | [], h => absurd h (List.not_mem_nil _)
  | (k', v) :: T, h => by
    by_cases hk : key = k'
    · subst hk; exact ⟨v, by simp [List.lookup_cons], List.mem_cons_self _ _⟩
    · obtain ⟨w, hw, hm⟩ := lookup_of_mem key T (by simpa [hk] using h)
      exact ⟨w, by simp [List.lookup_cons, beq_false_of_ne hk, hw], List.mem_cons_of_mem _ hm⟩

theorem lookup_of_not_mem (key : String) :
    ∀ T : List (String × String), key ∉ T.map Prod.fst → T.lookup key = none
  | [], _ => rfl
  | (k', _) :: T, h => by
    simp only [List.map_cons, List.mem_cons, not_or] at h
    simp only [List.lookup_cons, beq_false_of_ne h.1, lookup_of_not_mem key T h.2]

/-! ## Reading one form -/

theorem word_of_isDigit {c : Char} (h : c.isDigit = true) :
    c ≠ '\x00' ∧ c ≠ ' ' ∧ c ≠ ')' := by
  refine ⟨?_, ?_, ?_⟩ <;> rintro rfl <;> exact absurd h (by decide)

/-- An index `strconv.Atoi` accepts is a word: a sign and digits, at least one. -/
theorem Atoi_word {s : List Char} {v : Int} (h : Atoi s = .ok v) : Word s ∧ s ≠ [] := by
  unfold Atoi at h
  split at h
  rename_i digits heq
  have hdig : Word digits ∧ digits ≠ [] := by
    dsimp only at h
    split_ifs at h with h1
    all_goals
      simp only [not_or, List.any_eq_true, Bool.not_eq_true', not_exists, not_and,
        Bool.not_eq_false] at h1
      exact ⟨fun x hx => word_of_isDigit (h1.2 x hx), h1.1⟩
  split at heq <;> obtain ⟨-, rfl⟩ := Prod.mk.inj heq
  iterate 2 exact ⟨List.forall_mem_cons.2 ⟨by decide, hdig.1⟩, List.cons_ne_nil _ _⟩
  exact hdig

/-- Reading the index of a form: one space, then the index up to a space or the closing
bracket. -/
theorem read_index {p : Parser} {idx more : List Char} {c : Char}
    (hp : p.rest = ' ' :: (idx ++ c :: more)) (hidx : Word idx) (hne : idx ≠ [])
    (hc : c = ' ' ∨ c = ')') :
    p.consumeWhile (· == ' ') = p.skip 1 ∧
      (p.skip 1).consumeWhile (fun c => c != ' ' && c != ')') = (p.skip 1).skip idx.length ∧
      slice p.input (p.pos + 1) (p.pos + (1 + idx.length)) = .ok idx := by
  obtain ⟨x, xs, rfl⟩ := List.exists_cons_of_ne_nil hne
  obtain ⟨hw, hs⟩ := read_word (f := fun c => c != ' ' && c != ')')
    (show (p.skip 1).rest = (x :: xs) ++ c :: more by simp [hp])
    (fun y hy => ⟨(hidx y hy).1, by simp [(hidx y hy).2]⟩)
    (.inr (by rcases hc with rfl | rfl <;> rfl))
  simp only [skip_input, skip_pos, Nat.add_assoc] at hs
  refine ⟨consumeWhile_of_rest (show p.rest = [' '] ++ x :: (xs ++ c :: more) by simpa using hp)
    (by simp) (.inr ?_), hw, hs⟩
  simpa using (hidx x (List.mem_cons_self x xs)).2.1

theorem indexParam_noSub {list : List Char} {subMap : List (String × String)} {p : Parser}
    {idx post : List Char} {i : Int} (result : List Char)
    (hp : p.rest = ' ' :: (idx ++ ')' :: post)) (hidx : Word idx) (hne : idx ≠ [])
    (hi : Atoi idx = .ok i) :
    indexParam list subMap p result =
      .ok (p.skip (1 + idx.length), result ++ indexExpr list i) := by
  obtain ⟨h1, h2, h3⟩ := read_index hp hidx hne (.inr rfl)
  have hq : (p.skip (1 + idx.length)).rest = ')' :: post := by
    rw [rest_skip, hp, Nat.add_comm, List.drop_succ_cons, List.drop_left]
  simp only [indexParam, h1, h2, skip_skip, skip_input, skip_pos, h3, hi, bind, Except.bind,
    Peek_of_rest hq]
  rfl

theorem indexParam_sub {list : List Char} {subMap : List (String × String)} {p : Parser}
    {idx sub post : List Char} {i : Int} (result : List Char)
    (hp : p.rest = ' ' :: (idx ++ ' ' :: (sub ++ ')' :: post))) (hidx : Word idx)
    (hne : idx ≠ []) (hsub : Word sub) (hi : Atoi idx = .ok i) :
    indexParam list subMap p result = .ok (p.skip (1 + idx.length + 1 + sub.length),
      result ++ match subMap.lookup (String.mk sub) with
        | some subExpr => Sprintf subExpr.toList (indexExpr list i)
        | none => indexExpr list i) := by
  obtain ⟨h1, h2, h3⟩ := read_index hp hidx hne (.inl rfl)
  have hq : (p.skip (1 + idx.length)).rest = ' ' :: (sub ++ ')' :: post) := by
    rw [rest_skip, hp, Nat.add_comm, List.drop_succ_cons, List.drop_left]
  obtain ⟨hw, hs⟩ := read_word (f := fun c => c != ' ' && c != ')')
    (show ((p.skip (1 + idx.length)).skip 1).rest = sub ++ ')' :: post by simp [hq])
    (fun y hy => ⟨(hsub y hy).1, by simp [(hsub y hy).2]⟩) (.inr rfl)
  simp only [skip_input, skip_pos, skip_skip] at hw hs
  rw [Nat.add_assoc p.pos] at hs
  simp only [indexParam, h1, h2, skip_skip, skip_input, skip_pos, h3, hi, bind, Except.bind,
    Peek_of_rest hq, Consume_of_rest hq, if_true, hw, hs]
  cases subMap.lookup (String.mk sub) <;> rfl

theorem expandParamName_indexed {name : List Char} (h : name ∈ indexedNames)
    (hn : name ≠ "nullifiers".toList) (p : Parser) (r : List Char) :
    expandParamName name p r = indexParam (paramAccessor name).print (subParams name) p r := by
  simp only [indexedNames, List.map_cons, List.map_nil, List.mem_cons, List.not_mem_nil,
    or_false] at h
  rcases h with rfl | rfl | rfl | rfl
  · exact absurd rfl hn
  all_goals rfl

theorem expandParamName_noSub {name : List Char} (h : name ∈ indexedNames) {p : Parser}
    {idx post : List Char} {i : Int} (result : List Char)
    (hp : p.rest = ' ' :: (idx ++ ')' :: post)) (hi : Atoi idx = .ok i) :
    expandParamName name p result =
      .ok (p.skip (1 + idx.length), result ++ indexExpr (paramAccessor name).print i) := by
  obtain ⟨hidx, hne⟩ := Atoi_word hi
  by_cases hn : name = "nullifiers".toList
  · obtain ⟨x, xs, rfl⟩ := List.exists_cons_of_ne_nil hne
    subst hn
    rw [expandParamName, if_pos rfl, nullifiersParam_spec result hp
      (fun c hc => ⟨(hidx c hc).1, (hidx c hc).2.2⟩)
      (by simpa using (hidx x (List.mem_cons_self x xs)).2.1), hi]
    rfl
  · rw [expandParamName_indexed h hn, indexParam_noSub result hp hidx hne hi]

theorem expandParamName_fixed {name : List Char} {text : String} (hn : name ∉ indexedNames)
    (hl : paramMap.lookup (String.mk name) = some text) (p : Parser) (r : List Char) :
    expandParamName name p r = .ok (p, r ++ text.toList) := by
  simp only [indexedNames, List.map_cons, List.map_nil, List.mem_cons, List.not_mem_nil,
    or_false, not_or] at hn
  rw [expandParamName, if_neg hn.1, if_neg hn.2.1, if_neg hn.2.2.1, if_neg hn.2.2.2, hl]
  rfl

open Parser in
/-- A pass whose branch on the name leaves the cursor at the form's closing bracket moves past
it. -/
theorem paramStep_closes {q : Parser} {name more post out : List Char} {c : Char} {m : Nat}
    (result : List Char) (hq : q.rest = "!(param ".toList ++ name ++ c :: more)
    (hname : Word name) (hc : c = ' ' ∨ c = ')') (hm : (q.skip m).rest = ')' :: post)
    (he : expandParamName name (q.skip (8 + name.length)) result = .ok (q.skip m, result ++ out)) :
    paramStep q result = .ok (q.skip (m + 1), result ++ out) := by
  rw [paramStep_name result hq hname hc, he]
  simp only [bind, Except.bind, ReadUntil_Consume_of_rest hm, skip_skip]

/-! ## Forms and their meaning -/

/-- A param form: a name with an index and an optional sub-param, or a name alone.  The index
is kept both as the text of the form and as the number it denotes. -/
inductive ParamForm
  | indexed (name idx : List Char) (i : Nat) (sub : Option (List Char))
  | fixed (name : List Char)

namespace ParamForm

/-- The text of a form. -/
def text : ParamForm → List Char
  | indexed name idx _ none => "!(param ".toList ++ name ++ ' ' :: idx ++ [')']
  | indexed name idx _ (some sub) => "!(param ".toList ++ name ++ ' ' :: idx ++ ' ' :: sub ++ [')']
  | fixed name => "!(param ".toList ++ name ++ [')']

/-- The position of the field a sub-param names, where its table has it. -/
def fieldPath (T : List (String × String)) : Option (List Char) → List Nat
  | some sub =>
    if String.mk sub ∈ T.map Prod.fst then [(T.map Prod.fst).indexOf (String.mk sub)] else []
  | none => []

/-- The list a form reads from, and the path of the item it reads there: the position of its
param's parameter, then its index and the position of its sub-param's field. -/
def path : ParamForm → List Char × List Nat
  | indexed name _ i sub =>
    ((paramPosition name).1, (paramPosition name).2 :: i :: fieldPath (subParams name) sub)
  | fixed name => ((paramPosition name).1, [(paramPosition name).2])

/-- The accessor of the item a form reads. -/
def accessor (f : ParamForm) : Accessor := ofPath f.path.1 f.path.2

/-- The forms the macro expands as params: an indexed param whose index `strconv.Atoi` reads as
`i`, below the largest `int`, with a sub-param (a word) only where the param has a table; and
a param of `paramMap`. -/
def Valid : ParamForm → Prop
  | indexed name idx i sub => name ∈ indexedNames ∧ Atoi idx = .ok (i : Int) ∧
      i < 9223372036854775807 ∧ (name = "nullifiers".toList → sub = none) ∧ ∀ s ∈ sub, Word s
  | fixed name => String.mk name ∈ paramMap.map Prod.fst

/-- A script: a text, then forms, each followed by a text. -/
def script (pre : List Char) (items : List (ParamForm × List Char)) : List Char :=
  pre ++ (items.map fun it => it.1.text ++ it.2).flatten

/-- A script with each form replaced by its accessor. -/
def expanded (pre : List Char) (items : List (ParamForm × List Char)) : List Char :=
  pre ++ (items.map fun it => it.1.accessor.print ++ it.2).flatten

theorem text_cons (f : ParamForm) : ∃ t, f.text = '!' :: t := by
  rcases f with ⟨_, _, _, _ | _⟩ | _ <;> exact ⟨_, rfl⟩

theorem text_length_indexed (name idx : List Char) (i : Nat) :
    (indexed name idx i none).text.length = 8 + name.length + (1 + idx.length) + 1 ∧
      ∀ sub, (indexed name idx i (some sub)).text.length =
        8 + name.length + (1 + idx.length + 1 + sub.length) + 1 := by
  refine ⟨?_, fun sub => ?_⟩ <;> simp only [text, List.length_append, List.length_cons] <;>
    rw [show "!(param ".toList.length = 8 from rfl] <;> simp <;> omega

end ParamForm

open ParamForm

/-- One pass of the macro's loop at `form` writes `out` and moves past the form, whatever
follows it. -/
def Expands (form out : List Char) : Prop :=
  ∀ (q : Parser) (result post : List Char), q.rest = form ++ post →
    paramStep q result = .ok (q.skip form.length, result ++ out)

theorem rest_after_keyword {q : Parser} {name tail : List Char}
    (hq : q.rest = "!(param ".toList ++ name ++ tail) (k : Nat) :
    (q.skip (8 + name.length + k)).rest = tail.drop k := by
  rw [rest_skip, hq, show 8 + name.length + k = ("!(param ".toList ++ name).length + k by
    rw [List.length_append]; rfl, List.drop_append]

/-- **One pass at a well-formed form writes the accessor of the item the form reads.** -/
theorem expands_of_valid : ∀ f : ParamForm, f.Valid → Expands f.text f.accessor.print
  | .fixed name, hv, q, result, post, hq => by
    obtain ⟨text, hl, hmem⟩ := lookup_of_mem _ paramMap hv
    obtain ⟨htext, hn, hname⟩ := tables_read_fields.1 _ hmem
    have hq' : q.rest = "!(param ".toList ++ name ++ ')' :: post := by
      simpa [ParamForm.text] using hq
    rw [paramStep_closes result hq' hname (.inr rfl) (rest_after_keyword hq' 0)
      (expandParamName_fixed hn hl _ result), htext]
    simp only [ParamForm.text, List.length_append, List.length_cons]
    rfl
  | .indexed name idx i none, ⟨hn, hi, hlt, _, _⟩, q, result, post, hq => by
    have hq' : q.rest = "!(param ".toList ++ name ++ ' ' :: (idx ++ ')' :: post) := by
      simpa [ParamForm.text] using hq
    have he := expandParamName_noSub hn result (rest_after_keyword hq' 0) hi
    rw [skip_skip, Nat.add_zero, indexExpr_nth _ (by omega) (by omega), Int.toNat_ofNat] at he
    rw [paramStep_closes result hq' (tables_read_fields.2 name hn).1 (.inl rfl)
      (by rw [rest_after_keyword hq', Nat.add_comm, List.drop_succ_cons, List.drop_left]) he,
      (text_length_indexed name idx i).1]
    rfl
  | .indexed name idx i (some sub), ⟨hn, hi, hlt, hnull, hsub⟩, q, result, post, hq => by
    obtain ⟨hname, hT, -⟩ := tables_read_fields.2 name hn
    obtain ⟨hidx, hne⟩ := Atoi_word hi
    have hq' : q.rest =
        "!(param ".toList ++ name ++ ' ' :: (idx ++ ' ' :: (sub ++ ')' :: post)) := by
      simpa [ParamForm.text] using hq
    have he := @indexParam_sub (paramAccessor name).print (subParams name) _ _ _ _ _
      result (rest_after_keyword hq' 0) hidx hne (hsub sub rfl) hi
    rw [← expandParamName_indexed hn (fun h => Option.noConfusion (hnull h)), skip_skip,
      Nat.add_zero, indexExpr_nth _ (by omega) (by omega), Int.toNat_ofNat] at he
    rw [paramStep_closes result hq' hname (.inl rfl) (by
      rw [rest_after_keyword hq', show ' ' :: (idx ++ ' ' :: (sub ++ ')' :: post)) =
        (' ' :: (idx ++ ' ' :: sub)) ++ ')' :: post by simp, List.drop_left' (by simp; omega)]) he,
      (text_length_indexed name idx i).2 sub]
    by_cases hk : String.mk sub ∈ (subParams name).map Prod.fst
    · obtain ⟨fmt, hl, hf⟩ := Option.map_eq_some'.1 (lookup_fieldTable 0 _ hT _ hk)
      rw [hl]
      simp only [hf, Nat.zero_add, Sprintf_nth]
      simp [ParamForm.accessor, ParamForm.path, ParamForm.fieldPath, hk, ofPath, paramAccessor]
    · rw [lookup_of_not_mem _ _ hk]
      simp [ParamForm.accessor, ParamForm.path, ParamForm.fieldPath, hk, ofPath, paramAccessor]

/-! ## Whole scripts -/

instance (kw t : List Char) (n : Nat) : Decidable (NoMatch kw t n) :=
  inferInstanceAs (Decidable (∀ k < n, _))

/-- A text in which no param form starts, and which the macro copies as it stands. -/
def Plain (t : List Char) : Prop := NoMatch "!(param".toList t t.length ∧ Verbatim t

instance : DecidablePred Plain := fun _ => inferInstanceAs (Decidable (_ ∧ _))

theorem isPrefixOf_of_append_cons {c : Char} :
    ∀ {kw s r : List Char}, c ∉ kw → kw.isPrefixOf (s ++ c :: r) = true →
      kw.isPrefixOf s = true
  | [], _, _, _, _ => by simp [List.isPrefixOf]
  | k :: kw, [], r, hc, h => by
    simp only [List.nil_append, List.isPrefixOf, Bool.and_eq_true, beq_iff_eq] at h
    exact absurd (h.1 ▸ List.mem_cons_self k kw) hc
  | k :: kw, x :: s, r, hc, h => by
    simp only [List.cons_append, List.isPrefixOf, Bool.and_eq_true] at h ⊢
    exact ⟨h.1, isPrefixOf_of_append_cons (fun h' => hc (List.mem_cons_of_mem k h')) h.2⟩

/-- No param form starts in a plain text followed by a form: the keyword holds no second `!`. -/
theorem NoMatch.append_form {t r : List Char} (h : NoMatch "!(param".toList t t.length) :
    NoMatch "!(param".toList (t ++ '!' :: r) t.length := by
  intro k hk
  have hk' := h k hk
  rw [List.drop_append_of_le_length hk.le]
  obtain ⟨x, s, hs⟩ : ∃ x s, t.drop k = x :: s := List.exists_cons_of_ne_nil (by simp; omega)
  rw [hs] at hk' ⊢
  rw [Bool.eq_false_iff] at hk' ⊢
  intro hpre
  simp only [List.cons_append, show "!(param".toList = '!' :: "(param".toList from rfl,
    List.isPrefixOf, Bool.and_eq_true] at hpre hk'
  exact hk' (Bool.and_eq_true_iff.2 ⟨hpre.1, isPrefixOf_of_append_cons (by decide) hpre.2⟩)

theorem noMatch_before_forms {t : List Char} (h : NoMatch "!(param".toList t t.length)
    (items : List (ParamForm × List Char)) :
    NoMatch "!(param".toList (t ++ (items.map fun it => it.1.text ++ it.2).flatten) t.length := by
  cases items with
  | nil => simpa using h
  | cons it items =>
    obtain ⟨u, hu⟩ := it.1.text_cons
    simpa only [List.map_cons, List.flatten_cons, hu, List.cons_append] using h.append_form

/-- **The loop over the forms of a script**, each followed by plain text. -/
theorem loop_forms : ∀ (items : List (ParamForm × List Char)) (p : Parser) (acc : List Char)
    (n : Nat), (∀ it ∈ items, it.1.Valid ∧ Plain it.2) →
    p.rest = (items.map fun it => it.1.text ++ it.2).flatten → p.rest.length < n →
    p.loop paramStep n acc = .ok (acc ++ (items.map fun it => it.1.accessor.print ++ it.2).flatten)
  | [], p, acc, n, _, hp, hn => by rw [loop_end _ (by omega) hp]; simp
  | (f, seg) :: items, p, acc, n, hv, hp, hn => by
    have hf := hv (f, seg) (List.mem_cons_self _ _)
    have hrest := fun it hit => hv it (List.mem_cons_of_mem _ hit)
    set rest := (items.map fun it => it.1.text ++ it.2).flatten
    have hp' : p.rest = f.text ++ (seg ++ rest) := by simp [hp, rest]
    obtain ⟨u, hu⟩ := f.text_cons
    have hlen : f.text.length + seg.length + rest.length < n := by
      rw [hp'] at hn; simpa [Nat.add_assoc] using hn
    obtain ⟨m, rfl⟩ : ∃ m, n = m + seg.length + rest.length + 1 + u.length :=
      ⟨n - (seg.length + rest.length + 1 + u.length), by rw [hu] at hlen; simp at hlen; omega⟩
    have hq : (p.skip f.text.length).rest = seg ++ rest := by
      rw [rest_skip, hp', List.drop_left]
    rw [show m + seg.length + rest.length + 1 + u.length =
        (m + rest.length + 1 + u.length - 1 + seg.length) + 1 by omega,
      loop_step _ _ (by rw [Peek_of_rest (by rw [hp', hu]; rfl)]; decide)
        (expands_of_valid f hf.1 p acc (seg ++ rest) hp'),
      loop_noMatch _ (f := fun r c => r ++ [c]) (fun q s => paramStep_consume q s) _ seg rest _ _
        hq (by rw [hq]; exact noMatch_before_forms hf.2.1 items) hf.2.2.1, foldl_snoc,
      loop_forms items _ _ _ hrest (by rw [rest_skip, hq, List.drop_left])
        (by rw [rest_skip, hq, List.drop_left]; rw [hu] at hlen; simp at hlen ⊢; omega)]
    simp [List.append_assoc]

/-- The macro over a whole script of plain text and well-formed forms. -/
theorem macroExpandParam_script (pre : List Char) (items : List (ParamForm × List Char))
    (hpre : Plain pre) (hitems : ∀ it ∈ items, it.1.Valid ∧ Plain it.2) :
    macroExpandParam (script pre items) = .ok (expanded pre items) := by
  set forms := (items.map fun it => it.1.text ++ it.2).flatten
  have hp : (NewParser (script pre items)).rest = pre ++ forms := by
    simp [NewParser, Parser.rest, forms, script]
  have hq : ((NewParser (script pre items)).skip pre.length).rest = forms := by
    rw [rest_skip, hp, List.drop_left]
  rw [macroExpandParam, show (script pre items).length + 1 = (forms.length + 1) + pre.length by
      simp [script, forms]; omega,
    loop_noMatch _ (f := fun r c => r ++ [c]) (fun q s => paramStep_consume q s) _ pre forms _ []
      hp (by rw [hp]; exact noMatch_before_forms hpre.1 items) hpre.2.1, foldl_snoc,
    List.nil_append, loop_forms items _ pre _ hitems hq (by rw [hq]; omega)]
  rfl

theorem isSymbol_paramPosition (name : List Char) : isSymbol (paramPosition name).1 = true := by
  unfold paramPosition; split <;> rfl

/-- **The param macro replaces every form of a script by the accessor of the item the form
reads**, and copies the text around the forms.  Read as Lurk, each accessor is read back as
itself, up to the first character after it that cannot continue a symbol, and evaluates in
every environment to the item at the form's path of the list the form reads from. -/
theorem macroExpandParam_reads_params (pre : List Char) (items : List (ParamForm × List Char))
    (hpre : Plain pre) (hitems : ∀ it ∈ items, it.1.Valid ∧ Plain it.2) :
    macroExpandParam (script pre items) = .ok (expanded pre items) ∧
      ∀ f ∈ items.map Prod.fst,
        (∀ rest, (∀ c ∈ rest.head?, isSymbolChar c = false) →
          parse (f.accessor.print ++ rest) = some (f.accessor, rest)) ∧
        ∀ env, f.accessor.eval env = env f.path.1 >>= nthPath f.path.2 :=
  ⟨macroExpandParam_script pre items hpre hitems, fun f _ =>
    ⟨parse_print _ (by rw [accessor, base_ofPath]; cases f <;> exact isSymbol_paramPosition _),
      fun env => eval_ofPath env _ _⟩⟩

/-- `!(param priv-in 0 amount)`, the amount of the first input, is
`(car (car (car private-params)))`. -/
theorem macroExpandParam_reads_first_amount :
    Plain "(= ".toList ∧
      (∀ it ∈ [(ParamForm.indexed "priv-in".toList "0".toList 0 (some "amount".toList),
        " 5)".toList)], it.1.Valid ∧ Plain it.2) ∧
      macroExpandParam "(= !(param priv-in 0 amount) 5)".toList =
        .ok "(= (car (car (car private-params))) 5)".toList := by
  have hpre : Plain "(= ".toList := by decide
  have hitems : ∀ it ∈ [(ParamForm.indexed "priv-in".toList "0".toList 0 (some "amount".toList),
      " 5)".toList)], it.1.Valid ∧ Plain it.2 := by
    simp only [List.mem_singleton, forall_eq]
    exact ⟨⟨by decide, rfl, by decide, fun h => absurd h (by decide), fun s hs => by
      cases hs; decide⟩, by decide⟩
  exact ⟨hpre, hitems, (macroExpandParam_reads_params _ _ hpre hitems).1⟩

end Ilxd
