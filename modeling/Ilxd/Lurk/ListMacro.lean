import Ilxd.Lurk.Expansion

/-!
# The list macro

`macroExpandList` (`zk/lurk/macros/preprocessor.go`) rewrites each `!(list e₁ … eₙ)` form of a
script into the cons list `(cons e₁ (cons … (cons eₙ nil)))` that `buildConsList` writes, or
into `nil` where it reads no element.  A pass of its inner loop rewrites the forms it meets
from left to right and copies the rest; its outer loop,
`for strings.Contains(lurkProgram, "!(list")`, repeats the pass until no `!(list` is left.
An element that starts with a bracket is read by the parser's `ParseSExpr`, which is not in
the source: the model takes it as a parameter, and the results assume only `ReadsSExpr`, that
it reads a non-empty stretch of the text and returns that stretch.

* `listPass_shrinks` — a pass creates no `!(list`: each one in its output lies inside an element
  it copied, and the form it rewrote is gone, so a text that holds one loses one.
* `macroExpandList_terminates` — so the outer loop ends, after at most as many passes as the
  text has occurrences of `!(list`, with a text free of them.
* `macroExpandList_form` — a form of one or more words, `!(list a b)`, becomes
  `(cons a (cons b nil))`, the ASCII text around it kept.  The cursor skips seven bytes for
  the six of `!(list`, so the empty form `!(list)` loses its bracket: `!(list) a b)` becomes
  the same cons list.
-/

set_option autoImplicit false

namespace Ilxd

/-! ## Occurrences of a keyword -/

/-- `strings.Contains(s, substr)`. -/
def Contains (s substr : List Char) : Bool := s.tails.any substr.isPrefixOf

/-- The number of places where `kw` starts in `s`. -/
def occurrences (kw s : List Char) : Nat := s.tails.countP kw.isPrefixOf

/-- The occurrences of `kw` in each of the texts `es`, added up. -/
def occurrencesEach (kw : List Char) (es : List (List Char)) : Nat :=
  es.foldr (fun e n => occurrences kw e + n) 0

@[simp] theorem occurrencesEach_nil (kw : List Char) : occurrencesEach kw [] = 0 := rfl

@[simp] theorem occurrencesEach_cons (kw e : List Char) (es : List (List Char)) :
    occurrencesEach kw (e :: es) = occurrences kw e + occurrencesEach kw es := rfl

section Occurrences

variable {kw : List Char}

theorem occurrences_cons (kw : List Char) (c : Char) (s : List Char) :
    occurrences kw (c :: s) = occurrences kw s + if kw <+: c :: s then 1 else 0 := by
  simp [occurrences, List.countP_cons, List.isPrefixOf_iff_prefix]

theorem occurrences_nil (hkw : kw ≠ []) : occurrences kw [] = 0 := by
  simp [occurrences, List.isPrefixOf_iff_prefix, hkw]

theorem contains_iff (s : List Char) : Contains s kw = true ↔ 0 < occurrences kw s := by
  rw [Contains, occurrences, List.any_eq_true, List.countP_pos_iff]

/-- Two texts side by side hold at least the occurrences of each. -/
theorem occurrences_append_le (hkw : kw ≠ []) (x y : List Char) :
    occurrences kw x + occurrences kw y ≤ occurrences kw (x ++ y) := by
  induction x with
  | nil => simp [occurrences_nil hkw]
  | cons c x ih =>
    rw [List.cons_append, occurrences_cons, occurrences_cons]
    by_cases h : kw <+: c :: x
    · rw [if_pos h, if_pos (show kw <+: c :: (x ++ y) from h.trans (List.prefix_append _ y))]
      omega
    · rw [if_neg h]; split_ifs <;> omega

theorem occurrences_drop_le (hkw : kw ≠ []) (s : List Char) (n : Nat) :
    occurrences kw (s.drop n) ≤ occurrences kw s := by
  have := occurrences_append_le hkw (s.take n) (s.drop n)
  rw [List.take_append_drop] at this
  omega

/-- A keyword that starts before a byte it does not hold ends before it. -/
theorem prefix_of_prefix_append_cons {x y : List Char} {c : Char} (hc : c ∉ kw)
    (h : kw <+: x ++ c :: y) : kw <+: x := by
  by_cases hl : kw.length ≤ x.length
  · exact List.prefix_of_prefix_length_le h (List.prefix_append x _) hl
  · have heq := List.prefix_iff_eq_take.1 h
    obtain ⟨k, hk⟩ : ∃ k, kw.length - x.length = k + 1 := ⟨_, (Nat.succ_pred_eq_of_pos
      (by omega)).symm⟩
    rw [List.take_append_eq_append_take, List.take_of_length_le (by omega), hk,
      List.take_succ_cons] at heq
    exact absurd (heq ▸ List.mem_append_right x (List.mem_cons_self c _)) hc

/-- **No occurrence straddles a byte the keyword does not hold.** -/
theorem occurrences_append_cons (hkw : kw ≠ []) {c : Char} (hc : c ∉ kw) (x y : List Char) :
    occurrences kw (x ++ c :: y) = occurrences kw x + occurrences kw y := by
  induction x with
  | nil =>
    have : ¬ kw <+: c :: y := fun h =>
      hkw (List.prefix_nil.1 (prefix_of_prefix_append_cons (x := []) hc h))
    rw [List.nil_append, occurrences_cons, if_neg this, occurrences_nil hkw]; omega
  | cons a x ih =>
    have : kw <+: a :: (x ++ c :: y) ↔ kw <+: a :: x :=
      ⟨prefix_of_prefix_append_cons (x := a :: x) hc, fun h => h.trans (List.prefix_append _ _)⟩
    rw [List.cons_append, occurrences_cons, occurrences_cons, ih, if_congr this rfl rfl]
    omega

theorem occurrences_cons_of_not_mem (hkw : kw ≠ []) {c : Char} (hc : c ∉ kw) (y : List Char) :
    occurrences kw (c :: y) = occurrences kw y := by
  simpa [occurrences_nil hkw] using occurrences_append_cons hkw hc [] y

/-- A text without the keyword's first byte adds no occurrence before another. -/
theorem occurrences_append_of_not_mem (hkw : kw ≠ []) {x : List Char}
    (hx : ∀ a ∈ x, kw.head? ≠ some a) (y : List Char) :
    occurrences kw (x ++ y) = occurrences kw y := by
  induction x with
  | nil => rfl
  | cons a x ih =>
    have : ¬ kw <+: a :: (x ++ y) := fun h => by
      obtain _ | ⟨b, t⟩ := kw
      · exact hkw rfl
      · obtain ⟨rfl, -⟩ := List.cons_prefix_cons.1 h
        exact hx b (List.mem_cons_self b x) rfl
    rw [List.cons_append, occurrences_cons, if_neg this,
      ih fun b hb => hx b (List.mem_cons_of_mem a hb)]
    rfl

end Occurrences

/-! ## The macro -/

/-- `buildConsList`: `fmt.Sprintf("(cons %s nil)", …)` for the last element and
`fmt.Sprintf("(cons %s %s)", …)` for the others. -/
def buildConsList : List (List Char) → List Char
  | [] => "nil".toList
  | [e] => "(cons ".toList ++ e ++ " nil)".toList
  | e :: e' :: es => "(cons ".toList ++ e ++ ' ' :: (buildConsList (e' :: es) ++ [')'])

/-- What `p.ParseSExpr()`, which is not in the source, is assumed to do on a `(`: read a
non-empty stretch of the text, return it and leave the cursor after it. -/
def ReadsSExpr (ParseSExpr : Parser → List Char × Parser) : Prop :=
  ∀ p : Parser, p.Peek = '(' →
    ∃ n, 0 < n ∧ n ≤ p.rest.length ∧ ParseSExpr p = (p.rest.take n, p.skip n)

/-- A reader that meets `ReadsSExpr`: from the `(` under the cursor to the bracket that closes
it, or to the end of the text. -/
def bracketSExpr (p : Parser) : List Char × Parser :=
  let n := min (depthScan 1 (p.rest.drop 1) + 2) p.rest.length
  (p.rest.take n, p.skip n)

theorem readsSExpr_bracketSExpr : ReadsSExpr bracketSExpr := fun p hp => by
  have hne : p.rest ≠ [] := fun h => absurd (Parser.Peek_eq_zero_of_rest h ▸ hp) (by decide)
  exact ⟨_, Nat.lt_min.2 ⟨by omega, List.length_pos.2 hne⟩, min_le_right _ _, rfl⟩

section Macro

variable (ParseSExpr : Parser → List Char × Parser)

open Parser in
/-- One element of a list form: the spaces before it skipped, then an s-expression if it starts
with `(`, else the word up to a space or `)`. -/
def listElement (p : Parser) : Except Fault (List Char × Parser) :=
  let p := p.consumeWhile (· == ' ')
  if p.Peek = '(' then .ok (ParseSExpr p)
  else do
    let bodyStart := p.pos
    let p := p.consumeWhile (fun c => c != ' ' && c != ')')
    let body ← slice p.input bodyStart p.pos
    return (body, p)

/-- The element loop `for p.Peek() != ')' && p.Peek() != 0`, with the elements read so far;
`fuel` bounds its passes. -/
def listElements : Nat → Parser → List (List Char) → Except Fault (Parser × List (List Char))
  | 0, _, _ => .error .outOfFuel
  | fuel + 1, p, elements =>
    if p.Peek ≠ ')' ∧ p.Peek ≠ '\x00' then do
      let (body, p) ← listElement ParseSExpr p
      listElements fuel p (elements ++ [body])
    else .ok (p, elements)

open Parser in
/-- One pass of the loop of `macroExpandList`, with the text produced so far. -/
def listStep (p : Parser) (result : List Char) : Except Fault (Parser × List Char) :=
  if "!(list".toList.isPrefixOf p.rest then do
    let (p, elements) ← listElements ParseSExpr (p.rest.length + 1) (p.skip 7) []
    let p := (p.ReadUntil ')').2.Consume.2
    if elements.length > 0 then return (p, result ++ buildConsList elements)
    else return (p, result ++ "nil".toList)
  else
    let (c, p) := p.Consume
    return (p, result ++ [c])

/-- The inner loop of `macroExpandList` over the whole text: one pass. -/
def listPass (lurkProgram : List Char) : Except Fault (List Char) :=
  (NewParser lurkProgram).loop (listStep ParseSExpr) (lurkProgram.length + 1) []

/-- `macroExpandList`: a pass while the text holds `!(list`; `fuel` bounds the passes. -/
def macroExpandList : Nat → List Char → Except Fault (List Char)
  | 0, _ => .error .outOfFuel
  | fuel + 1, lurkProgram =>
    if Contains lurkProgram "!(list".toList then do
      let lurkProgram ← listPass ParseSExpr lurkProgram
      macroExpandList fuel lurkProgram
    else .ok lurkProgram

end Macro

example : macroExpandList bracketSExpr 2 "(f !(list 1 (g 2) x))".toList =
    .ok "(f (cons 1 (cons (g 2) (cons x nil))))".toList := by rfl

/-! ## The element loop -/

theorem listKw_ne_nil : "!(list".toList ≠ [] := by decide

theorem rest_cons_of_Peek {p : Parser} (h : p.Peek ≠ '\x00') : ∃ c cs, p.rest = c :: cs := by
  cases hr : p.rest with
  | nil => exact absurd (Parser.Peek_eq_zero_of_rest hr) h
  | cons c cs => exact ⟨c, cs, rfl⟩

theorem countWhile_le_length (f : Char → Bool) : ∀ cs : List Char, countWhile f cs ≤ cs.length
  | [] => le_rfl
  | c :: cs => by
    simp only [countWhile, List.length_cons]
    split_ifs
    · exact Nat.succ_le_succ (countWhile_le_length f cs)
    · exact Nat.zero_le _

section Elements

variable {ParseSExpr : Parser → List Char × Parser}

/-- **One element**: after `s` spaces, `m` bytes read as the element, with `s + m > 0` on
the loop's condition. -/
theorem listElement_spec (hparse : ReadsSExpr ParseSExpr) {p : Parser}
    (hp : p.Peek ≠ ')' ∧ p.Peek ≠ '\x00') :
    ∃ s m, listElement ParseSExpr p = .ok ((p.rest.drop s).take m, p.skip (s + m)) ∧
      s + m ≤ p.rest.length ∧ 0 < s + m := by
  obtain ⟨c, cs, hr⟩ := rest_cons_of_Peek hp.2
  have hc : p.Peek = c := Parser.Peek_of_rest hr
  have hpos := Parser.lt_length_of_Peek hp.2
  have hlen : p.rest.length = p.input.length - p.pos := by simp [Parser.rest]
  obtain ⟨s, hs⟩ : ∃ s, s = countWhile (· == ' ') p.rest := ⟨_, rfl⟩
  have hsl : s ≤ p.rest.length := hs ▸ countWhile_le_length _ _
  have hcw : p.consumeWhile (· == ' ') = p.skip s := by rw [hs]; rfl
  have hr₁ : (p.skip s).rest = p.rest.drop s := Parser.rest_skip p s
  by_cases hpar : (p.skip s).Peek = '('
  · obtain ⟨n, hn, hnl, he⟩ := hparse _ hpar
    rw [hr₁, List.length_drop] at hnl
    refine ⟨s, n, ?_, by omega, by omega⟩
    simp only [listElement, hcw, if_pos hpar, he, hr₁, Parser.skip_skip]
  · obtain ⟨m, hm⟩ : ∃ m, m = countWhile (fun c => c != ' ' && c != ')') (p.skip s).rest :=
      ⟨_, rfl⟩
    have hml : m ≤ (p.rest.drop s).length := hm ▸ hr₁ ▸ countWhile_le_length _ _
    rw [List.length_drop] at hml
    have hslice : slice p.input (p.pos + s) (p.pos + s + m) = .ok ((p.rest.drop s).take m) := by
      simpa [hr₁] using Parser.slice_take (p.skip s) (n := m) (by simp; omega)
        (by rw [hr₁, List.length_drop]; omega)
    have hcw₂ : (p.skip s).consumeWhile (fun c => c != ' ' && c != ')') = p.skip (s + m) := by
      rw [hm, ← Parser.skip_skip]; rfl
    refine ⟨s, m, ?_, by omega, ?_⟩
    · simp only [listElement, hcw, if_neg hpar, hcw₂, Parser.skip_input, Parser.skip_pos,
        ← Nat.add_assoc, hslice]
      rfl
    · rcases Nat.eq_zero_or_pos s with h0 | h0
      · have hsp : c ≠ ' ' := fun h => by
          rw [hr, h] at hs; simp [countWhile] at hs; omega
        have hrs : (p.skip s).rest = c :: cs := by rw [hr₁, h0, List.drop_zero, hr]
        have hpk : c ≠ '(' := fun h => hpar (by rw [Parser.Peek_of_rest hrs, h])
        have : 0 < m := by
          have hc1 : c ≠ ')' := hc ▸ hp.1
          have hc0 : c ≠ '\x00' := hc ▸ hp.2
          rw [hm, hrs]; simp [countWhile, hsp, hc0, hc1]
        omega
      · omega

/-- **The element loop** reads elements whose occurrences of `!(list`, with those left after
them, are no more than those where it started. -/
theorem listElements_spec (hparse : ReadsSExpr ParseSExpr) :
    ∀ (fuel : Nat) (p : Parser) (elements : List (List Char)), p.rest.length < fuel →
      ∃ j es, listElements ParseSExpr fuel p elements = .ok (p.skip j, elements ++ es) ∧
        occurrencesEach "!(list".toList es +
          occurrences "!(list".toList (p.rest.drop j) ≤ occurrences "!(list".toList p.rest
  | 0, _, _, h => absurd h (Nat.not_lt_zero _)
  | fuel + 1, p, elements, h => by
    by_cases hc : p.Peek ≠ ')' ∧ p.Peek ≠ '\x00'
    · obtain ⟨s, m, he, hle, hpos⟩ := listElement_spec hparse hc
      have hrest : (p.skip (s + m)).rest = p.rest.drop (s + m) := Parser.rest_skip _ _
      obtain ⟨j, es, hl, hocc⟩ := listElements_spec hparse fuel (p.skip (s + m))
        (elements ++ [(p.rest.drop s).take m]) (by rw [hrest, List.length_drop]; omega)
      refine ⟨s + m + j, (p.rest.drop s).take m :: es, ?_, ?_⟩
      · rw [listElements, if_pos hc, he]
        simpa [Parser.skip_skip] using hl
      · rw [hrest, List.drop_drop] at hocc
        have h1 := occurrences_drop_le listKw_ne_nil p.rest s
        have h2 := occurrences_append_le listKw_ne_nil ((p.rest.drop s).take m)
          ((p.rest.drop s).drop m)
        rw [List.take_append_drop, List.drop_drop] at h2
        simp only [occurrencesEach_cons]
        omega
    · refine ⟨0, [], ?_, by simp⟩
      simp only [listElements, if_neg hc, List.append_nil]
      rfl

end Elements

/-! ## What a pass writes -/

/-- Each proper suffix of `kw` that starts `out` starts `R`: the output of a pass begins with
the tail of a keyword only where its input does. -/
def StartsLike (kw out R : List Char) : Prop :=
  ∀ k, 0 < k → kw.drop k <+: out → kw.drop k <+: R

section StartsLike

variable {kw out R : List Char}

theorem StartsLike.nil : StartsLike kw [] R := fun k _ h => by
  rw [List.prefix_nil.1 h]; exact List.nil_prefix

theorem StartsLike.cons (h : StartsLike kw out R) (c : Char) :
    StartsLike kw (c :: out) (c :: R) := by
  intro k hk hp
  rcases List.prefix_cons_iff.1 hp with he | ⟨t, he, ht⟩
  · rw [he]; exact List.nil_prefix
  · have htail : kw.drop (k + 1) = t := by rw [← List.tail_drop, he]; rfl
    have := h (k + 1) (by omega) (by rw [htail]; exact ht)
    rw [htail] at this
    rw [he]; exact List.cons_prefix_cons.2 ⟨rfl, this⟩

/-- **A copied byte starts no keyword** that it did not start in the input. -/
theorem StartsLike.not_starts (h : StartsLike kw out R) {c : Char} (hR : ¬ kw <+: c :: R) :
    ¬ kw <+: c :: out := by
  intro hk
  obtain _ | ⟨a, t⟩ := kw
  · exact hR List.nil_prefix
  · obtain ⟨rfl, ht⟩ := List.cons_prefix_cons.1 hk
    exact hR (List.cons_prefix_cons.2 ⟨rfl, h 1 Nat.one_pos ht⟩)

theorem StartsLike.append (h : StartsLike kw out R) :
    ∀ pre : List Char, StartsLike kw (pre ++ out) (pre ++ R)
  | [] => h
  | c :: pre => (StartsLike.append h pre).cons c

theorem NoMatch.not_at_start {t : List Char} {n : Nat} (h : NoMatch kw t (n + 1)) :
    ¬ kw <+: t := fun hp => by
  have := h 0 (Nat.succ_pos n)
  rw [List.drop_zero, List.isPrefixOf_iff_prefix.2 hp] at this
  cases this

theorem NoMatch.tail {a : Char} {t : List Char} {n : Nat} (h : NoMatch kw (a :: t) (n + 1)) :
    NoMatch kw t n := fun k hk => h (k + 1) (by omega)

/-- Copied text in which no keyword starts adds no occurrence before an output that starts
like the input after it. -/
theorem occurrences_append_of_noMatch (hs : StartsLike kw out R) :
    ∀ {pre : List Char}, NoMatch kw (pre ++ R) pre.length →
      occurrences kw (pre ++ out) = occurrences kw out
  | [], _ => rfl
  | a :: pre, h => by
    rw [List.cons_append, occurrences_cons, if_neg ((hs.append pre).not_starts h.not_at_start),
      occurrences_append_of_noMatch hs h.tail]
    rfl

theorem occurrences_eq_zero_of_noMatch (hkw : kw ≠ []) :
    ∀ {s : List Char}, NoMatch kw s s.length → occurrences kw s = 0
  | [], _ => occurrences_nil hkw
  | c :: s, h => by
    rw [occurrences_cons, if_neg h.not_at_start, occurrences_eq_zero_of_noMatch hkw h.tail]

end StartsLike

/-- A cons list starts with `(cons ` or is `nil`, neither of which a tail of `!(list` starts. -/
theorem startsLike_buildConsList (es : List (List Char)) (out R : List Char) :
    StartsLike "!(list".toList (buildConsList es ++ out) R := by
  intro k hk hp
  obtain ⟨t, ht⟩ : ∃ t, buildConsList es ++ out = "(cons ".toList ++ t ∨
      buildConsList es ++ out = "nil".toList ++ t := by
    match es with
    | [] => exact ⟨out, .inr rfl⟩
    | [e] => exact ⟨e ++ " nil)".toList ++ out, .inl (by simp [buildConsList])⟩
    | e :: e' :: es =>
      exact ⟨e ++ ' ' :: (buildConsList (e' :: es) ++ [')']) ++ out,
        .inl (by simp [buildConsList])⟩
  by_cases h6 : 6 ≤ k
  · rw [List.drop_of_length_le (by simpa using h6)]; exact List.nil_prefix
  · exfalso
    rcases ht with ht | ht <;> rw [ht] at hp <;>
      rcases k with _ | _ | _ | _ | _ | _ | k <;> first | omega | simp at hp

theorem occurrences_cons_text : occurrences "!(list".toList "(cons".toList = 0 := by decide

/-- **A cons list holds the occurrences of its elements and no others.** -/
theorem occurrences_buildConsList : ∀ (es : List (List Char)) (out : List Char),
    occurrences "!(list".toList (buildConsList es ++ out) ≤
      occurrencesEach "!(list".toList es + occurrences "!(list".toList out
  | [], out => by
    rw [buildConsList, occurrences_append_of_not_mem listKw_ne_nil (by decide)]; simp
  | [e], out => by
    have h : buildConsList [e] ++ out =
        "(cons".toList ++ ' ' :: (e ++ ' ' :: ("nil".toList ++ ')' :: out)) := by
      simp only [buildConsList, List.append_assoc]; rfl
    rw [h, occurrences_append_cons listKw_ne_nil (by decide),
      occurrences_append_cons listKw_ne_nil (by decide),
      occurrences_append_of_not_mem listKw_ne_nil (by decide),
      occurrences_cons_of_not_mem listKw_ne_nil (by decide), occurrences_cons_text]
    simp
  | e :: e' :: es, out => by
    have h : buildConsList (e :: e' :: es) ++ out =
        "(cons".toList ++ ' ' :: (e ++ ' ' :: (buildConsList (e' :: es) ++ ')' :: out)) := by
      simp only [buildConsList, List.append_assoc, List.cons_append, List.singleton_append]; rfl
    have ih := occurrences_buildConsList (e' :: es) (')' :: out)
    rw [occurrences_cons_of_not_mem listKw_ne_nil (by decide)] at ih
    rw [h, occurrences_append_cons listKw_ne_nil (by decide),
      occurrences_append_cons listKw_ne_nil (by decide), occurrences_cons_text]
    simp only [occurrencesEach_cons] at ih ⊢
    omega

/-- A form starting the text holds one occurrence more than the text after its keyword. -/
theorem occurrences_drop_lt {R : List Char} (hkw : "!(list".toList <+: R) :
    occurrences "!(list".toList (R.drop 7) < occurrences "!(list".toList R := by
  obtain _ | ⟨c, R'⟩ := R
  · exact absurd (List.prefix_nil.1 hkw) listKw_ne_nil
  · rw [occurrences_cons, if_pos hkw]
    have := occurrences_drop_le listKw_ne_nil R' 6
    show occurrences _ (R'.drop 6) < _
    omega

theorem ReadUntil_Consume_skip (q : Parser) (ch : Char) :
    ∃ k, (q.ReadUntil ch).2.Consume.2 = q.skip k :=
  ⟨_, by rw [Parser.Consume_snd]; exact Parser.skip_skip q _ _⟩

section Pass

variable {ParseSExpr : Parser → List Char × Parser}

theorem listStep_consume (q : Parser) (result : List Char)
    (hq : "!(list".toList.isPrefixOf q.rest = false) (hpk : q.Peek ≠ '\x00') :
    listStep ParseSExpr q result = .ok (q.skip 1, result ++ [q.Peek]) := by
  rw [listStep, if_neg (by rw [hq]; decide), Parser.Consume_of_Peek hpk]; rfl

/-- **A list form** is replaced by the cons list of its elements, read from the text after
its keyword, and the pass goes on after the form's closing bracket. -/
theorem listStep_list (hparse : ReadsSExpr ParseSExpr) {p : Parser}
    (hkw : "!(list".toList <+: p.rest) (result : List Char) :
    ∃ j es, listStep ParseSExpr p result = .ok (p.skip j, result ++ buildConsList es) ∧ 7 ≤ j ∧
      occurrencesEach "!(list".toList es + occurrences "!(list".toList (p.rest.drop j) ≤
        occurrences "!(list".toList (p.rest.drop 7) := by
  obtain ⟨j, es, hl, hocc⟩ := listElements_spec hparse (p.rest.length + 1) (p.skip 7) []
    (by rw [Parser.rest_skip, List.length_drop]; omega)
  obtain ⟨k, hk⟩ := ReadUntil_Consume_skip ((p.skip 7).skip j) ')'
  refine ⟨7 + (j + k), es, ?_, by omega, ?_⟩
  · rw [listStep, if_pos (List.isPrefixOf_iff_prefix.2 hkw), hl]
    dsimp only [bind, Except.bind]
    rw [hk, Parser.skip_skip, Parser.skip_skip, List.nil_append]
    split_ifs with hes
    · rfl
    · obtain rfl : es = [] := List.length_eq_zero.1 (by omega)
      rfl
  · rw [Parser.rest_skip, List.drop_drop] at hocc
    have := occurrences_drop_le listKw_ne_nil (p.rest.drop (7 + j)) k
    rw [List.drop_drop, Nat.add_assoc] at this
    omega

/-- **A pass, from any cursor**: it finishes, and its output holds fewer occurrences of
`!(list` than the text it read, or none. -/
theorem listPass_loop (hparse : ReadsSExpr ParseSExpr) :
    ∀ (n : Nat) (p : Parser) (result : List Char), p.input.length - p.pos < n →
      ∃ out, p.loop (listStep ParseSExpr) n result = .ok (result ++ out) ∧
        (occurrences "!(list".toList out < occurrences "!(list".toList p.rest ∨
          occurrences "!(list".toList out = 0) ∧ StartsLike "!(list".toList out p.rest
  | 0, _, _, h => absurd h (Nat.not_lt_zero _)
  | n + 1, p, result, h => by
    by_cases hp : p.Peek = '\x00'
    · exact ⟨[], by simp [Parser.loop, hp], .inr (occurrences_nil listKw_ne_nil), .nil⟩
    have hpos := Parser.lt_length_of_Peek hp
    obtain ⟨c, cs, hr⟩ := rest_cons_of_Peek hp
    by_cases hkw : "!(list".toList <+: p.rest
    · obtain ⟨j, es, hstep, hj, hocc⟩ := listStep_list hparse hkw result
      obtain ⟨out, hl, hsh, -⟩ := listPass_loop hparse n (p.skip j) (result ++ buildConsList es)
        (by simp; omega)
      refine ⟨buildConsList es ++ out, by rw [Parser.loop_step _ _ hp hstep, hl,
        List.append_assoc], .inl ?_, startsLike_buildConsList es out _⟩
      have h1 := occurrences_buildConsList es out
      have h2 := occurrences_drop_lt hkw
      rw [Parser.rest_skip] at hsh
      omega
    · obtain ⟨out, hl, hsh, hst⟩ := listPass_loop hparse n (p.skip 1) (result ++ [c])
        (by simp; omega)
      have hr1 : (p.skip 1).rest = cs := by rw [Parser.rest_skip, hr]; rfl
      rw [hr1] at hsh hst
      have hstep := @listStep_consume ParseSExpr p result
        (by rw [← Bool.not_eq_true, List.isPrefixOf_iff_prefix]; exact hkw) hp
      rw [Parser.Peek_of_rest hr] at hstep
      refine ⟨c :: out, by rw [Parser.loop_step _ _ hp hstep, hl]; simp, ?_, hr ▸ hst.cons c⟩
      rw [hr] at hkw ⊢
      rw [occurrences_cons, occurrences_cons, if_neg hkw, if_neg (hst.not_starts hkw)]
      simpa using hsh

/-- **A pass lowers the number of `!(list` in a text that holds one.** -/
theorem listPass_shrinks (hparse : ReadsSExpr ParseSExpr) (lurkProgram : List Char) :
    ∃ out, listPass ParseSExpr lurkProgram = .ok out ∧
      (occurrences "!(list".toList out < occurrences "!(list".toList lurkProgram ∨
        occurrences "!(list".toList out = 0) := by
  obtain ⟨out, hl, hsh, -⟩ := listPass_loop hparse (lurkProgram.length + 1)
    (NewParser lurkProgram) [] (by simp [NewParser])
  exact ⟨out, hl, hsh⟩

/-- **`macroExpandList` terminates**: for every text, every fuel above its number of
occurrences of `!(list` gives the same result, and that result holds no `!(list`. -/
theorem macroExpandList_terminates (hparse : ReadsSExpr ParseSExpr) (lurkProgram : List Char) :
    ∃ out, Contains out "!(list".toList = false ∧
      ∀ fuel, occurrences "!(list".toList lurkProgram < fuel →
        macroExpandList ParseSExpr fuel lurkProgram = .ok out := by
  suffices ∀ m (t : List Char), occurrences "!(list".toList t = m → ∃ out,
      Contains out "!(list".toList = false ∧ ∀ fuel, m < fuel →
        macroExpandList ParseSExpr fuel t = .ok out from this _ lurkProgram rfl
  intro m
  induction m using Nat.strong_induction_on with
  | _ m ih =>
    intro t ht
    by_cases hc : Contains t "!(list".toList = true
    · obtain ⟨t', hpass, hsh⟩ := listPass_shrinks hparse t
      have hpos := (contains_iff t).1 hc
      obtain ⟨out, hout, hfuel⟩ := ih _ (by omega) t' rfl
      refine ⟨out, hout, fun fuel hf => ?_⟩
      obtain ⟨f, rfl⟩ : ∃ f, fuel = f + 1 := ⟨fuel - 1, by omega⟩
      rw [macroExpandList, if_pos hc, hpass]
      exact hfuel f (by omega)
    · refine ⟨t, by simpa using hc, fun fuel hf => ?_⟩
      obtain ⟨f, rfl⟩ : ∃ f, fuel = f + 1 := ⟨fuel - 1, by omega⟩
      rw [macroExpandList, if_neg hc]

end Pass

theorem nestedList_expands :
    ReadsSExpr bracketSExpr ∧ ∃ out, Contains out "!(list".toList = false ∧
      ∀ fuel, occurrences "!(list".toList "(f !(list 1 !(list 2 3)))".toList < fuel →
        macroExpandList bracketSExpr fuel "(f !(list 1 !(list 2 3)))".toList = .ok out :=
  ⟨readsSExpr_bracketSExpr, macroExpandList_terminates readsSExpr_bracketSExpr _⟩

/-! ## A list form of words -/

/-- A word element of a list form: not empty, not starting with `(`, without a space, `)` or
zero byte, and holding no `!(list`. -/
def ListWord (e : List Char) : Prop :=
  e ≠ [] ∧ e.head? ≠ some '(' ∧ (∀ c ∈ e, c ≠ ' ' ∧ c ≠ ')' ∧ c ≠ '\x00') ∧
    occurrences "!(list".toList e = 0

theorem occurrencesEach_words : ∀ {ws : List (List Char)}, (∀ w ∈ ws, ListWord w) →
    occurrencesEach "!(list".toList ws = 0
  | [], _ => rfl
  | w :: ws, h => by
    rw [occurrencesEach_cons, (h w (List.mem_cons_self w ws)).2.2.2,
      occurrencesEach_words fun x hx => h x (List.mem_cons_of_mem w hx)]

/-- `!(list`, the byte `c`, `k` spaces, the words `e :: es`, each after the first preceded by a
space, and `)`: the form `!(list e …)` when `c` is a space and `k = 0`. -/
def listForm (c : Char) (k : Nat) (e : List Char) (es : List (List Char)) : List Char :=
  "!(list".toList ++ c :: (List.replicate k ' ' ++ e ++ es.flatMap (' ' :: ·) ++ [')'])

section Words

variable {ParseSExpr : Parser → List Char × Parser}

theorem Peek_of_word {p : Parser} {k : Nat} {e rest : List Char}
    (hp : p.rest = List.replicate k ' ' ++ e ++ rest) (he : ListWord e) :
    p.Peek ≠ ')' ∧ p.Peek ≠ '\x00' := by
  obtain ⟨x, xs, rfl⟩ := List.exists_cons_of_ne_nil he.1
  have hx := he.2.2.1 x (List.mem_cons_self x xs)
  cases k with
  | zero =>
    rw [Parser.Peek_of_rest (show p.rest = x :: (xs ++ rest) by simp [hp])]
    exact ⟨hx.2.1, hx.2.2⟩
  | succ k =>
    rw [Parser.Peek_of_rest (show p.rest = ' ' :: (List.replicate k ' ' ++ x :: xs ++ rest) by
      rw [hp, List.replicate_succ]; rfl)]
    decide

/-- **A word element** is read after the spaces before it, up to the space or `)` after it. -/
theorem listElement_word {p : Parser} {k : Nat} {e more : List Char} {c : Char}
    (hp : p.rest = List.replicate k ' ' ++ e ++ c :: more) (he : ListWord e)
    (hc : c = ' ' ∨ c = ')') :
    listElement ParseSExpr p = .ok (e, p.skip (k + e.length)) := by
  obtain ⟨x, xs, rfl⟩ := List.exists_cons_of_ne_nil he.1
  have hx := he.2.2.1 x (List.mem_cons_self x xs)
  have hsp : p.consumeWhile (· == ' ') = p.skip k := by
    have := Parser.consumeWhile_of_rest (f := (· == ' '))
      (show p.rest = List.replicate k ' ' ++ x :: (xs ++ c :: more) by rw [hp]; simp)
      (fun y hy => by rw [List.eq_of_mem_replicate hy]; decide) (.inr (by simpa using hx.1))
    rwa [List.length_replicate] at this
  have hk : (p.skip k).rest = (x :: xs) ++ c :: more := by
    rw [Parser.rest_skip, hp, List.append_assoc, List.drop_left' (List.length_replicate _ _)]
  have hpk : (p.skip k).Peek ≠ '(' := by
    rw [Parser.Peek_of_rest hk]; exact fun h => he.2.1 (by rw [h]; rfl)
  obtain ⟨hw, hs⟩ := Parser.read_word (f := fun c => c != ' ' && c != ')') hk
    (fun y hy => ⟨(he.2.2.1 y hy).2.2, by simp [(he.2.2.1 y hy).1, (he.2.2.1 y hy).2.1]⟩)
    (.inr (by rcases hc with rfl | rfl <;> rfl))
  simp only [Parser.skip_input, Parser.skip_pos, Nat.add_assoc] at hs
  simp only [listElement, hsp, if_neg hpk, hw, Parser.skip_input, Parser.skip_pos,
    Parser.skip_skip, hs]
  rfl

/-- **The element loop over words** reads them all and stops on the closing bracket. -/
theorem listElements_words : ∀ (es : List (List Char)) (k fuel : Nat) (p : Parser)
    (e more : List Char) (acc : List (List Char)), ListWord e → (∀ e' ∈ es, ListWord e') →
    p.rest.length < fuel →
    p.rest = List.replicate k ' ' ++ e ++ es.flatMap (' ' :: ·) ++ ')' :: more →
    listElements ParseSExpr fuel p acc =
      .ok (p.skip (k + e.length + (es.flatMap (' ' :: ·)).length), acc ++ e :: es)
  | [], k, fuel, p, e, more, acc, he, _, hfuel, hp => by
    have hp' : p.rest = List.replicate k ' ' ++ e ++ ')' :: more := by simpa using hp
    have hl : 2 ≤ p.rest.length := by
      rw [hp']; have := List.length_pos.2 he.1; simp; omega
    obtain ⟨f, rfl⟩ : ∃ f, fuel = f + 2 := ⟨fuel - 2, by omega⟩
    have hclose : (p.skip (k + e.length)).rest = ')' :: more := by
      rw [Parser.rest_skip, hp', List.append_assoc, List.drop_append_eq_append_drop]; simp
    rw [listElements, if_pos (Peek_of_word (hp.trans (List.append_assoc _ _ _)) he),
      listElement_word hp' he (.inr rfl)]
    dsimp only [bind, Except.bind]
    rw [listElements, if_neg (by rw [Parser.Peek_of_rest hclose]; simp)]
    simp
  | e' :: es, k, fuel, p, e, more, acc, he, hes, hfuel, hp => by
    have hp' : p.rest = List.replicate k ' ' ++ e ++ ' ' ::
        (e' ++ es.flatMap (' ' :: ·) ++ ')' :: more) := by simpa using hp
    obtain ⟨f, rfl⟩ : ∃ f, fuel = f + 1 := ⟨fuel - 1, by omega⟩
    have hnext : (p.skip (k + e.length)).rest =
        List.replicate 1 ' ' ++ e' ++ es.flatMap (' ' :: ·) ++ ')' :: more := by
      rw [Parser.rest_skip, hp', List.append_assoc, List.drop_append_eq_append_drop]; simp
    have hlen : (p.skip (k + e.length)).rest.length < f := by
      have := List.length_pos.2 he.1
      have hrl : k + e.length < p.rest.length := by rw [hp']; simp
      rw [Parser.rest_skip, List.length_drop]; omega
    rw [listElements, if_pos (Peek_of_word (hp.trans (List.append_assoc _ _ _)) he),
      listElement_word hp' he (.inl rfl)]
    dsimp only [bind, Except.bind]
    rw [listElements_words es 1 f _ e' more _ (hes e' (List.mem_cons_self e' es))
      (fun x hx => hes x (List.mem_cons_of_mem e' hx)) hlen hnext, Parser.skip_skip]
    simp only [List.flatMap_cons, List.length_append, List.length_cons, List.append_assoc,
      List.singleton_append]
    congr 3
    omega

/-- **A list form of words** is replaced by their cons list, whatever byte follows `!(list`. -/
theorem listStep_form {p : Parser} {c : Char} {k : Nat} {e post : List Char}
    {es : List (List Char)} (hp : p.rest = listForm c k e es ++ post) (he : ListWord e)
    (hes : ∀ e' ∈ es, ListWord e') (result : List Char) :
    listStep ParseSExpr p result =
      .ok (p.skip (listForm c k e es).length, result ++ buildConsList (e :: es)) := by
  have hkw : "!(list".toList.isPrefixOf p.rest = true := by
    rw [hp, listForm, List.isPrefixOf_iff_prefix, List.append_assoc]
    exact List.prefix_append _ _
  have h7 : (p.skip 7).rest =
      List.replicate k ' ' ++ e ++ es.flatMap (' ' :: ·) ++ ')' :: post := by
    rw [Parser.rest_skip, hp, listForm]; simp
  have hlen : (p.skip 7).rest.length < p.rest.length + 1 := by
    rw [Parser.rest_skip, List.length_drop]; omega
  have hclose : ((p.skip 7).skip (k + e.length + (es.flatMap (' ' :: ·)).length)).rest =
      ')' :: post := by
    rw [Parser.rest_skip, h7, List.drop_left' (by simp; omega)]
  have hL : (listForm c k e es).length =
      7 + (k + e.length + (es.flatMap (' ' :: ·)).length) + 1 := by
    simp [listForm]; omega
  rw [listStep, if_pos hkw, listElements_words es k _ _ e post [] he hes hlen h7]
  dsimp only [bind, Except.bind]
  rw [Parser.ReadUntil_Consume_of_rest hclose, Parser.skip_skip, Parser.skip_skip, hL,
    if_pos (by simp)]
  rfl

/-- A pass over a list form of words, with text around it in which no `!(list` starts. -/
theorem listPass_form {pre post : List Char} (c : Char) (k : Nat) {e : List Char}
    {es : List (List Char)} (he : ListWord e) (hes : ∀ e' ∈ es, ListWord e')
    (hpre : NoMatch "!(list".toList (pre ++ listForm c k e es ++ post) pre.length)
    (h0pre : '\x00' ∉ pre) (hpost : NoMatch "!(list".toList post post.length)
    (h0post : '\x00' ∉ post) :
    listPass ParseSExpr (pre ++ listForm c k e es ++ post) =
      .ok (pre ++ buildConsList (e :: es) ++ post) := by
  have hlen : (pre ++ listForm c k e es ++ post).length + 1 =
      (((listForm c k e es).length + post.length) + 1) + pre.length := by simp; omega
  set p := NewParser (pre ++ listForm c k e es ++ post)
  have hp : (p.skip pre.length).rest = listForm c k e es ++ post := by
    simp [p, NewParser, Parser.rest]
  have hq : ((p.skip pre.length).skip (listForm c k e es).length).rest = post := by
    rw [Parser.rest_skip, hp, List.drop_left]
  have hpk : (p.skip pre.length).Peek ≠ '\x00' := by
    rw [Parser.Peek, hp]; exact (show ('!' : Char) ≠ '\x00' by decide)
  rw [listPass, hlen,
    Parser.loop_noMatch _ (f := fun r c => r ++ [c]) (fun q s => listStep_consume q s) p pre
      (listForm c k e es ++ post) _ [] (by simp [p, NewParser, Parser.rest]) hpre h0pre,
    foldl_snoc, List.nil_append, Parser.loop_step _ _ hpk (listStep_form hp he hes pre),
    Parser.loop_noMatch _ (f := fun r c => r ++ [c]) (fun q s => listStep_consume q s) _ post []
      _ _ (by rw [hq, List.append_nil]) (by rw [hq]; exact hpost) h0post,
    Parser.loop_end _ (by simp [listForm]) (by rw [Parser.rest_skip, hq, List.drop_length]),
    foldl_snoc]

/-- **A list form of words becomes the cons list of its words**, with the text around it, in
which no `!(list` starts, left as it is, after two passes of the outer loop.  The byte after
`!(list` is skipped whatever it is: `!(list a b)` becomes `(cons a (cons b nil))`, and so does
`!(list) a b)`, an empty form taking in the words after it and the next closing bracket. -/
theorem macroExpandList_form {pre post : List Char} (c : Char) (k : Nat) {e : List Char}
    {es : List (List Char)} (he : ListWord e) (hes : ∀ e' ∈ es, ListWord e')
    (hpre : NoMatch "!(list".toList (pre ++ listForm c k e es ++ post) pre.length)
    (h0pre : Verbatim pre) (hpost : NoMatch "!(list".toList post post.length)
    (h0post : Verbatim post) (fuel : Nat) (hfuel : 2 ≤ fuel) :
    macroExpandList ParseSExpr fuel (pre ++ listForm c k e es ++ post) =
      .ok (pre ++ buildConsList (e :: es) ++ post) := by
  obtain ⟨f, rfl⟩ : ∃ f, fuel = f + 2 := ⟨fuel - 2, by omega⟩
  have hin : Contains (pre ++ listForm c k e es ++ post) "!(list".toList = true := by
    rw [contains_iff, List.append_assoc]
    have h1 := occurrences_append_le listKw_ne_nil pre (listForm c k e es ++ post)
    have h2 := occurrences_drop_lt (R := listForm c k e es ++ post)
      (by rw [listForm, List.append_assoc, List.append_assoc]; exact List.prefix_append _ _)
    omega
  have hout : occurrences "!(list".toList (pre ++ buildConsList (e :: es) ++ post) = 0 := by
    rw [List.append_assoc] at hpre ⊢
    rw [occurrences_append_of_noMatch (startsLike_buildConsList _ post _) hpre]
    have h1 := occurrences_buildConsList (e :: es) post
    have h2 := occurrences_eq_zero_of_noMatch listKw_ne_nil hpost
    have h3 := occurrencesEach_words fun w hw => (List.mem_cons.1 hw).elim (· ▸ he) (hes w)
    omega
  rw [macroExpandList, if_pos hin, listPass_form c k he hes hpre h0pre.1 hpost h0post.1]
  show macroExpandList ParseSExpr (f + 1) _ = _
  rw [macroExpandList, if_neg (by rw [contains_iff, hout]; decide)]

end Words

theorem emptyList_takes_words :
    (ListWord "x".toList ∧ (∀ e' ∈ ([] : List (List Char)), ListWord e') ∧
      NoMatch "!(list".toList ("(f ".toList ++ listForm ')' 1 "x".toList [] ++ [])
        "(f ".toList.length ∧ Verbatim "(f ".toList ∧
      NoMatch "!(list".toList ([] : List Char) ([] : List Char).length ∧
      Verbatim ([] : List Char) ∧ 2 ≤ 2) ∧
    macroExpandList bracketSExpr 2 ("(f ".toList ++ listForm ')' 1 "x".toList [] ++ []) =
      .ok ("(f ".toList ++ buildConsList ["x".toList] ++ []) := by
  have hw : ListWord "x".toList := ⟨by decide, by decide, by decide, by decide⟩
  have hes : ∀ e' ∈ ([] : List (List Char)), ListWord e' := fun _ h => absurd h (List.not_mem_nil _)
  have hpre : NoMatch "!(list".toList ("(f ".toList ++ listForm ')' 1 "x".toList [] ++ [])
      "(f ".toList.length := by unfold NoMatch; decide
  exact ⟨⟨hw, hes, hpre, by decide, NoMatch.nil _ _, by decide, le_rfl⟩,
    macroExpandList_form ')' 1 hw hes hpre (by decide) (NoMatch.nil _ _) (by decide) 2 le_rfl⟩

example : "(f ".toList ++ listForm ')' 1 "x".toList [] ++ [] = "(f !(list) x)".toList := rfl

end Ilxd
