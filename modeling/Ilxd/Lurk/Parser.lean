import Mathlib.Data.List.Basic

/-!
# The byte cursor of the Lurk macro preprocessor

The import preprocessor (`zk/lurk/macros/preprocessor.go`) walks its text with a `Parser`: a
string and a read position, with `Peek`, `Consume` and `ReadUntil`.  Every loop of
`extractModule`, `extractModuleExpression` and `macroExpandImport` has the shape
`for p.Peek() != 0 { … }`, with a body that may jump the cursor forward (`p.pos += 9`) and
slice the text (`p.input[a:b]`, a panic unless `a ≤ b ≤ len`).

The `Parser` type and its methods are not in src/: `Parser`, `NewParser`, `Peek`, `Consume`
and `ReadUntil` below are assumptions of the model, a byte cursor whose `Peek` is `0` at or
past the end, as the preprocessor's own loops and offsets use it.  A `Char` of the model
stands for one byte.  The macros copy text with `string(p.Consume())`, which writes a byte of
`0x80` or more back as two, so the results that describe copied text are stated for ASCII
text (`Verbatim`), where the model copies as the code does.

* `Parser.loop` — the loop, with a body `step` threading its own state, and fuel.
* `Parser.loop_error` — a loop whose body moves the cursor forward fails only as its body
  does: the `len - pos + 1` passes the model gives it never run out.
* `Parser.loop_consume`, `Parser.loop_noMatch` — over a stretch on which the body only
  consumes one byte (no keyword of the loop starts there), the loop folds the bytes into its
  state.
* `Parser.loop_congr` — fuel only decides whether a loop finishes, never its result.
* `depthScan_append` — the bracket loop of the extractors stops exactly at the `)` that closes
  a balanced text.
-/

set_option autoImplicit false

namespace Ilxd

/-- The ways a call of the preprocessor fails: a Go runtime panic (a slice index out of
range), an error value with its text, the error of a file-system call, or, in the model
only, a recursion that ran out of fuel. -/
inductive Fault
  | panic
  | error (msg : String)
  | pathError (op path : String)
  | outOfFuel
  deriving DecidableEq, Repr

theorem bind_eq_ok {α β : Type} {x : Except Fault α} {f : α → Except Fault β} {b : β}
    (h : x >>= f = .ok b) : ∃ a, x = .ok a ∧ f a = .ok b := by
  cases x with
  | error e => cases h
  | ok a => exact ⟨a, rfl, h⟩

/-- A bind fails only as one of its two parts does. -/
theorem bind_fault {α β : Type} {E : Fault → Prop} {x : Except Fault α}
    {f : α → Except Fault β} {e : Fault} (hx : ∀ e, x = .error e → E e)
    (hf : ∀ a, x = .ok a → ∀ e, f a = .error e → E e) (h : x >>= f = .error e) : E e := by
  cases hxe : x with
  | error e' => rw [hxe] at h; cases h; exact hx _ hxe
  | ok a => rw [hxe] at h; exact hf a hxe e h

/-- Not in src/, assumed: the byte cursor `Parser` of the macros package over the text
`input`, read at `pos`. -/
structure Parser where
  input : List Char
  pos : Nat
  deriving DecidableEq, Repr

/-- Not in src/, assumed: a cursor at the start of `input`. -/
def NewParser (input : List Char) : Parser := ⟨input, 0⟩

/-- Go's `s[lo:hi]`, which panics unless `lo ≤ hi ≤ len(s)`. -/
def slice (s : List Char) (lo hi : Nat) : Except Fault (List Char) :=
  if lo ≤ hi ∧ hi ≤ s.length then .ok ((s.drop lo).take (hi - lo)) else .error .panic

/-- Text of ASCII bytes only, which `string(p.Consume())` writes back unchanged. -/
def Ascii (t : List Char) : Prop := ∀ c ∈ t, c.toNat < 128

instance : DecidablePred Ascii := fun _ => inferInstanceAs (Decidable (∀ c ∈ _, _))

/-- Text a loop copies as it stands: no zero byte, which ends every loop, and ASCII only. -/
def Verbatim (t : List Char) : Prop := '\x00' ∉ t ∧ Ascii t

instance : DecidablePred Verbatim := fun _ => inferInstanceAs (Decidable (_ ∧ _))

/-- The length of the longest prefix of `cs` of nonzero bytes that satisfy `f`. -/
def countWhile (f : Char → Bool) : List Char → Nat
  | [] => 0
  | c :: cs => if c ≠ '\x00' ∧ f c = true then countWhile f cs + 1 else 0

/-- The bracket loop of the extractors, `for depth > 0 && p.Peek() != 0 { … }`, from
`depth` open brackets over `cs`: the number of bytes it consumes.  It counts `(` up and `)`
down and stops, without consuming it, on the `)` that brings the count to zero. -/
def depthScan (depth : Nat) : List Char → Nat
  | [] => 0
  | c :: cs =>
    if c = '\x00' then 0 else
      let depth := if c = '(' then depth + 1 else if c = ')' then depth - 1 else depth
      if depth > 0 then depthScan depth cs + 1 else 0

namespace Parser

/-- The text from the cursor on, `p.input[p.pos:]`. -/
def rest (p : Parser) : List Char := p.input.drop p.pos

/-- Not in src/, assumed: `Peek`, the byte under the cursor, `0` at or past the end. -/
def Peek (p : Parser) : Char := p.rest.headD '\x00'

/-- Not in src/, assumed: `Consume`, the byte under the cursor and the cursor moved past it;
at or past the end `0`, and the cursor stays. -/
def Consume (p : Parser) : Char × Parser :=
  match p.rest with
  | [] => ('\x00', p)
  | c :: _ => (c, ⟨p.input, p.pos + 1⟩)

/-- `p.pos += n`. -/
def skip (p : Parser) (n : Nat) : Parser := ⟨p.input, p.pos + n⟩

/-- `for f(p.Peek()) && p.Peek() != 0 { p.Consume() }`. -/
def consumeWhile (p : Parser) (f : Char → Bool) : Parser := p.skip (countWhile f p.rest)

/-- Not in src/, assumed: `ReadUntil(ch)`, the text up to the next `ch` (or the end), with the
cursor left on `ch`. -/
def ReadUntil (p : Parser) (ch : Char) : List Char × Parser :=
  (p.rest.take (countWhile (· != ch) p.rest), p.consumeWhile (· != ch))

/-- The bracket loop run with one bracket open (`depth := 1`). -/
def scanDepth (p : Parser) : Parser := p.skip (depthScan 1 p.rest)

/-- `for p.Peek() != 0 { body }`, with the body `step` threading the loop's state; `fuel`
bounds the passes (`loop_error`: for a body that advances, `len - pos + 1` of them never run
out). -/
def loop {σ : Type} (step : Parser → σ → Except Fault (Parser × σ)) :
    Nat → Parser → σ → Except Fault σ
  | 0, _, _ => .error .outOfFuel
  | fuel + 1, p, s =>
    if p.Peek = '\x00' then .ok s else
      match step p s with
      | .error e => .error e
      | .ok (p', s') => loop step fuel p' s'

/-! ## The cursor -/

@[simp] theorem skip_input (p : Parser) (n : Nat) : (p.skip n).input = p.input := rfl

@[simp] theorem skip_pos (p : Parser) (n : Nat) : (p.skip n).pos = p.pos + n := rfl

@[simp] theorem rest_skip (p : Parser) (n : Nat) : (p.skip n).rest = p.rest.drop n := by
  simp [rest, skip, List.drop_drop, Nat.add_comm]

theorem skip_skip (p : Parser) (m n : Nat) : (p.skip m).skip n = p.skip (m + n) := by
  simp [skip, Nat.add_assoc]

theorem Peek_of_rest {p : Parser} {c : Char} {cs : List Char} (h : p.rest = c :: cs) :
    p.Peek = c := by
  simp [Peek, h]

theorem Consume_of_rest {p : Parser} {c : Char} {cs : List Char} (h : p.rest = c :: cs) :
    p.Consume = (c, p.skip 1) := by
  simp [Consume, h, skip]

theorem Peek_eq_zero_of_rest {p : Parser} (h : p.rest = []) : p.Peek = '\x00' := by
  simp [Peek, h]

theorem lt_length_of_Peek {p : Parser} (h : p.Peek ≠ '\x00') : p.pos < p.input.length := by
  by_contra hn
  exact h (Peek_eq_zero_of_rest (List.drop_eq_nil_of_le (Nat.le_of_not_lt hn)))

end Parser

/-! ## The scanning loops -/

theorem countWhile_append {f : Char → Bool} {c : Char} (rest : List Char) :
    ∀ {cs : List Char}, (∀ x ∈ cs, x ≠ '\x00' ∧ f x = true) → (c = '\x00' ∨ f c = false) →
      countWhile f (cs ++ c :: rest) = cs.length
  | [], _, hc => by rcases hc with hc | hc <;> simp [countWhile, hc]
  | x :: cs, hx, hc => by
    have := hx x (List.mem_cons_self x cs)
    simp [countWhile, this,
      countWhile_append rest (fun y hy => hx y (List.mem_cons_of_mem x hy)) hc]

/-- Starting with `d` brackets open, the number still open after `cs`, or `none` if `cs`
closes one that is not open. -/
def openAfter : Nat → List Char → Option Nat
  | d, [] => some d
  | d, c :: cs =>
    if c = '(' then openAfter (d + 1) cs
    else if c = ')' then (if d = 0 then none else openAfter (d - 1) cs)
    else openAfter d cs

/-- A text whose brackets match: it closes none it did not open and leaves none open. -/
def Balanced (cs : List Char) : Prop := openAfter 0 cs = some 0

instance (cs : List Char) : Decidable (Balanced cs) := inferInstanceAs (Decidable (_ = _))

/-- More brackets open before a text leave as many more open after it. -/
theorem openAfter_add {cs : List Char} {d e : Nat} (h : openAfter d cs = some e) (k : Nat) :
    openAfter (d + k) cs = some (e + k) := by
  induction cs generalizing d with
  | nil => cases h; rfl
  | cons c cs ih =>
    simp only [openAfter] at h ⊢
    split_ifs at h ⊢ with h1 h2 h3 h4
    · rw [Nat.add_right_comm]; exact ih h
    all_goals first
      | exact ih h
      | (rw [show d + k - 1 = d - 1 + k by omega]; exact ih h)
      | omega

/-- **The bracket loop reads a bracket-matched stretch whole.** -/
theorem depthScan_append (rest : List Char) :
    ∀ {cs : List Char} {d e : Nat}, openAfter d cs = some e → '\x00' ∉ cs →
      depthScan (d + 1) (cs ++ rest) = cs.length + depthScan (e + 1) rest
  | [], d, e, h, _ => by cases h; simp
  | c :: cs, d, e, h, h0 => by
    have hc : c ≠ '\x00' := fun hc => h0 (hc ▸ List.mem_cons_self c cs)
    have h0' : '\x00' ∉ cs := fun hm => h0 (List.mem_cons_of_mem c hm)
    have step : ∀ d', openAfter d' cs = some e → depthScan (d' + 1) (cs ++ rest) + 1 =
        (c :: cs).length + depthScan (e + 1) rest := fun d' h' => by
      rw [depthScan_append rest h' h0', List.length_cons]; omega
    rw [List.cons_append, depthScan, if_neg hc]
    simp only [openAfter] at h
    split_ifs at h with h1 h2 h3
    · rw [if_pos h1, if_pos (by omega)]; exact step _ h
    · rw [if_neg h1, if_pos h2, if_pos (by omega), show d + 1 - 1 = d - 1 + 1 by omega]
      exact step _ h
    · rw [if_neg h1, if_neg h2, if_pos (by omega)]; exact step _ h

theorem depthScan_close (rest : List Char) : depthScan 1 (')' :: rest) = 0 := by
  simp [depthScan]

/-- **The bracket loop stops on the `)` that closes a balanced text.** -/
theorem depthScan_balanced {cs : List Char} (rest : List Char) (hb : Balanced cs)
    (h0 : '\x00' ∉ cs) : depthScan 1 (cs ++ ')' :: rest) = cs.length := by
  rw [depthScan_append _ hb h0, depthScan_close]; rfl

/-- No occurrence of `kw` starts in the first `n` bytes of `t`. -/
def NoMatch (kw t : List Char) (n : Nat) : Prop := ∀ k < n, kw.isPrefixOf (t.drop k) = false

theorem NoMatch.cons {kw t : List Char} {n : Nat} {c : Char}
    (hc : kw.isPrefixOf (c :: t) = false) (h : NoMatch kw t n) : NoMatch kw (c :: t) (n + 1)
  | 0, _ => hc
  | k + 1, hk => h k (by omega)

/-- A text in which no keyword starts keeps none when its last byte is replaced by one the
keyword does not hold. -/
theorem NoMatch.dropLast_append {kw t : List Char} {c : Char} (hc : c ∉ kw)
    (h : NoMatch kw t t.length) : NoMatch kw (t.dropLast ++ [c]) t.length := by
  intro k hk
  have ht : t ≠ [] := by rintro rfl; simp at hk
  have hd : k ≤ t.dropLast.length := by simp; omega
  have hn := h k hk
  rw [← List.dropLast_append_getLast ht, List.drop_append_of_le_length hd] at hn
  rw [List.drop_append_of_le_length hd, Bool.eq_false_iff]
  intro hp
  rw [List.isPrefixOf_iff_prefix] at hp
  rcases List.prefix_concat_iff.1 hp with he | hp'
  · exact hc (he ▸ List.mem_concat_self _ _)
  · have := List.isPrefixOf_iff_prefix.2 (hp'.trans (List.prefix_append _ [t.getLast ht]))
    rw [hn] at this
    cases this

namespace Parser

theorem rest_of_pos {p q : Parser} (hq : q.input = p.input) (hle : p.pos ≤ q.pos) :
    q.rest = p.rest.drop (q.pos - p.pos) := by
  simp only [rest, hq, List.drop_drop, Nat.add_sub_of_le hle]

/-- Slicing `n` bytes from the cursor. -/
theorem slice_take (p : Parser) {n : Nat} (hpos : p.pos ≤ p.input.length)
    (hn : n ≤ p.rest.length) :
    slice p.input p.pos (p.pos + n) = .ok (p.rest.take n) := by
  simp only [rest, List.length_drop] at hn
  simp only [slice, rest, Nat.add_sub_cancel_left]
  rw [if_pos ⟨Nat.le_add_right _ _, by omega⟩]

theorem Consume_of_Peek {p : Parser} (h : p.Peek ≠ '\x00') : p.Consume = (p.Peek, p.skip 1) := by
  cases hr : p.rest with
  | nil => exact absurd (Peek_eq_zero_of_rest hr) h
  | cons c cs => rw [Consume_of_rest hr, Peek_of_rest hr]

theorem Consume_snd (p : Parser) : p.Consume.2 = p.skip (min 1 p.rest.length) := by
  unfold Consume
  split <;> rename_i h <;> simp [h, skip]

theorem consumeWhile_of_rest {p : Parser} {f : Char → Bool} {cs rest : List Char} {c : Char}
    (hp : p.rest = cs ++ c :: rest) (hcs : ∀ x ∈ cs, x ≠ '\x00' ∧ f x = true)
    (hc : c = '\x00' ∨ f c = false) : p.consumeWhile f = p.skip cs.length := by
  rw [consumeWhile, hp, countWhile_append rest hcs hc]

/-- **Reading a word**: the cursor moves over it, and the slice from its start is the word. -/
theorem read_word {p : Parser} {f : Char → Bool} {w more : List Char} {c : Char}
    (hp : p.rest = w ++ c :: more) (hw : ∀ x ∈ w, x ≠ '\x00' ∧ f x = true)
    (hc : c = '\x00' ∨ f c = false) :
    p.consumeWhile f = p.skip w.length ∧ slice p.input p.pos (p.pos + w.length) = .ok w := by
  have hlen := congrArg List.length hp
  simp only [rest, List.length_drop, List.length_append, List.length_cons] at hlen
  refine ⟨consumeWhile_of_rest hp hw hc, ?_⟩
  rw [slice_take p (by omega) (by rw [hp]; simp), hp, List.take_left]

theorem slice_fault {s : List Char} {lo hi : Nat} {e : Fault} (h : slice s lo hi = .error e) :
    e = .panic := by
  unfold slice at h
  split_ifs at h
  cases h; rfl

/-- `ReadUntil(ch)` then `Consume()` on `ch` steps over it. -/
theorem ReadUntil_Consume_of_rest {p : Parser} {ch : Char} {more : List Char}
    (hp : p.rest = ch :: more) : (p.ReadUntil ch).2.Consume.2 = p.skip 1 := by
  have h0 : p.consumeWhile (· != ch) = p.skip 0 :=
    consumeWhile_of_rest (show p.rest = [] ++ ch :: more from hp) (by simp) (.inr (by simp))
  have h1 : (p.skip 0).rest = ch :: more := by rw [rest_skip, hp]; rfl
  simp only [ReadUntil, h0, Consume_of_rest h1, skip_skip]

/-- A slice from past the end of the text panics. -/
theorem slice_past_end {s : List Char} {lo : Nat} (hi : Nat) (h : s.length < lo) :
    slice s lo hi = .error .panic := by
  rw [slice, if_neg (by omega)]

theorem loop_end {σ : Type} (step : Parser → σ → Except Fault (Parser × σ)) {n : Nat}
    (hn : 0 < n) {p : Parser} (hp : p.rest = []) (s : σ) : loop step n p s = .ok s := by
  obtain ⟨m, rfl⟩ := Nat.exists_eq_succ_of_ne_zero hn.ne'
  simp [loop, Peek_eq_zero_of_rest hp]

/-- A pass that succeeds hands the loop its cursor and state. -/
theorem loop_step {σ : Type} (step : Parser → σ → Except Fault (Parser × σ)) (n : Nat)
    {p p' : Parser} (hp : p.Peek ≠ '\x00') {s s' : σ} (h : step p s = .ok (p', s')) :
    loop step (n + 1) p s = loop step n p' s' := by
  simp only [loop, if_neg hp, h]

/-- A pass that fails ends the loop with its fault. -/
theorem loop_fault {σ : Type} (step : Parser → σ → Except Fault (Parser × σ)) (n : Nat)
    {p : Parser} (hp : p.Peek ≠ '\x00') {s : σ} {e : Fault} (he : step p s = .error e) :
    loop step (n + 1) p s = .error e := by
  simp only [loop, if_neg hp, he]

end Parser

namespace Parser

section Loop

variable {σ : Type} (step : Parser → σ → Except Fault (Parser × σ))

/-- A loop body that, off the end of the text, moves the cursor forward on the same text. -/
def Advances : Prop :=
  ∀ p s p' s', p.Peek ≠ '\x00' → step p s = .ok (p', s') → p'.input = p.input ∧ p.pos < p'.pos

/-- **A stretch the body only consumes is folded into the state.** -/
theorem loop_consume {f : σ → Char → σ} (p : Parser)
    (cs : List Char) (n : Nat) (s : σ) (hcs : cs <+: p.rest) (h0 : '\x00' ∉ cs)
    (hstep : ∀ q s, q.input = p.input → p.pos ≤ q.pos → q.pos < p.pos + cs.length →
      q.Peek ≠ '\x00' → step q s = .ok (q.skip 1, f s q.Peek)) :
    loop step (n + cs.length) p s = loop step n (p.skip cs.length) (cs.foldl f s) := by
  induction cs generalizing p s with
  | nil => simp [skip]
  | cons c cs ih =>
    obtain ⟨t, ht⟩ := hcs
    have hc : c ≠ '\x00' := fun hc => h0 (hc ▸ List.mem_cons_self c cs)
    have hrest : p.rest = c :: (cs ++ t) := ht.symm
    have hpk : p.Peek = c := Peek_of_rest hrest
    rw [List.length_cons, ← Nat.add_assoc]
    simp only [loop, hpk, hc, if_false,
      hstep p s rfl le_rfl (by simp) (hpk ▸ hc)]
    rw [ih (p.skip 1) (f s c) ⟨t, by simp [hrest]⟩ (fun hm => h0 (List.mem_cons_of_mem c hm))
      (fun q s hq hle hlt => hstep q s hq (by simp at hle; omega) (by simp at hlt ⊢; omega)),
      skip_skip, Nat.add_comm 1]
    rfl

/-- **The loop only consumes text in which none of its keywords starts.** -/
theorem loop_noMatch {kw : List Char} {f : σ → Char → σ}
    (hstep : ∀ q s, kw.isPrefixOf q.rest = false → q.Peek ≠ '\x00' →
      step q s = .ok (q.skip 1, f s q.Peek))
    (p : Parser) (cs rest : List Char) (n : Nat) (s : σ) (hp : p.rest = cs ++ rest)
    (hno : NoMatch kw p.rest cs.length) (h0 : '\x00' ∉ cs) :
    loop step (n + cs.length) p s = loop step n (p.skip cs.length) (cs.foldl f s) :=
  loop_consume step p cs n s ⟨rest, hp.symm⟩ h0 fun q s hq hle hlt hpk =>
    hstep q s (rest_of_pos hq hle ▸ hno _ (by omega)) hpk

/-- **A loop fails at the first keyword of its text** where the body fails on the text from
there. -/
theorem loop_fault_at {kw : List Char} {f : σ → Char → σ}
    (hstep : ∀ q s, kw.isPrefixOf q.rest = false → q.Peek ≠ '\x00' →
      step q s = .ok (q.skip 1, f s q.Peek))
    {pre post : List Char} (hno : NoMatch kw (pre ++ post) pre.length) (h0 : '\x00' ∉ pre)
    (hpk : post.headD '\x00' ≠ '\x00') {e : Fault}
    (hfail : ∀ q s, q.rest = post → step q s = .error e) (s : σ) :
    loop step ((pre ++ post).length + 1) (NewParser (pre ++ post)) s = .error e := by
  have hp : ((NewParser (pre ++ post)).skip pre.length).rest = post := by
    simp [NewParser, rest]
  rw [show (pre ++ post).length + 1 = post.length + 1 + pre.length by simp; omega,
    loop_noMatch step hstep (NewParser (pre ++ post)) pre post _ s rfl hno h0,
    loop_fault _ _ (by rw [Peek, hp]; exact hpk) (hfail _ _ hp)]

/-- **A loop fails only as its body does** when the body moves the cursor forward on the text
`t` and the fuel is the `len - pos + 1` passes the model gives. -/
theorem loop_error (hs : Advances step) {t : List Char} {E : Fault → Prop}
    (hE : ∀ p s e, p.input = t → p.Peek ≠ '\x00' → step p s = .error e → E e) :
    ∀ (n : Nat) (p : Parser) (s : σ) (e : Fault), p.input = t → p.input.length - p.pos < n →
      loop step n p s = .error e → E e
  | 0, _, _, _, _, h, _ => absurd h (Nat.not_lt_zero _)
  | n + 1, p, s, e, ht, hn, hl => by
    simp only [loop] at hl
    split_ifs at hl with hp
    match hstep : step p s with
    | .error e' => rw [hstep] at hl; cases hl; exact hE p s _ ht hp hstep
    | .ok (p', s') =>
      rw [hstep] at hl
      obtain ⟨hi, hlt⟩ := hs p s p' s' hp hstep
      have := lt_length_of_Peek hp
      exact loop_error hs hE n p' s' e (hi.trans ht) (by rw [hi]; omega) hl

end Loop

end Parser

end Ilxd
