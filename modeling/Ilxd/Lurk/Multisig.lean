import Ilxd.Lurk.Value

/-!
# The multisig locking script

`zk/lurk/multisig_script.lurk` unlocks with signatures from a threshold of a set of keys.  Its
locking params are `(t x₀ y₀ x₁ y₁ …)`, its unlocking params `(S sig₀ sig₁ …)`, where the key
selector `S` marks with `1` the keys that sign.  `validate-sigs` walks the selector, checking
the next signature against each selected key, and at the end of the selector compares the
number of signatures checked with the threshold.

* `validateSigs_sound` — whatever the selector, the script accepts only if every selected
  position up to the selector's first `nil` carries a signature that checks and there are at
  least `t` of them (`Accepted`).
* `validateSigs_complete` — on a selector that is a list whose elements up to its first `nil`
  are numbers (`numSelector`), it accepts whenever `Accepted` holds.
* `multisigScript_accepts_iff` — the two, for the script as a whole.

`checksig` is a parameter: the script imports it from `std/crypto` (`checksig` here, whose
coprocessor is abstract), and the results hold for every signature check.
-/

set_option autoImplicit false

namespace Ilxd.Lurk

/-! ## The script -/

/-- `nth` of `std/collections`: the item at `idx`, or `nil` past the end of the list.  The
script passes it only indices it counts up from `0`. -/
def nth : Nat → Val → Option Val
  | 0, plist => car plist
  | idx + 1, plist => do nth idx (← cdr plist)

/-- `checksig` of `std/crypto`: the signature `(rx ry s)` checked against the key `(x y)` and
the sighash by the coprocessor `coproc_checksig`. -/
def checksig (coprocChecksig : Val → Val → Val → Val → Val → Val → Bool)
    (sig pubkey sighash : Val) : Option Bool := do
  let rx ← car sig
  let ry ← car (← cdr sig)
  let s ← car (← cdr (← cdr sig))
  let px ← car pubkey
  let py ← car (← cdr pubkey)
  return coprocChecksig rx ry s px py sighash

/-- The test of a selected key in `validate-sigs`, `(checksig (nth sig-idx sigs)
(cons (nth key-idx pubkeys) (cons (nth (+ key-idx 1) pubkeys) nil)) sighash)`. -/
def sigCheck (checksig : Val → Val → Val → Option Bool) (pubkeys sigs sighash : Val)
    (keyIdx sigIdx : Nat) : Option Bool := do
  let sig ← nth sigIdx sigs
  let kx ← nth keyIdx pubkeys
  let ky ← nth (keyIdx + 1) pubkeys
  checksig sig (.cons kx (.cons ky .nil)) sighash

/-- `validate-sigs`, over the selector, with the key index, the signature index and the count
of signatures checked. -/
def validateSigs (checksig : Val → Val → Val → Option Bool)
    (threshold pubkeys sigs sighash : Val) : Val → Nat → Nat → Nat → Option Val
  | .nil, _, _, validSigs => Val.ofBool <$> numGe (.num validSigs) threshold
  | .cons x rest, keyIdx, sigIdx, validSigs =>
    if x = .nil then Val.ofBool <$> numGe (.num validSigs) threshold else do
      if ← numEq x (.num 1) then
        if ← sigCheck checksig pubkeys sigs sighash keyIdx sigIdx then
          validateSigs checksig threshold pubkeys sigs sighash rest (keyIdx + 2) (sigIdx + 1)
            (validSigs + 1)
        else return .nil
      else validateSigs checksig threshold pubkeys sigs sighash rest (keyIdx + 2) sigIdx validSigs
  | _, _, _, _ => none

/-- The multisig script, its definitions bound in order; the sighash is `!(param sighash)`,
`(car public-params)`. -/
def multisigScript (checksig : Val → Val → Val → Option Bool)
    (lockingParams unlockingParams publicParams : Val) : Option Val := do
  let threshold ← car lockingParams
  let keySelector ← car unlockingParams
  let pubkeys ← cdr lockingParams
  let sigs ← cdr unlockingParams
  let sighash ← car publicParams
  validateSigs checksig threshold pubkeys sigs sighash keySelector 0 0 0

/-! ## What the script accepts -/

/-- The selector up to its first `nil` element. -/
def selectorPrefix : Val → List Val
  | .cons x rest => if x = .nil then [] else x :: selectorPrefix rest
  | _ => []

/-- A selector that is a list whose elements up to its first `nil` are numbers. -/
def numSelector : Val → Bool
  | .nil => true
  | .cons .nil _ => true
  | .cons (.num _) rest => numSelector rest
  | _ => false

/-- Every position `i` of the selector prefix `sel` marked `1` carries the `r(i)`-th signature,
which checks against the key `(K[2i] K[2i+1])`, `r(i)` counting the positions marked `1`
before `i`; and at least `t` positions are marked `1`. -/
def Accepted (checksig : Val → Val → Val → Option Bool) (t : Int) (pubkeys sigs sighash : Val)
    (sel : List Val) : Prop :=
  (∀ i (hi : i < sel.length), sel[i] = .num 1 →
    sigCheck checksig pubkeys sigs sighash (2 * i) ((sel.take i).count (.num 1)) = some true) ∧
  t ≤ sel.count (.num 1)

instance (checksig : Val → Val → Val → Option Bool) (t : Int) (pubkeys sigs sighash : Val)
    (sel : List Val) : Decidable (Accepted checksig t pubkeys sigs sighash sel) :=
  inferInstanceAs (Decidable (_ ∧ _))

section Walk

variable (checksig : Val → Val → Val → Option Bool) (t : Int) (pubkeys sigs sighash : Val)

/-- `Accepted` for the rest of a selector, read from key position `j` with `r` signatures
checked. -/
def AcceptedFrom (j r : Nat) (sel : List Val) : Prop :=
  (∀ i (hi : i < sel.length), sel[i] = .num 1 →
    sigCheck checksig pubkeys sigs sighash (2 * (j + i)) (r + (sel.take i).count (.num 1)) =
      some true) ∧
  t ≤ r + sel.count (.num 1)

theorem acceptedFrom_nil (j r : Nat) :
    AcceptedFrom checksig t pubkeys sigs sighash j r [] ↔ t ≤ r := by
  simp [AcceptedFrom]

/-- One position of the selector: its own check, then the rest from the next key position. -/
theorem acceptedFrom_cons (j r : Nat) (x : Val) (sel : List Val) :
    AcceptedFrom checksig t pubkeys sigs sighash j r (x :: sel) ↔
      (x = .num 1 → sigCheck checksig pubkeys sigs sighash (2 * j) r = some true) ∧
      AcceptedFrom checksig t pubkeys sigs sighash (j + 1) (r + if x = .num 1 then 1 else 0)
        sel := by
  have hc : ∀ l : List Val, (x :: l).count (.num 1) = l.count (.num 1) +
      if x = .num 1 then 1 else 0 := fun l => by simp [List.count_cons]
  simp only [AcceptedFrom, List.length_cons, hc]
  constructor
  · rintro ⟨hs, ht⟩
    refine ⟨fun hx => by simpa using hs 0 (by omega) (by simpa using hx), fun i hi hx => ?_,
      by simp only [Int.natCast_add] at ht ⊢; omega⟩
    have := hs (i + 1) (by omega) (by simpa using hx)
    simp only [List.take_succ_cons, hc] at this
    rw [show 2 * (j + 1 + i) = 2 * (j + (i + 1)) by omega,
      show r + (if x = .num 1 then 1 else 0) + (sel.take i).count (.num 1) =
        r + ((sel.take i).count (.num 1) + if x = .num 1 then 1 else 0) by omega]
    exact this
  · rintro ⟨h0, hs, ht⟩
    refine ⟨fun i hi hx => ?_, by simp only [Int.natCast_add] at ht ⊢; omega⟩
    cases i with
    | zero => simpa using h0 (by simpa using hx)
    | succ i =>
      have := hs i (by omega) (by simpa using hx)
      simp only [List.take_succ_cons, hc]
      rw [show 2 * (j + (i + 1)) = 2 * (j + 1 + i) by omega,
        show r + ((sel.take i).count (.num 1) + if x = .num 1 then 1 else 0) =
          r + (if x = .num 1 then 1 else 0) + (sel.take i).count (.num 1) by omega]
      exact this

/-- **The script accepts only what `Accepted` describes**, whatever the selector. -/
theorem validateSigs_sound : ∀ (selector : Val) (j r : Nat),
    validateSigs checksig (.num t) pubkeys sigs sighash selector (2 * j) r r = some .t →
      AcceptedFrom checksig t pubkeys sigs sighash j r (selectorPrefix selector)
  | .nil, j, r, h => (acceptedFrom_nil ..).2 (by simpa [validateSigs] using h)
  | .cons .nil rest, j, r, h => by
    rw [selectorPrefix, if_pos rfl]
    exact (acceptedFrom_nil ..).2 (by simpa [validateSigs] using h)
  | .cons (.num n) rest, j, r, h => by
    rw [selectorPrefix, if_neg (by simp), acceptedFrom_cons]
    simp only [validateSigs, reduceCtorEq, if_false, numEq_num] at h
    by_cases h1 : n = 1
    · subst h1
      simp only [decide_True, Option.bind_eq_bind, Option.some_bind, if_true] at h
      obtain ⟨b, hc, h⟩ := Option.bind_eq_some.1 h
      cases b
      · simp at h
      · have := validateSigs_sound rest (j + 1) (r + 1) (by simpa [Nat.mul_add] using h)
        exact ⟨fun _ => hc, by simpa using this⟩
    · have hne : Val.num n ≠ .num 1 := by simpa using h1
      simp only [decide_eq_false h1, Bool.false_eq_true, if_false] at h
      have := validateSigs_sound rest (j + 1) r (by simpa [Nat.mul_add] using h)
      exact ⟨fun h' => absurd h' hne, by simpa [hne] using this⟩
  | .cons .t _, _, _, h | .cons (.sym _) _, _, _, h | .cons (.cons _ _) _, _, _, h
  | .t, _, _, h | .num _, _, _, h | .sym _, _, _, h => by
    simp [validateSigs, numEq] at h

/-- **The script accepts all that `Accepted` describes** on a selector that is a list whose
elements up to its first `nil` are numbers. -/
theorem validateSigs_complete : ∀ (selector : Val) (j r : Nat), numSelector selector = true →
    AcceptedFrom checksig t pubkeys sigs sighash j r (selectorPrefix selector) →
      validateSigs checksig (.num t) pubkeys sigs sighash selector (2 * j) r r = some .t
  | .nil, j, r, _, h => by
    simpa [validateSigs, selectorPrefix, acceptedFrom_nil] using h
  | .cons .nil rest, j, r, _, h => by
    simpa [validateSigs, selectorPrefix, acceptedFrom_nil] using h
  | .cons (.num n) rest, j, r, hn, h => by
    rw [selectorPrefix, if_neg (by simp), acceptedFrom_cons] at h
    simp only [validateSigs, reduceCtorEq, if_false, numEq_num]
    by_cases h1 : n = 1
    · subst h1
      simp only [decide_eq_true rfl, if_true, h.1 rfl]
      simpa [Nat.mul_add] using validateSigs_complete rest (j + 1) (r + 1) hn
        (by simpa using h.2)
    · have hne : Val.num n ≠ .num 1 := by simpa using h1
      simp only [decide_eq_false h1, Bool.false_eq_true, if_false]
      simpa [Nat.mul_add] using validateSigs_complete rest (j + 1) r hn
        (by simpa [hne] using h.2)
  | .cons .t _, _, _, hn, _ | .cons (.sym _) _, _, _, hn, _ | .cons (.cons _ _) _, _, _, hn, _
  | .t, _, _, hn, _ | .num _, _, _, hn, _ | .sym _, _, _, hn, _ => by
    simp [numSelector] at hn

end Walk

theorem accepted_iff_from (checksig : Val → Val → Val → Option Bool) (t : Int)
    (pubkeys sigs sighash : Val) (sel : List Val) :
    Accepted checksig t pubkeys sigs sighash sel ↔
      AcceptedFrom checksig t pubkeys sigs sighash 0 0 sel := by
  simp [Accepted, AcceptedFrom]

/-- **The multisig script accepts exactly what `Accepted` describes**: whatever the selector it
accepts only then, and on a selector that is a list whose elements up to its first `nil` are
numbers it then always accepts. -/
theorem multisigScript_accepts_iff (checksig : Val → Val → Val → Option Bool) (t : Int)
    (pubkeys selector sigs sighash publicRest : Val) :
    (multisigScript checksig (.cons (.num t) pubkeys) (.cons selector sigs)
        (.cons sighash publicRest) = some .t →
      Accepted checksig t pubkeys sigs sighash (selectorPrefix selector)) ∧
    (numSelector selector = true →
      Accepted checksig t pubkeys sigs sighash (selectorPrefix selector) →
      multisigScript checksig (.cons (.num t) pubkeys) (.cons selector sigs)
        (.cons sighash publicRest) = some .t) :=
  ⟨fun h => (accepted_iff_from ..).2 (validateSigs_sound checksig t pubkeys sigs sighash
      selector 0 0 h),
    fun hn h => validateSigs_complete checksig t pubkeys sigs sighash selector 0 0 hn
      ((accepted_iff_from ..).1 h)⟩

/-- Two of the three keys `(1 0 1)` selected, with a threshold of two and a signature check
that accepts. -/
theorem multisigScript_accepts_two_of_three :
    numSelector (Val.list [.num 1, .num 0, .num 1]) = true ∧
      Accepted (fun _ _ _ => some true) 2 (Val.list ((List.range 6).map fun i => .num i))
        (Val.list [.num 7, .num 8]) .nil (selectorPrefix (Val.list [.num 1, .num 0, .num 1])) ∧
      multisigScript (fun _ _ _ => some true)
        (.cons (.num 2) (Val.list ((List.range 6).map fun i => .num i)))
        (.cons (Val.list [.num 1, .num 0, .num 1]) (Val.list [.num 7, .num 8]))
        (.cons .nil .nil) = some .t :=
  ⟨rfl, by decide, (multisigScript_accepts_iff (fun _ _ _ => some true) 2
    (Val.list ((List.range 6).map fun i => .num i)) (Val.list [.num 1, .num 0, .num 1])
    (Val.list [.num 7, .num 8]) .nil .nil).2 rfl (by decide)⟩

/-- **A selector element that is no number stops the script**: with the selector `(t)`, which
marks no key, and the threshold `0`, `Accepted` holds but `(= t 1)` is an evaluation error. -/
theorem multisigScript_symbol_selector :
    multisigScript (fun _ _ _ => some true) (.cons (.num 0) .nil) (.cons (.cons .t .nil) .nil)
        (.cons .nil .nil) = none ∧
      Accepted (fun _ _ _ => some true) 0 .nil .nil .nil (selectorPrefix (.cons .t .nil)) :=
  ⟨rfl, by decide⟩

end Ilxd.Lurk
