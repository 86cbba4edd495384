import Mathlib.Data.List.Basic

/-!
# Lurk values

The locking scripts of the chain (`zk/lurk/*.lurk`, and the `std` dependency modules they
import) are Lurk programs.  This module models the Lurk values they handle and the built-in
operations they call, as Lurk evaluates them:

* `Val` — `nil`, the symbol `t`, a number, any other symbol, or a cons cell (improper lists
  kept).
* `car`, `cdr` — `nil` on `nil`, the halves of a cons, and an evaluation error on an atom.
* `numEq`, `numGe` — `=` and `>=`, which compare numbers and are an evaluation error on
  anything else (`eq`, which compares any two values, is equality of `Val`).

A Lurk evaluation error is `none`.  Lurk numbers are field elements; they are modelled as
integers, which agree with Lurk's signed comparisons on every value of less than half the
field's size.
-/

set_option autoImplicit false

namespace Ilxd.Lurk

/-- A Lurk value. -/
inductive Val
  | nil
  | t
  | num (n : Int)
  | sym (name : String)
  | cons (car cdr : Val)
  deriving DecidableEq, Repr

namespace Val

/-- A Lurk boolean: `t` or `nil`. -/
def ofBool (b : Bool) : Val := if b then .t else .nil

/-- The proper list of `xs`. -/
def list : List Val → Val
  | [] => .nil
  | x :: xs => .cons x (list xs)

@[simp] theorem ofBool_eq_t (b : Bool) : ofBool b = .t ↔ b = true := by
  cases b <;> simp [ofBool]

end Val

/-- `(car v)`. -/
def car : Val → Option Val
  | .nil => some .nil
  | .cons a _ => some a
  | _ => none

/-- `(cdr v)`. -/
def cdr : Val → Option Val
  | .nil => some .nil
  | .cons _ d => some d
  | _ => none

/-- `(= a b)`, as the test of an `if`. -/
def numEq : Val → Val → Option Bool
  | .num a, .num b => some (a = b)
  | _, _ => none

/-- `(>= a b)`, as the test of an `if`. -/
def numGe : Val → Val → Option Bool
  | .num a, .num b => some (b ≤ a)
  | _, _ => none

@[simp] theorem car_nil : car .nil = some .nil := rfl
@[simp] theorem car_cons (a d : Val) : car (.cons a d) = some a := rfl
@[simp] theorem cdr_nil : cdr .nil = some .nil := rfl
@[simp] theorem cdr_cons (a d : Val) : cdr (.cons a d) = some d := rfl
@[simp] theorem numEq_num (a b : Int) : numEq (.num a) (.num b) = some (decide (a = b)) := rfl
@[simp] theorem numGe_num (a b : Int) : numGe (.num a) (.num b) = some (decide (b ≤ a)) := rfl

end Ilxd.Lurk
