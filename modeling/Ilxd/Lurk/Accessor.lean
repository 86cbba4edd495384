import Ilxd.Lurk.Multisig

/-!
# Parameter accessors

The param macro of the preprocessor writes, in place of each `!(param …)` form, a Lurk
expression that reads one parameter of the script: `car` and `cdr` applied to `public-params`
or `private-params`.  This module is the meaning of that fragment of Lurk, against which the
macro's text is checked in `Ilxd.Lurk.ParamMeaning`.

* `Accessor`, `Accessor.print`, `Accessor.eval` — the expressions, their text and their value
  where each symbol has a value.
* `Accessor.read_print` — the reader of the fragment reads a printed accessor back, stopping
  at the first character after it that cannot continue a symbol.
* `Accessor.print_nth`, `Accessor.eval_nth` — `(car (cdr … (cdr e)))` with `k` `cdr`s is
  element `k` of the list `e`, as `nth` of `std/collections` reads it.
* `Accessor.eval_ofPath` — the accessor of a path reads the item at that path.
-/

set_option autoImplicit false

namespace Ilxd.Lurk

/-- A character that can continue a symbol: anything but whitespace and a bracket. -/
def isSymbolChar (c : Char) : Bool := !c.isWhitespace && c != '(' && c != ')'

/-- A symbol of the fragment: a letter, then characters that continue a symbol. -/
def isSymbol : List Char → Bool
  | [] => false
  | c :: cs => c.isAlpha && cs.all isSymbolChar

/-- An expression of the fragment: a symbol, `(car e)` or `(cdr e)`. -/
inductive Accessor
  | sym (name : List Char)
  | car (e : Accessor)
  | cdr (e : Accessor)
  deriving DecidableEq, Repr

namespace Accessor

/-- The text of an accessor, as the macro writes it. -/
def print : Accessor → List Char
  | sym name => name
  | car e => "(car ".toList ++ e.print ++ [')']
  | cdr e => "(cdr ".toList ++ e.print ++ [')']

/-- The symbol an accessor reads from. -/
def base : Accessor → List Char
  | sym name => name
  | car e => e.base
  | cdr e => e.base

/-- The number of `car`s and `cdr`s. -/
def depth : Accessor → Nat
  | sym _ => 0
  | car e => e.depth + 1
  | cdr e => e.depth + 1

/-- The value of an accessor, where `env` gives each symbol's value; `none` is a Lurk error
(an unbound symbol, or `car` or `cdr` of an atom). -/
def eval (env : List Char → Option Val) : Accessor → Option Val
  | sym name => env name
  | car e => e.eval env >>= Lurk.car
  | cdr e => e.eval env >>= Lurk.cdr

/-! ## Reading -/

/-- The last step of reading `(car e)` or `(cdr e)`: the closing bracket after `e`. -/
def close (f : Accessor → Accessor) :
    Option (Accessor × List Char) → Option (Accessor × List Char)
  | some (e, ')' :: rest) => some (f e, rest)
  | _ => none

/-- A symbol at the front of a text: a letter, then the longest run of characters that
continue it. -/
def readSymbol : List Char → Option (Accessor × List Char)
  | c :: more =>
    if c.isAlpha then some (sym (c :: more.takeWhile isSymbolChar), more.dropWhile isSymbolChar)
    else none
  | [] => none

/-- The reader of the fragment: `(car ` or `(cdr `, an accessor and `)`, or a symbol.  It
returns the accessor and the text after it; `fuel` bounds the nesting. -/
def read : Nat → List Char → Option (Accessor × List Char)
  | 0, _ => none
  | fuel + 1, cs =>
    if "(car ".toList.isPrefixOf cs then close car (read fuel (cs.drop 5))
    else if "(cdr ".toList.isPrefixOf cs then close cdr (read fuel (cs.drop 5))
    else readSymbol cs

/-- Reading a whole text, with as much fuel as it has characters. -/
def parse (cs : List Char) : Option (Accessor × List Char) := read cs.length cs

theorem read_open (f : Accessor → Accessor) (kw : List Char) (e : Accessor) (fuel : Nat)
    (rest : List Char)
    (hread : read fuel (e.print ++ ')' :: rest) = some (e, ')' :: rest)) :
    close f (read fuel (((kw ++ e.print ++ [')']) ++ rest).drop kw.length)) = some (f e, rest) := by
  simp only [List.append_assoc, List.drop_left, List.singleton_append, hread, close]

/-- **Reading a printed accessor gives it back**, with the text after it, when that text does
not continue its symbol. -/
theorem read_print : ∀ (e : Accessor), isSymbol e.base = true → ∀ (rest : List Char),
    (∀ c ∈ rest.head?, isSymbolChar c = false) → ∀ fuel, e.depth < fuel →
    read fuel (e.print ++ rest) = some (e, rest)
  | sym name, hb, rest, hrest, fuel + 1, _ => by
    obtain _ | ⟨c, cs⟩ := name
    · cases hb
    simp only [base, isSymbol, Bool.and_eq_true, List.all_eq_true] at hb
    have hc : c ≠ '(' := by rintro rfl; exact absurd hb.1 (by decide)
    have hstop : rest.takeWhile isSymbolChar = [] := by
      cases rest with
      | nil => rfl
      | cons x xs => simp [List.takeWhile, hrest x rfl]
    have hdrop : rest.dropWhile isSymbolChar = rest := by
      cases rest with
      | nil => rfl
      | cons x xs => simp [List.dropWhile, hrest x rfl]
    simp [read, readSymbol, print, List.isPrefixOf, Ne.symm hc, hb.1, hstop, hdrop,
      List.takeWhile_append_of_pos hb.2, List.dropWhile_append_of_pos hb.2]
  | car e, hb, rest, _, fuel + 1, hd => by
    rw [read, if_pos (by simp [print, List.isPrefixOf_iff_prefix, List.append_assoc])]
    exact read_open car "(car ".toList e fuel rest
      (read_print e hb (')' :: rest) (fun _ h => by cases h; rfl) fuel
        (by simp only [depth] at hd; omega))
  | cdr e, hb, rest, _, fuel + 1, hd => by
    rw [read, if_neg (by simp [print, List.isPrefixOf]),
      if_pos (by simp [print, List.isPrefixOf_iff_prefix, List.append_assoc])]
    exact read_open cdr "(cdr ".toList e fuel rest
      (read_print e hb (')' :: rest) (fun _ h => by cases h; rfl) fuel
        (by simp only [depth] at hd; omega))

theorem depth_lt_length : ∀ e : Accessor, isSymbol e.base = true → e.depth < e.print.length
  | sym name, hb => by cases name <;> simp_all [isSymbol, depth, print, base]
  | car e, hb => by have := depth_lt_length e hb; simp [depth, print]; omega
  | cdr e, hb => by have := depth_lt_length e hb; simp [depth, print]; omega

theorem parse_print (e : Accessor) (hb : isSymbol e.base = true) (rest : List Char)
    (hrest : ∀ c ∈ rest.head?, isSymbolChar c = false) :
    parse (e.print ++ rest) = some (e, rest) :=
  read_print e hb rest hrest _ (by have := depth_lt_length e hb; simp; omega)

/-! ## Elements of a list -/

/-- `e` under `k` `cdr`s, innermost first. -/
def cdrs : Nat → Accessor → Accessor
  | 0, e => e
  | k + 1, e => cdrs k (cdr e)

/-- `(car (cdr … (cdr e)))` with `k` `cdr`s: element `k` of the list `e`. -/
def nth (k : Nat) (e : Accessor) : Accessor := car (cdrs k e)

@[simp] theorem base_cdrs : ∀ (k : Nat) (e : Accessor), (cdrs k e).base = e.base
  | 0, _ => rfl
  | k + 1, e => base_cdrs k (cdr e)

@[simp] theorem base_nth (k : Nat) (e : Accessor) : (e.nth k).base = e.base := base_cdrs k e

theorem print_cdrs : ∀ (k : Nat) (e : Accessor),
    (cdrs k e).print = (List.replicate k "(cdr ".toList).flatten ++ e.print ++ List.replicate k ')'
  | 0, e => by simp [cdrs]
  | k + 1, e => by
    rw [cdrs, print_cdrs k, print, List.replicate_succ', List.replicate_succ]
    simp

theorem print_nth (k : Nat) (e : Accessor) : (e.nth k).print =
    "(car ".toList ++ (List.replicate k "(cdr ".toList).flatten ++ e.print ++
      List.replicate (k + 1) ')' := by
  rw [nth, print, print_cdrs, List.replicate_succ']
  simp

/-- **`(car (cdr … (cdr e)))` reads what `nth` reads.** -/
theorem eval_nth (env : List Char → Option Val) :
    ∀ (k : Nat) (e : Accessor), (e.nth k).eval env = e.eval env >>= Lurk.nth k
  | 0, e => rfl
  | k + 1, e => by
    rw [nth, cdrs, ← nth, eval_nth env k, eval]
    exact Option.bind_assoc _ _ _

/-! ## Paths -/

/-- The item at a path: element `k₀` of a list, element `k₁` of that, and so on. -/
def nthPath : List Nat → Val → Option Val
  | [], v => some v
  | k :: ks, v => Lurk.nth k v >>= nthPath ks

/-- The accessor of the item at a path of the list a symbol names. -/
def ofPath (name : List Char) (path : List Nat) : Accessor :=
  path.foldl (fun e k => e.nth k) (sym name)

theorem eval_foldl_nth (env : List Char → Option Val) :
    ∀ (path : List Nat) (e : Accessor),
      (path.foldl (fun e k => e.nth k) e).eval env = e.eval env >>= nthPath path
  | [], e => by simp [nthPath]
  | k :: ks, e => by
    rw [List.foldl_cons, eval_foldl_nth env ks, eval_nth]
    exact Option.bind_assoc _ _ _

/-- **The accessor of a path reads the item at that path.** -/
theorem eval_ofPath (env : List Char → Option Val) (name : List Char) (path : List Nat) :
    (ofPath name path).eval env = env name >>= nthPath path :=
  eval_foldl_nth env path (sym name)

@[simp] theorem base_foldl_nth : ∀ (path : List Nat) (e : Accessor),
    (path.foldl (fun e k => e.nth k) e).base = e.base
  | [], _ => rfl
  | k :: ks, e => by rw [List.foldl_cons, base_foldl_nth ks, base_nth]

@[simp] theorem base_ofPath (name : List Char) (path : List Nat) :
    (ofPath name path).base = name :=
  base_foldl_nth path (sym name)

end Accessor

end Ilxd.Lurk
