import Mathlib.Data.List.Nodup
import Ilxd.Lurk.Value

/-!
# The helpers of the stake validation script

`zk/lurk/stake_validation.lurk` keeps a map as a flat list `(k₁ v₁ k₂ v₂ …)` and defines
`map-get` and `map-update` over it.  The abstract model of such a map is an association list
of numbers, with `assocUpdate` replacing the entry of a key or appending one.

* `mapGet_flat` — `map-get` reads the flat list two elements at a time, as a lookup in the
  association list.
* `assocUpdate_nodup`, `lookup_assocUpdate_self`, `lookup_assocUpdate_ne` — the association
  list update keeps keys distinct, and changes the value of its key only.
* `mapUpdate_flat`, `mapUpdate_laws` — `map-update` refines `assocUpdate` on maps none of
  whose values equals the key, and there has the laws of a map update.
* `mapUpdate_misaligns` — otherwise it does not: `map-update` recurses on `(cdr map)`, one
  element on rather than two, so it also compares the key with the values, and a value equal
  to the key is replaced as if it were one.

`validate-inclusion-proof` checks that an output commitment is a leaf of the Merkle tree of
the transaction outputs: `hash-branches` hashes the leaf up along the proof's siblings.

* `hashBranches_proofVal` — on a non-empty proof, `hash-branches` is the fold of a Merkle path
  from the leaf up.
* `validateInclusionProof_iff` — for every tree and every leaf below its root, the script
  accepts that leaf with the tree's siblings; and where `cat-and-hash` has no collision, it
  accepts a value with any siblings on that path only if the value is the leaf.
-/

set_option autoImplicit false

namespace Ilxd.Lurk

/-! ## The script's helpers -/

/-- `map-get`: the item after the first key `eq` to `key`, walking the list two elements at
a time, or `nil`. -/
def mapGet (key : Val) : Val → Option Val
  | .nil => some .nil
  | .cons k rest =>
    if key = k then car rest
    else match rest with
      -- `(map-get key (cdr (cdr plist)))`
      | .nil => some .nil
      | .cons _ rest' => mapGet key rest'
      | _ => none
  | _ => none

/-- `map-update`: the map with `key` bound to `value`, the entry added at the end if there is
none. -/
def mapUpdate (key value : Val) : Val → Option Val
  | .nil => some (.cons key (.cons value .nil))
  | .cons existingKey restMap => do
    if ← numEq existingKey key then
      return .cons key (.cons value (← cdr restMap))
    else
      return .cons existingKey (← mapUpdate key value restMap)
  | _ => none

/-! ## Flat maps -/

/-- The flat list `(k₁ v₁ k₂ v₂ …)` of an association list of numbers. -/
def flat : List (Int × Int) → Val
  | [] => .nil
  | (k, v) :: m => .cons (.num k) (.cons (.num v) (flat m))

/-- The abstract update: the first entry of `k` replaced, or `(k, v)` appended. -/
def assocUpdate (k v : Int) : List (Int × Int) → List (Int × Int)
  | [] => [(k, v)]
  | (k', v') :: m => if k' = k then (k, v) :: m else (k', v') :: assocUpdate k v m

/-- What `map-get` returns for a lookup result. -/
def ofLookup : Option Int → Val
  | some v => .num v
  | none => .nil

/-- **`map-get` is the lookup of the association list.** -/
theorem mapGet_flat (k : Int) :
    ∀ m : List (Int × Int), mapGet (.num k) (flat m) = some (ofLookup (m.lookup k))
  | [] => rfl
  | (k', v') :: m => by
    by_cases h : k = k'
    · subst h; simp [flat, mapGet, ofLookup, List.lookup_cons, List.lookup_nil]
    · have hne : (k == k') = false := by simpa using h
      simp only [flat, mapGet, Val.num.injEq, h, if_false, List.lookup_cons, hne]
      exact mapGet_flat k m

theorem assocUpdate_keys (k v : Int) : ∀ m : List (Int × Int),
    (assocUpdate k v m).map Prod.fst =
      if k ∈ m.map Prod.fst then m.map Prod.fst else m.map Prod.fst ++ [k]
  | [] => rfl
  | (k', v') :: m => by
    by_cases h : k' = k
    · subst h; simp [assocUpdate]
    · have hk : k ≠ k' := Ne.symm h
      simp only [assocUpdate, h, if_false, List.map_cons, List.mem_cons, hk, false_or,
        assocUpdate_keys k v m]
      split_ifs <;> rfl

/-- The update keeps the keys of a map distinct. -/
theorem assocUpdate_nodup (k v : Int) (m : List (Int × Int)) (hm : (m.map Prod.fst).Nodup) :
    ((assocUpdate k v m).map Prod.fst).Nodup := by
  rw [assocUpdate_keys]
  split_ifs with h
  · exact hm
  · exact hm.append (List.nodup_singleton k) (List.disjoint_singleton.2 h)

theorem lookup_assocUpdate_self (k v : Int) : ∀ m : List (Int × Int),
    (assocUpdate k v m).lookup k = some v
  | [] => by simp [assocUpdate, List.lookup_cons, List.lookup_nil]
  | (k', v') :: m => by
    by_cases h : k' = k
    · simp [assocUpdate, h, List.lookup_cons, List.lookup_nil]
    · have hne : (k == k') = false := by simpa using Ne.symm h
      simp only [assocUpdate, h, if_false, List.lookup_cons, hne]
      exact lookup_assocUpdate_self k v m

theorem lookup_assocUpdate_ne (k v k₂ : Int) (hk : k₂ ≠ k) : ∀ m : List (Int × Int),
    (assocUpdate k v m).lookup k₂ = m.lookup k₂
  | [] => by simp [assocUpdate, List.lookup_cons, List.lookup_nil, beq_eq_false_iff_ne.2 hk]
  | (k', v') :: m => by
    by_cases h : k' = k
    · subst h; simp [assocUpdate, List.lookup_cons, List.lookup_nil, beq_eq_false_iff_ne.2 hk]
    · simp only [assocUpdate, h, if_false, List.lookup_cons, List.lookup_nil,
        lookup_assocUpdate_ne k v k₂ hk m]

/-! ## `map-update` against the abstract update -/

/-- **`map-update` refines the association list update** on a map none of whose values equals
the key: there the walk one element at a time meets the key only at a key position. -/
theorem mapUpdate_flat (k v : Int) : ∀ m : List (Int × Int), (∀ e ∈ m, e.2 ≠ k) →
    mapUpdate (.num k) (.num v) (flat m) = some (flat (assocUpdate k v m))
  | [] => fun _ => rfl
  | (k', v') :: m => fun hm => by
    have hv : v' ≠ k := hm (k', v') (List.mem_cons_self _ _)
    by_cases h : k' = k
    · subst h; simp [flat, mapUpdate, assocUpdate]
    · have ih := mapUpdate_flat k v m fun e he => hm e (List.mem_cons_of_mem _ he)
      simp [flat, mapUpdate, assocUpdate, h, hv, ih]

/-- **The laws of a map update hold of `map-update`** wherever it refines the abstract update:
the result is a flat map with distinct keys, `map-get` finds the new value under the key and
the old value under every other key. -/
theorem mapUpdate_laws (k v : Int) (m : List (Int × Int)) (hm : (m.map Prod.fst).Nodup)
    (hv : ∀ e ∈ m, e.2 ≠ k) :
    ∃ m', mapUpdate (.num k) (.num v) (flat m) = some (flat m') ∧ (m'.map Prod.fst).Nodup ∧
      mapGet (.num k) (flat m') = some (.num v) ∧
      ∀ k' ≠ k, mapGet (.num k') (flat m') = mapGet (.num k') (flat m) :=
  ⟨assocUpdate k v m, mapUpdate_flat k v m hv, assocUpdate_nodup k v m hm,
    by rw [mapGet_flat, lookup_assocUpdate_self]; rfl,
    fun k' hk => by rw [mapGet_flat, mapGet_flat, lookup_assocUpdate_ne k v k' hk]⟩

/-- Updating key `3` of the map `(1 10 3 30)` to `7`. -/
theorem mapUpdate_laws_two_entries :
    (([(1, 10), (3, 30)] : List (Int × Int)).map Prod.fst).Nodup ∧
      (∀ e ∈ ([(1, 10), (3, 30)] : List (Int × Int)), e.2 ≠ 3) ∧
      ∃ m', mapUpdate (.num 3) (.num 7) (flat [(1, 10), (3, 30)]) = some (flat m') ∧
        (m'.map Prod.fst).Nodup ∧ mapGet (.num 3) (flat m') = some (.num 7) ∧
        ∀ k' ≠ 3, mapGet (.num k') (flat m') = mapGet (.num k') (flat [(1, 10), (3, 30)]) :=
  ⟨by decide, by decide, mapUpdate_laws 3 7 [(1, 10), (3, 30)] (by decide) (by decide)⟩

/-- **`map-update` treats a value equal to the key as a key**: on the one-entry map
`(k+1 k)` the update of `k` gives the odd list `(k+1 k v)`, which is no flat map, and in which
`map-get` finds no `k`. -/
theorem mapUpdate_misaligns (k v : Int) :
    mapUpdate (.num k) (.num v) (flat [(k + 1, k)]) =
        some (Val.list [.num (k + 1), .num k, .num v]) ∧
      (∀ m : List (Int × Int), flat m ≠ Val.list [.num (k + 1), .num k, .num v]) ∧
      mapGet (.num k) (Val.list [.num (k + 1), .num k, .num v]) = some .nil := by
  have hk : k + 1 ≠ k := by omega
  refine ⟨by simp [flat, mapUpdate, Val.list, hk], ?_, by simp [mapGet, Val.list, hk.symm]⟩
  rintro (_ | ⟨⟨a, b⟩, _ | ⟨⟨c, d⟩, m⟩⟩) h <;> simp [flat, Val.list] at h

/-! ## The inclusion proof -/

section InclusionProof

variable (catAndHash : Val → Val → Val)

/-- `hash-branches`, `cat-and-hash` being the `coproc_blake2s` coprocessor: from the leaf up,
each entry `(val . flag)` of the proof hashes the running hash on the left of `val` where
`flag` is not `nil`, on its right otherwise; it stops at the entry whose `cdr` is `nil`. -/
def hashBranches (h : Val) : Val → Option Val
  | .cons nextHash rest => do
    let val ← car nextHash
    let newH := if (← cdr nextHash) ≠ .nil then catAndHash h val else catAndHash val h
    if rest ≠ .nil then hashBranches newH rest else return newH
  | .nil => some (catAndHash .nil h)
  | _ => none

/-- `validate-inclusion-proof`: `(= (hash-branches leaf hashes) root)`. -/
def validateInclusionProof (leaf hashes root : Val) : Option Bool := do
  numEq (← hashBranches catAndHash leaf hashes) root

theorem numEq_eq_some_true {a b : Val} (h : numEq a b = some true) : a = b := by
  cases a <;> cases b <;> simp_all [numEq]

/-- The root a Merkle path leads to from a leaf: at each level, the sibling and whether it is
on the right. -/
def merkleUp : Val → List (Val × Bool) → Val
  | h, [] => h
  | h, (s, right) :: path => merkleUp (if right then catAndHash h s else catAndHash s h) path

/-- A path as the script takes it: the list of pairs `(sibling . flag)`, `t` for a sibling on
the right. -/
def proofVal : List (Val × Bool) → Val
  | [] => .nil
  | (s, right) :: path => .cons (.cons s (Val.ofBool right)) (proofVal path)

theorem merkleUp_append (h : Val) (p q : List (Val × Bool)) :
    merkleUp catAndHash h (p ++ q) = merkleUp catAndHash (merkleUp catAndHash h p) q := by
  induction p generalizing h with
  | nil => rfl
  | cons e p ih => exact ih _

/-- **`hash-branches` follows the Merkle path** of a non-empty proof. -/
theorem hashBranches_proofVal : ∀ (h : Val) (path : List (Val × Bool)), path ≠ [] →
    hashBranches catAndHash h (proofVal path) = some (merkleUp catAndHash h path)
  | _, [], hne => absurd rfl hne
  | h, (s, right) :: path, _ => by
    cases path with
    | nil => cases right <;> simp [hashBranches, proofVal, merkleUp, Val.ofBool]
    | cons e path =>
      have ih := hashBranches_proofVal (if right then catAndHash h s else catAndHash s h)
        (e :: path) (List.cons_ne_nil _ _)
      rw [proofVal, hashBranches]
      cases right <;> simpa [Val.ofBool, proofVal, merkleUp] using ih

/-- A Merkle tree of Lurk values. -/
inductive MerkleTree
  | leaf (v : Val)
  | node (l r : MerkleTree)

namespace MerkleTree

/-- The root: a leaf's value, and `cat-and-hash` of the children's roots. -/
def root : MerkleTree → Val
  | leaf v => v
  | node l r => catAndHash (l.root) (r.root)

/-- The leaf at a position: its turns from the root down, `true` to the right. -/
def leafAt : MerkleTree → List Bool → Option Val
  | leaf v, [] => some v
  | node l _, false :: pos => l.leafAt pos
  | node _ r, true :: pos => r.leafAt pos
  | _, _ => none

/-- The Merkle path of a position, from the leaf up: the sibling at each level and whether it
is on the right. -/
def pathTo : MerkleTree → List Bool → List (Val × Bool)
  | node l r, false :: pos => l.pathTo pos ++ [(r.root catAndHash, true)]
  | node l r, true :: pos => r.pathTo pos ++ [(l.root catAndHash, false)]
  | _, _ => []

end MerkleTree

open MerkleTree

/-- The turns of a path from the root down, `true` where the sibling is on the left. -/
def turns (path : List (Val × Bool)) : List Bool := (path.map fun e => !e.2).reverse

theorem pathTo_turns : ∀ (t : MerkleTree) (pos : List Bool) (v : Val), t.leafAt pos = some v →
    turns (t.pathTo catAndHash pos) = pos
  | .leaf _, [], _, _ => rfl
  | .node l _, false :: pos, v, h => by
    have ih := pathTo_turns l pos v h
    simp only [turns] at ih
    simp [turns, pathTo, ih]
  | .node _ r, true :: pos, v, h => by
    have ih := pathTo_turns r pos v h
    simp only [turns] at ih
    simp [turns, pathTo, ih]

/-- Completeness: the path of a leaf leads to the root. -/
theorem merkleUp_pathTo : ∀ (t : MerkleTree) (pos : List Bool) (v : Val),
    t.leafAt pos = some v → merkleUp catAndHash v (t.pathTo catAndHash pos) = t.root catAndHash
  | .leaf _, [], _, h => by cases h; rfl
  | .node l r, false :: pos, v, h => by
    rw [pathTo, merkleUp_append, merkleUp_pathTo l pos v h]; rfl
  | .node l r, true :: pos, v, h => by
    rw [pathTo, merkleUp_append, merkleUp_pathTo r pos v h]; rfl

/-- Soundness: where `cat-and-hash` has no collision, a path with the turns of a leaf's
position leads to the root only from that leaf. -/
theorem merkleUp_sound (hinj : ∀ a b c d, catAndHash a b = catAndHash c d → a = c ∧ b = d) :
    ∀ (t : MerkleTree) (pos : List Bool) (v : Val), t.leafAt pos = some v →
      ∀ (x : Val) (path : List (Val × Bool)), turns path = pos →
        merkleUp catAndHash x path = t.root catAndHash → x = v
  | .leaf _, [], v, h, x, path, hp, hr => by
    cases h
    obtain rfl : path = [] := by simpa [turns] using hp
    exact hr
  | .node l r, d :: pos, v, h, x, path, hp, hr => by
    obtain ⟨p, e, rfl⟩ : ∃ p e, path = p ++ [e] := by
      cases path using List.reverseRecOn with
      | nil => simp [turns] at hp
      | append_singleton p e _ => exact ⟨p, e, rfl⟩
    obtain ⟨s, right⟩ := e
    simp only [turns, List.map_append, List.map_singleton, List.reverse_append,
      List.reverse_singleton, List.singleton_append, List.cons.injEq] at hp
    obtain ⟨hd, hpos⟩ := hp
    rw [merkleUp_append] at hr
    cases right
    · obtain rfl : d = true := hd.symm
      simp only [merkleUp, root, Bool.false_eq_true, ↓reduceIte] at hr
      exact merkleUp_sound hinj r pos v h x p hpos (hinj _ _ _ _ hr).2
    · obtain rfl : d = false := hd.symm
      simp only [merkleUp, root, ↓reduceIte] at hr
      exact merkleUp_sound hinj l pos v h x p hpos (hinj _ _ _ _ hr).1

/-- **`validate-inclusion-proof` accepts exactly the tree's leaf.**  For every tree whose
`cat-and-hash` values are numbers and every leaf below its root, the script accepts the leaf
with the tree's siblings against the tree's root; and where `cat-and-hash` has no collision,
it accepts a value with any siblings on the leaf's path only if the value is the leaf. -/
theorem validateInclusionProof_iff (hnum : ∀ a b, ∃ n, catAndHash a b = .num n)
    (t : MerkleTree) (pos : List Bool) (v : Val) (hv : t.leafAt pos = some v) (hpos : pos ≠ []) :
    validateInclusionProof catAndHash v (proofVal (t.pathTo catAndHash pos))
        (t.root catAndHash) = some true ∧
      ((∀ a b c d, catAndHash a b = catAndHash c d → a = c ∧ b = d) →
        ∀ (x : Val) (path : List (Val × Bool)), turns path = pos →
          validateInclusionProof catAndHash x (proofVal path) (t.root catAndHash) = some true →
            x = v) := by
  have hne : ∀ path : List (Val × Bool), turns path = pos → path ≠ [] := by
    rintro path hp rfl; exact hpos hp.symm
  obtain ⟨l, r, rfl⟩ : ∃ l r, t = .node l r := by
    cases t with
    | leaf => cases pos with
      | nil => exact absurd rfl hpos
      | cons => cases hv
    | node l r => exact ⟨l, r, rfl⟩
  obtain ⟨n, hn⟩ := hnum (l.root catAndHash) (r.root catAndHash)
  refine ⟨?_, fun hinj x path hp h => ?_⟩
  · have hp := pathTo_turns catAndHash _ pos v hv
    simp [validateInclusionProof, hashBranches_proofVal catAndHash _ _ (hne _ hp),
      merkleUp_pathTo catAndHash _ pos v hv, root, hn]
  · simp only [validateInclusionProof, hashBranches_proofVal catAndHash _ _ (hne _ hp),
      Option.bind_eq_bind, Option.some_bind] at h
    exact merkleUp_sound catAndHash hinj _ pos v hv x path hp (numEq_eq_some_true h)

end InclusionProof

/-- The first of two leaves, under a `cat-and-hash` that maps everything to `0`. -/
theorem validateInclusionProof_first_of_two :
    (∀ a b : Val, ∃ n, (fun _ _ => Val.num 0 : Val → Val → Val) a b = .num n) ∧
      (MerkleTree.node (.leaf (.num 1)) (.leaf (.num 2))).leafAt [false] = some (.num 1) ∧
      [false] ≠ [] ∧
      validateInclusionProof (fun _ _ => .num 0) (.num 1)
        (proofVal ((MerkleTree.node (.leaf (.num 1)) (.leaf (.num 2))).pathTo
          (fun _ _ => .num 0) [false]))
        ((MerkleTree.node (.leaf (.num 1)) (.leaf (.num 2))).root (fun _ _ => .num 0)) =
        some true := by
  have hnum : ∀ a b : Val, ∃ n, (fun _ _ => Val.num 0 : Val → Val → Val) a b = .num n :=
    fun _ _ => ⟨0, rfl⟩
  have hv : (MerkleTree.node (.leaf (.num 1)) (.leaf (.num 2))).leafAt [false] = some (.num 1) :=
    rfl
  exact ⟨hnum, hv, List.cons_ne_nil _ _,
    (validateInclusionProof_iff _ hnum _ _ _ hv (List.cons_ne_nil _ _)).1⟩

end Ilxd.Lurk
