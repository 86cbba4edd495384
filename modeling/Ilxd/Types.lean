import Mathlib.Data.Nat.Pairing
import Mathlib.Algebra.Group.Nat.Basic
import Mathlib.Tactic.Common

/-!
# Data model of the block-ingestion pipeline

Shallow embedding of the types the coordinator (`server.go`) and the chain service
(`sync/chainservice.go`) read:

* `Transaction` — the core reads a transaction only through `tx.ID()`, so a transaction is
  modelled by that identifier.
* `BlockHeader` / `Block` / `XThinnerBlock` — the header fields read by the coordinator
  (`Height`) and by the chain view (`Parent`, `TxRoot`); `ID()` hashes the header, idealised
  as the injective Cantor pairing of its fields (`BlockHeader.ID_inj`).
* Go slice indexing `xs[i]` and the store `xs[i] = v`, which panic out of range
  (`sliceGet`, `sliceSet`), and the `uint32` bound check of `handleGetBlockTxs`
  (`uint32Pred_lt_iff`).
-/

set_option autoImplicit false

namespace Ilxd

/-- `types.ID`: a 32-byte hash, modelled by a natural number. -/
abbrev ID := Nat

/-- `peer.ID`. -/
abbrev PeerID := Nat

/-- `transactions.Transaction`, seen through `tx.ID()`. -/
structure Transaction where
  txid : ID
  deriving DecidableEq, Repr

/-- `tx.ID()`. -/
def Transaction.ID (tx : Transaction) : ID := tx.txid

/-- `blocks.BlockHeader`: the fields read by the coordinator and the chain view. -/
structure BlockHeader where
  height : Nat
  parent : ID
  txRoot : ID
  deriving DecidableEq, Repr

/-- `BlockHeader.ID()`: the header hash, idealised as an injective encoding. -/
def BlockHeader.ID (h : BlockHeader) : ID := Nat.pair h.height (Nat.pair h.parent h.txRoot)

theorem BlockHeader.ID_inj {h h' : BlockHeader} (e : h.ID = h'.ID) : h = h' := by
  obtain ⟨a, b, c⟩ := h
  obtain ⟨a', b', c'⟩ := h'
  simp only [BlockHeader.ID, Nat.pair_eq_pair] at e
  obtain ⟨rfl, rfl, rfl⟩ := e
  rfl

/-- `blocks.Block`. -/
structure Block where
  header : BlockHeader
  transactions : List Transaction
  deriving DecidableEq, Repr

/-- `blk.ID()`. -/
def Block.ID (b : Block) : ID := b.header.ID

/-- `blk.Header.Height`. -/
def Block.height (b : Block) : Nat := b.header.height

/-- Two blocks share an `ID()` exactly when they share a header. -/
theorem Block.ID_eq_iff {b b' : Block} : b.ID = b'.ID ↔ b.header = b'.header :=
  ⟨BlockHeader.ID_inj, fun h => by simp only [Block.ID, h]⟩

/-- Blocks at different heights have different IDs. -/
theorem Block.ID_ne_of_height_ne {b b' : Block} (h : b.height ≠ b'.height) : b.ID ≠ b'.ID :=
  fun e => h (congrArg BlockHeader.height (Block.ID_eq_iff.1 e))

/-- `blocks.XThinnerBlock`: its header; the fingerprint list is read only by the
mempool decoder, which is a collaborator. -/
structure XThinnerBlock where
  header : BlockHeader
  deriving DecidableEq, Repr

/-- `xThinnerBlk.ID()`: the ID of the block it encodes. -/
def XThinnerBlock.ID (x : XThinnerBlock) : ID := x.header.ID

/-! ## Go runtime: slices -/

/-- Run-time panics of the Go code (a panic in a goroutine stops the process). -/
inductive RuntimePanic where
  | indexOutOfRange
  | sliceBoundsOutOfRange
  | nilDereference
  deriving DecidableEq, Repr

variable {α : Type}

/-- `xs[i]`. -/
def sliceGet (xs : List α) (i : Nat) : Except RuntimePanic α :=
  match xs[i]? with
  | some x => .ok x
  | none => .error .indexOutOfRange

/-- `xs[i] = v`. -/
def sliceSet (xs : List α) (i : Nat) (v : α) : Except RuntimePanic (List α) :=
  if i < xs.length then .ok (xs.set i v) else .error .indexOutOfRange

theorem sliceGet_eq_ok {xs : List α} {i : Nat} {x : α} :
    sliceGet xs i = .ok x ↔ xs[i]? = some x := by
  unfold sliceGet; cases h : xs[i]? <;> simp

theorem sliceGet_of_lt {xs : List α} {i : Nat} (h : i < xs.length) :
    sliceGet xs i = .ok xs[i] := by
  simp [sliceGet_eq_ok, h]

theorem sliceGet_of_le {xs : List α} {i : Nat} (h : xs.length ≤ i) :
    sliceGet xs i = .error .indexOutOfRange := by
  simp [sliceGet, List.getElem?_eq_none h]

@[simp] theorem sliceSet_of_lt {xs : List α} {i : Nat} (v : α) (h : i < xs.length) :
    sliceSet xs i v = .ok (xs.set i v) := if_pos h

@[simp] theorem sliceSet_of_le {xs : List α} {i : Nat} (v : α) (h : xs.length ≤ i) :
    sliceSet xs i v = .error .indexOutOfRange := if_neg (by omega)

/-! ## `uint32` arithmetic -/

/-- `uint32(n) - 1`, which wraps to `2^32 - 1` on an empty block. -/
def uint32Pred (n : Nat) : UInt32 := UInt32.ofNat n - 1

/-- `idx > uint32(n)-1` is `n ≤ idx` for a non-empty slice and never holds for an
empty one. -/
theorem uint32Pred_lt_iff (idx : UInt32) {n : Nat} (hn : n < 2 ^ 32) :
    uint32Pred n < idx ↔ n ≠ 0 ∧ n ≤ idx.toNat := by
  unfold uint32Pred
  rcases Nat.eq_zero_or_pos n with rfl | hpos
  · have hw : (UInt32.ofNat 0 - 1).toBitVec.toNat = 2 ^ 32 - 1 := by decide
    have := idx.toNat_lt_size
    simp only [UInt32.lt_def, BitVec.lt_def, hw, UInt32.toNat, UInt32.size] at this ⊢
    omega
  · have h1 : (UInt32.ofNat n - 1).toBitVec.toNat = n - 1 := by
      rw [← UInt32.toNat.eq_def, UInt32.toNat_sub_of_le]
      · rw [UInt32.toNat_ofNat_of_lt hn]; rfl
      · simp only [UInt32.le_def, BitVec.le_def, UInt32.toBitVec_eq_of_lt hn]
        exact hpos
    simp only [UInt32.lt_def, BitVec.lt_def, h1, UInt32.toNat]
    omega

end Ilxd
