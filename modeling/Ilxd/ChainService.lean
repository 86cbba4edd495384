import Ilxd.Types
import Mathlib.Data.Finset.Card

/-!
# The chain-service server (`sync/chainservice.go`)

The three request handlers and the per-request dispatch of `handleNewMessage`, as pure
functions of the node's `fetchBlock` callback:

* `handleGetBlockTxs` — allocates `make([]*Transaction, len(req.TxIndexes))` and, for each
  requested index `idx` in order, answers `BadRequest` when `idx > uint32(len)-1` and
  otherwise stores `resp.Transactions[idx] = blk.Transactions[idx]`: the slot is chosen by
  the index's *value*, not its position in the request.
* `handleGetBlockTxids`, `handleGetBlock`.
* `serve` — what a peer sends back for one request; a handler panic stops the peer's
  process, which the requester sees as a failed stream.

Results: `fillTxs_spec` characterises the loop (it panics as soon as an index reaches the
length of the request, or of an empty block); `handleGetBlockTxs_prefix` and
`handleGetBlockTxs_permutation` show the inputs on which it answers every slot: a request
for a permutation of `0, …, k-1` is answered with the first `k` transactions *in index
order*; `handleGetBlockTxs_misanswers` evaluates it where it departs from
position-preserving answers.
-/

set_option autoImplicit false

namespace Ilxd

/-- `wire.ErrorResponse`. -/
inductive ErrorResponse where
  | None
  | NotFound
  | BadRequest
  deriving DecidableEq, Repr

/-- `wire.GetBlockTxsReq`. -/
structure GetBlockTxsReq where
  blockID : ID
  txIndexes : List UInt32
  deriving DecidableEq, Repr

/-- `*wire.MsgBlockTxsResp` as `handleGetBlockTxs` builds it; `none` is a nil slot of
`make([]*Transaction, n)`. -/
structure BlockTxsReply where
  error : ErrorResponse
  transactions : List (Option Transaction)
  deriving DecidableEq, Repr

/-- `wire.MsgBlockTxsResp` as the requester decodes it: every element is present. -/
structure MsgBlockTxsResp where
  error : ErrorResponse
  transactions : List Transaction
  deriving DecidableEq, Repr

/-- `wire.MsgBlockTxidsResp`. -/
structure MsgBlockTxidsResp where
  error : ErrorResponse
  txids : List ID
  deriving DecidableEq, Repr

/-- `wire.MsgBlockResp`; `block` is `nil` when the message carries none. -/
structure MsgBlockResp where
  error : ErrorResponse
  block : Option Block
  deriving DecidableEq, Repr

/-- `wire.MsgChainServiceRequest`: the three request kinds. -/
inductive Request where
  | getBlockTxs (req : GetBlockTxsReq)
  | getBlockTxids (blockID : ID)
  | getBlock (blockID : ID)
  deriving DecidableEq, Repr

/-- The response message that answers each request kind. -/
@[reducible] def Request.Resp : Request → Type
  | .getBlockTxs _ => MsgBlockTxsResp
  | .getBlockTxids _ => MsgBlockTxidsResp
  | .getBlock _ => MsgBlockResp

/-! ## Handlers -/

/-- The loop of `handleGetBlockTxs`: `none` is the `BadRequest` answer. -/
def fillTxs (txs : List Transaction) :
    List UInt32 → List (Option Transaction) →
      Except RuntimePanic (Option (List (Option Transaction)))
  | [], resp => .ok (some resp)
  | idx :: rest, resp =>
    if uint32Pred txs.length < idx then .ok none
    else do
      let tx ← sliceGet txs idx.toNat
      let resp ← sliceSet resp idx.toNat (some tx)
      fillTxs txs rest resp

/-- `ChainService.handleGetBlockTxs`. -/
def handleGetBlockTxs (fetchBlock : ID → Option Block) (req : GetBlockTxsReq) :
    Except RuntimePanic BlockTxsReply :=
  match fetchBlock req.blockID with
  | none => .ok ⟨.NotFound, []⟩
  | some blk => do
    match ← fillTxs blk.transactions req.txIndexes (List.replicate req.txIndexes.length none) with
    | none => return ⟨.BadRequest, []⟩
    | some slots => return ⟨.None, slots⟩

/-- `ChainService.handleGetBlockTxids`. -/
def handleGetBlockTxids (fetchBlock : ID → Option Block) (blockID : ID) : MsgBlockTxidsResp :=
  match fetchBlock blockID with
  | none => ⟨.NotFound, []⟩
  | some blk => ⟨.None, blk.transactions.map Transaction.ID⟩

/-- `ChainService.handleGetBlock`. -/
def handleGetBlock (fetchBlock : ID → Option Block) (blockID : ID) : MsgBlockResp :=
  match fetchBlock blockID with
  | none => ⟨.NotFound, none⟩
  | some blk => ⟨.None, some blk⟩

/-- Decoding the handler's reply on the requester's side: protobuf writes a nil element as an
empty message, which decodes to `nilTx`. -/
def BlockTxsReply.decode (nilTx : Transaction) (r : BlockTxsReply) : MsgBlockTxsResp :=
  ⟨r.error, r.transactions.map (·.getD nilTx)⟩

/-- One request of `handleNewMessage`'s loop, as the requesting peer sees it: the handler's
response, or a failed stream when the handler panics. -/
def serve (fetchBlock : ID → Option Block) (nilTx : Transaction) :
    (req : Request) → Except String req.Resp
  | .getBlockTxs r =>
    match handleGetBlockTxs fetchBlock r with
    | .error _ => .error "stream reset"
    | .ok reply => .ok (reply.decode nilTx)
  | .getBlockTxids blockID => .ok (handleGetBlockTxids fetchBlock blockID)
  | .getBlock blockID => .ok (handleGetBlock fetchBlock blockID)

/-! ## What the `GetBlockTxs` handler computes -/

/-- Slot `j` after the loop stored every index of `is` by value. -/
def slotsByValue (txs : List Transaction) (is : List UInt32) (j : Nat) : Option Transaction :=
  if is.any (·.toNat == j) then txs[j]? else none

theorem fillTxs_cons_ok {txs : List Transaction} {idx : UInt32} {rest : List UInt32}
    {resp : List (Option Transaction)} (hn : txs.length < 2 ^ 32) (h : idx.toNat < txs.length)
    (hr : idx.toNat < resp.length) :
    fillTxs txs (idx :: rest) resp =
      fillTxs txs rest (resp.set idx.toNat (some txs[idx.toNat])) := by
  have hb : ¬ uint32Pred txs.length < idx := by rw [uint32Pred_lt_iff idx hn]; omega
  simp only [fillTxs, hb, if_false, sliceGet_of_lt h, sliceSet_of_lt _ hr]
  rfl

/-- **The loop on in-range indices**: when every index is below both the block's and the
request's length, slot `j` holds `txs[j]` if `j` was requested and stays nil otherwise. -/
theorem fillTxs_spec {txs : List Transaction} (hn : txs.length < 2 ^ 32) :
    ∀ (is : List UInt32) (resp : List (Option Transaction)),
      (∀ i ∈ is, i.toNat < txs.length ∧ i.toNat < resp.length) →
      ∃ slots, fillTxs txs is resp = .ok (some slots) ∧ slots.length = resp.length ∧
        ∀ j < resp.length, slots[j]? = if is.any (·.toNat == j) then some txs[j]? else resp[j]?
  | [], resp, _ => ⟨resp, rfl, rfl, fun j _ => by simp⟩
  | idx :: rest, resp, h => by
    obtain ⟨h1, h2⟩ := h idx (List.mem_cons_self _ _)
    obtain ⟨slots, hs, hl, hj⟩ := fillTxs_spec hn rest (resp.set idx.toNat (some txs[idx.toNat]))
      (fun i hi => by simpa using h i (List.mem_cons_of_mem _ hi))
    refine ⟨slots, by rw [fillTxs_cons_ok hn h1 h2, hs], by simpa using hl, fun j hj' => ?_⟩
    rw [hj j (by simpa using hj')]
    by_cases e : idx.toNat = j
    · subst e; simp [List.getElem?_set, h1, h2]
    · simp [List.getElem?_set, e, Ne.symm e]

/-- A request index at or past the request's own length makes the store
`resp.Transactions[idx]` panic, unless an earlier index was answered `BadRequest`. -/
theorem fillTxs_panics {txs : List Transaction} {idx : UInt32} {rest : List UInt32}
    {resp : List (Option Transaction)} (hn : txs.length < 2 ^ 32) (h : idx.toNat < txs.length)
    (hr : resp.length ≤ idx.toNat) :
    fillTxs txs (idx :: rest) resp = .error .indexOutOfRange := by
  have hb : ¬ uint32Pred txs.length < idx := by rw [uint32Pred_lt_iff idx hn]; omega
  simp only [fillTxs, hb, if_false, sliceGet_of_lt h, sliceSet_of_le _ hr]
  rfl

/-- On an empty block the bound `uint32(0)-1` wraps, no index is `BadRequest`, and the
read `blk.Transactions[idx]` panics. -/
theorem fillTxs_empty_block (idx : UInt32) (rest : List UInt32)
    (resp : List (Option Transaction)) :
    fillTxs [] (idx :: rest) resp = .error .indexOutOfRange := by
  have hb : ¬ uint32Pred 0 < idx := by rw [uint32Pred_lt_iff idx (by decide)]; simp
  simp only [fillTxs, List.length_nil, hb, if_false, sliceGet_of_le (List.length_nil.trans_le
    (Nat.zero_le idx.toNat))]
  rfl

/-- **The handler on in-range indices**: when every index is below both lengths, it answers
`None`, each requested slot holding the transaction of that *value*, the others nil. -/
theorem handleGetBlockTxs_prefix (fetchBlock : ID → Option Block) (req : GetBlockTxsReq)
    (blk : Block) (hf : fetchBlock req.blockID = some blk) (hn : blk.transactions.length < 2 ^ 32)
    (hlt : ∀ i ∈ req.txIndexes,
      i.toNat < blk.transactions.length ∧ i.toNat < req.txIndexes.length) :
    ∃ slots, handleGetBlockTxs fetchBlock req = .ok ⟨.None, slots⟩ ∧
      slots.length = req.txIndexes.length ∧
      ∀ j < slots.length, slots[j]? = some (slotsByValue blk.transactions req.txIndexes j) := by
  obtain ⟨slots, hs, hl, hj⟩ := fillTxs_spec hn req.txIndexes
    (List.replicate req.txIndexes.length none) (by simpa using hlt)
  refine ⟨slots, ?_, by simpa using hl, fun j hj' => ?_⟩
  · simp only [handleGetBlockTxs, hf, hs]; rfl
  · rw [hj j (by simpa [hl] using hj')]
    simp only [slotsByValue]
    split <;> simp_all

/-! ## Requests for a permutation of `0, …, k-1` -/

/-- Distinct values below `n` in a list of length `n` cover every position below `n`. -/
theorem exists_toNat_eq_of_nodup {M : List UInt32} (hd : M.Nodup)
    (hM : ∀ m ∈ M, m.toNat < M.length) {j : Nat} (hj : j < M.length) :
    ∃ m ∈ M, m.toNat = j := by
  have hinj : (M.map UInt32.toNat).Nodup := hd.map (fun _ _ => UInt32.toNat.inj)
  have hsub : (M.map UInt32.toNat).toFinset ⊆ Finset.range M.length := by
    intro x hx
    simp only [List.mem_toFinset, List.mem_map] at hx
    obtain ⟨m, hm, rfl⟩ := hx
    simpa using hM m hm
  have heq := Finset.eq_of_subset_of_card_le hsub (by
    rw [List.toFinset_card_of_nodup hinj]; simp)
  have : j ∈ (M.map UInt32.toNat).toFinset := heq ▸ Finset.mem_range.2 hj
  simpa using this

section Permutation

variable {n : Nat} {M : List UInt32} (hd : M.Nodup)
  (hM : ∀ m ∈ M, m.toNat < n ∧ m.toNat < M.length)
include hd hM

theorem any_toNat_eq_of_nodup {j : Nat} (hj : j < M.length) : M.any (·.toNat == j) = true := by
  obtain ⟨m, hm, rfl⟩ := exists_toNat_eq_of_nodup hd (fun m h => (hM m h).2) hj
  exact List.any_eq_true.2 ⟨m, hm, by simp⟩

theorem lt_of_lt_length_of_nodup {j : Nat} (hj : j < M.length) : j < n := by
  obtain ⟨m, hm, rfl⟩ := exists_toNat_eq_of_nodup hd (fun m h => (hM m h).2) hj
  exact (hM m hm).1

theorem length_le_of_nodup : M.length ≤ n := by
  rcases Nat.eq_zero_or_pos M.length with h0 | hpos
  · omega
  · have := lt_of_lt_length_of_nodup hd hM (Nat.sub_lt hpos Nat.one_pos); omega

end Permutation

/-- The handler's slots for such a request are the block's first `len(M)` transactions. -/
theorem handleGetBlockTxs_permutation (fetch : ID → Option Block) (blockID : ID) (B : Block)
    (M : List UInt32) (hf : fetch blockID = some B) (hn : B.transactions.length < 2 ^ 32)
    (hd : M.Nodup) (hM : ∀ m ∈ M, m.toNat < B.transactions.length ∧ m.toNat < M.length) :
    handleGetBlockTxs fetch ⟨blockID, M⟩ =
      .ok ⟨.None, (B.transactions.take M.length).map some⟩ := by
  obtain ⟨slots, hs, hl, hj⟩ := handleGetBlockTxs_prefix fetch ⟨blockID, M⟩ B hf hn hM
  rw [hs]
  congr
  apply List.ext_getElem?
  intro j
  by_cases hjl : j < M.length
  · rw [hj j (by simpa [hl] using hjl), slotsByValue, if_pos (any_toNat_eq_of_nodup hd hM hjl)]
    simp [hjl, lt_of_lt_length_of_nodup hd hM hjl]
  · rw [List.getElem?_eq_none (by simp at hl; omega), List.getElem?_eq_none (by simp; omega)]

/-- **Where the handler departs from position-preserving answers**: on an empty block the
request `[0]` panics where `BadRequest` is due; on the block `[10, 11]` the request `[1, 0]`
is answered `[10, 11]`, not `[11, 10]`, and the request `[1]` panics. -/
theorem handleGetBlockTxs_misanswers :
    handleGetBlockTxs (fun _ => some ⟨⟨1, 0, 0⟩, []⟩) ⟨7, [0]⟩ = .error .indexOutOfRange ∧
    handleGetBlockTxs (fun _ => some ⟨⟨1, 0, 0⟩, [⟨10⟩, ⟨11⟩]⟩) ⟨7, [1, 0]⟩ =
      .ok ⟨.None, [some ⟨10⟩, some ⟨11⟩]⟩ ∧
    handleGetBlockTxs (fun _ => some ⟨⟨1, 0, 0⟩, [⟨10⟩, ⟨11⟩]⟩) ⟨7, [1]⟩ =
      .error .indexOutOfRange := by
  refine ⟨?_, (handleGetBlockTxs_permutation _ 7 ⟨⟨1, 0, 0⟩, [⟨10⟩, ⟨11⟩]⟩ [1, 0] rfl
    (by decide) (by decide) (by decide)).trans rfl, ?_⟩
  · simp only [handleGetBlockTxs, fillTxs_empty_block]; rfl
  · simp only [handleGetBlockTxs]
    rw [fillTxs_panics] <;> first | rfl | decide

end Ilxd
