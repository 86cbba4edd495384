import Ilxd.Peers

/-!
# The `GetBlockTxs` round trip

Client code run against one peer (`Prog.against`): each RPC is answered by that peer's
`serve`, built on its `fetchBlock`.

* `getBlockTxsInto_serve` — for distinct requested indices below both the block's length and
  the request's length, the round trip writes the peer's transaction at *position* `i` of the
  block into slot `missing[i]`: the handler files each transaction under its index value and
  the client reads the answer by position.
* `getBlockTxs_roundTrip_misplaces` — the request `[1, 0]` swaps the two transactions, and
  the repair `fetchBlockTxids` of a block whose second transaction differs asks for `[1]`,
  which the peer's handler cannot store in a one-slot answer: the repair fails.
-/

set_option autoImplicit false

namespace Ilxd

/-- How client code ends against a peer. -/
inductive Outcome (α : Type) where
  | returned (a : α)
  | panicked
  | blocked
  deriving DecidableEq, Repr

/-- Run client code against a peer that answers each request with `answer`; ban-score
increases have no effect on the result, and any other command blocks. -/
def Prog.against {α : Type} (answer : (req : Request) → Except String req.Resp) :
    Prog α → Outcome α
  | .ret a => .returned a
  | .panic => .panicked
  | .op (.sendRequest _ req) k => (k (answer req)).against answer
  | .op (.increaseBanscore _ _ _) k => (k ()).against answer
  | .op _ _ => .blocked

/-- Continue an outcome. -/
def Outcome.bind {α β : Type} (o : Outcome α) (f : α → Outcome β) : Outcome β :=
  match o with
  | .returned a => f a
  | .panicked => .panicked
  | .blocked => .blocked

theorem Prog.against_bind {α β : Type} (answer : (req : Request) → Except String req.Resp)
    (p : Prog α) (f : α → Prog β) :
    (p.bind f).against answer = (p.against answer).bind fun a => (f a).against answer := by
  induction p with
  | ret a => rfl
  | panic => rfl
  | op c k ih => cases c <;> simp only [Prog.op_bind, Prog.against, ih] <;> rfl

/-! ## The round trip on in-range, distinct indices -/

/-- **The round trip writes the answer by position**: with distinct requested indices
below both lengths, the local block is patched with the peer's first `len(M)` transactions,
slot `M[i]` receiving transaction `i`. -/
theorem getBlockTxsInto_serve (fetch : ID → Option Block) (nilTx : Transaction) (p : PeerID)
    (blockID : ID) (B b : Block) (M : List UInt32) (hf : fetch blockID = some B)
    (hn : B.transactions.length < 2 ^ 32) (hd : M.Nodup)
    (hM : ∀ m ∈ M, m.toNat < B.transactions.length ∧ m.toNat < M.length) :
    (getBlockTxsInto p blockID b M).against (serve fetch nilTx) =
      match patchTransactions b M (B.transactions.take M.length) with
      | .ok b' => .returned (.ok b')
      | .error _ => .panicked := by
  have hlen : (B.transactions.take M.length).length = M.length := by
    simpa using length_le_of_nodup hd hM
  simp only [getBlockTxsInto, getBlockTxs, Prog.bind_eq, perform_bind, Prog.map_eq,
    Prog.against_bind, Prog.against, serve,
    handleGetBlockTxs_permutation fetch blockID B M hf hn hd hM, BlockTxsReply.decode]
  simp [Function.comp_def, hlen, Outcome.bind, Prog.against]
  cases patchTransactions b M (List.take M.length B.transactions) <;> rfl

/-! ## A failing input -/

/-- The peer's block: transactions `10` and `11`. -/
def servedBlock : Block := ⟨⟨1, 0, 0⟩, [⟨10⟩, ⟨11⟩]⟩

/-- **The round trip misplaces transactions.**  Requesting slots `[1, 0]` of a local copy
`[20, 21]` of `servedBlock` yields `[11, 10]`, not `[10, 11]`; and repairing the local
copy `[10, 21]` requests slot `[1]`, whose answer the peer's handler stores at index `1`
of a one-slot response, so the handler panics and the repair fails. -/
theorem getBlockTxs_roundTrip_misplaces (nilTx : Transaction) :
    (getBlockTxsInto 1 servedBlock.ID ⟨⟨1, 0, 0⟩, [⟨20⟩, ⟨21⟩]⟩ [1, 0]).against
        (serve (fun _ => some servedBlock) nilTx) =
      .returned (.ok ⟨⟨1, 0, 0⟩, [⟨11⟩, ⟨10⟩]⟩) ∧
    (fetchBlockTxids (some ⟨⟨1, 0, 0⟩, [⟨10⟩, ⟨21⟩]⟩) 1).against
        (serve (fun _ => some servedBlock) nilTx) =
      .returned (.error "stream reset") :=
  ⟨(getBlockTxsInto_serve (fun _ => some servedBlock) nilTx 1 servedBlock.ID servedBlock
    ⟨⟨1, 0, 0⟩, [⟨20⟩, ⟨21⟩]⟩ [1, 0] rfl (by decide) (by decide) (by decide)).trans rfl, rfl⟩

end Ilxd
