import Ilxd.Locks

/-!
# What the coordinator does with peers' answers

* Ban scores (§4.1).  `BansOnly p` asks that every `IncreaseBanscore` of a run targets `p`.
  `processBlock_bansOnly` — `processBlock` only ever penalises its relaying peer; but
  `handleIncomingBlock_penalises_helper` — `decodeXthinner` asks every connected peer for
  the missing transactions through `ChainService.GetBlockTxs`, which adds 50 to a helper
  that answers with the wrong number of transactions, against the comment at lines 374–376.
* The txroot repair.  `repairFromPeers_derefs_nil` — once the relaying peer's repair has
  failed, the shadowed `blk` is `nil` and the first connected peer's repair dereferences
  it; `processBlock_repair_panics` runs `processBlock` into that panic.
* `GetBlock`.  `getBlock_returns_response_block` — it returns whatever block the response
  carries (`nil`, or a block of another ID) and fails only on a transport error or a
  non-`None` error field; `fetchRequested_trusts_getBlock` — `requestBlock`'s lines
  428–447 hand that block to `processBlock` unchecked.
-/

set_option autoImplicit false

namespace Ilxd

/-! ## Ban scores -/

/-- The command is no ban-score increase for a peer other than `p`. -/
def Cmd.bansOnly (p : PeerID) : Cmd → Bool
  | .increaseBanscore q _ _ => q == p
  | _ => true

/-- Every `IncreaseBanscore` on every branch of `prog` targets `p`. -/
def BansOnly {α : Type} (p : PeerID) (prog : Prog α) : Prop := prog.All (Cmd.bansOnly p)

section BansOnly

variable {α β : Type} {p : PeerID}

theorem getBlockTxids_bansOnly (q : PeerID) (blockID : ID) :
    BansOnly p (getBlockTxids q blockID) := by
  refine ⟨rfl, fun r => ?_⟩
  rcases r with e | resp
  · trivial
  · simp only [Prog.ret_bind]; split_ifs <;> trivial

theorem getBlockTxs_bansOnly (blockID : ID) (is : List UInt32) :
    BansOnly p (getBlockTxs p blockID is) := by
  refine ⟨rfl, fun r => ?_⟩
  rcases r with e | resp
  · trivial
  · simp only [Prog.ret_bind]; split_ifs <;> simp [perform, Cmd.bansOnly]

theorem getBlockTxsInto_bansOnly (blockID : ID) (blk : Block) (missing : List UInt32) :
    BansOnly p (getBlockTxsInto p blockID blk missing) :=
  Prog.All.bind (getBlockTxs_bansOnly blockID missing) fun
    | .error _ => trivial
    | .ok _ => Prog.All.bind (orPanic_all _ _) fun _ => trivial

theorem fetchBlockTxids_bansOnly (blk : Block) :
    BansOnly p (fetchBlockTxids (some blk) p) := by
  refine Prog.All.bind (getBlockTxids_bansOnly p blk.ID) fun r => ?_
  rcases r with e | txids
  · trivial
  · dsimp only
    split_ifs
    exacts [trivial, trivial, getBlockTxsInto_bansOnly blk.ID blk _]

theorem storeOrphan_bansOnly (blk : Option Block) (q : PeerID) :
    BansOnly p (storeOrphan blk q) := by
  cases blk <;> simp [BansOnly, storeOrphan, perform, Cmd.bansOnly]

theorem submitBlock_bansOnly (blk : Option Block) : BansOnly p (submitBlock blk) := by
  cases blk <;> simp [BansOnly, submitBlock, perform, Cmd.bansOnly]

/-- The helper loop never reaches a ban: its first repair dereferences `nil`. -/
theorem repairFromPeers_bansOnly {f : Block → Prog Verdict} (err : Verdict) (ps : List PeerID) :
    BansOnly p (repairFromPeers f err ps none) := by
  cases ps <;> trivial

theorem processBlockStep_bansOnly {f : Block → Prog Verdict} (hf : ∀ b, BansOnly p (f b))
    (blk : Option Block) (recheck : Bool) : BansOnly p (processBlockStep f blk p recheck) := by
  refine ⟨rfl, fun v => ?_⟩
  simp only [Prog.ret_bind]
  cases v with
  | orphan => exact storeOrphan_bansOnly blk p
  | other => trivial
  | ok => exact submitBlock_bansOnly blk
  | rule k =>
    cases recheck
    · cases k with
      | invalidTxRoot =>
        cases blk with
        | none => trivial
        | some blk =>
          refine Prog.All.bind (fetchBlockTxids_bansOnly blk) fun
            | .ok b => hf b
            | .error _ => ?_
          exact ⟨by simp [Cmd.bansOnly], fun _ => ⟨rfl, fun ps => repairFromPeers_bansOnly _ ps⟩⟩
      | doesNotConnect | other => simp [BansOnly, onRuleError, perform, Cmd.bansOnly]
    · simp [BansOnly, onRuleError, perform, Cmd.bansOnly]

/-- **`processBlock` only penalises its relaying peer.** -/
theorem processBlock_bansOnly (blk : Option Block) (recheck : Bool) :
    BansOnly p (processBlock blk p recheck) :=
  processBlockStep_bansOnly (fun b => @processBlockStep_bansOnly p (fun _ => .panic)
    (fun _ => trivial) (some b) true) blk recheck

end BansOnly

/-- The announcement, relaying peer and helper of the failing run of `handleIncomingBlock`. -/
def helperRun : XThinnerBlock × PeerID × PeerID := (⟨⟨1, 0, 0⟩⟩, 1, 2)

/-- **`decodeXthinner` penalises a helper peer**: the relaying peer `1` answers `NotFound`,
the connected peer `2` answers `None` with no transaction for the one missing slot, and
`GetBlockTxs` adds 50 to peer `2`'s ban score. -/
theorem handleIncomingBlock_penalises_helper :
    ¬ BansOnly helperRun.2.1 (handleIncomingBlock helperRun.1 helperRun.2.1) := fun h =>
  absurd (Prog.All.replay [.decoded ⟨⟨1, 0, 0⟩, [⟨5⟩]⟩ [0], .txs (.ok ⟨.NotFound, []⟩), .unit,
    .peers [2], .txs (.ok ⟨.None, []⟩), .unit] h) (by decide)

/-! ## The txroot repair -/

/-- **The helper repair starts from `nil`.** -/
theorem repairFromPeers_derefs_nil (f : Block → Prog Verdict) (err : Verdict) (q : PeerID)
    (qs : List PeerID) : repairFromPeers f err (q :: qs) none = .panic := rfl

/-- The block of the failing run of the txroot repair. -/
def repairRunBlock : Block := ⟨⟨1, 0, 0⟩, [⟨5⟩]⟩

/-- **`processBlock` panics on a helper repair**: `CheckConnectBlock` reports
`ErrInvalidTxRoot`, the relaying peer `1`'s `GetBlockTxids` fails, peer `2` is connected,
and `fetchBlockTxids(nil, 2)` dereferences `nil`. -/
theorem processBlock_repair_panics :
    ((processBlock (some repairRunBlock) 1 false).replay
      [.verdict (.rule .invalidTxRoot), .txids (.error "stream reset"), .unit, .peers [2]]).2 =
      .panic :=
  -- the repair loop is entered with the block the failed fetch left: `nil`
  (show _ = repairFromPeers (fun b => processBlock (some b) 1 true) (.rule .invalidTxRoot) [2]
    none from rfl).trans (repairFromPeers_derefs_nil _ _ 2 [])

/-! ## `GetBlock` and `requestBlock` -/

/-- What `GetBlock` makes of the RPC's outcome. -/
def getBlockResult : Except String MsgBlockResp → Except String (Option Block)
  | .error e => .error e
  | .ok resp =>
    if resp.error ≠ .None then .error ("error response from peer: " ++ resp.error.text)
    else .ok resp.block

/-- **`GetBlock` passes the response's block through**: on every answer `r` it returns
`getBlockResult r` — an error exactly for a transport failure or a non-`None` error, and
otherwise the block as sent. -/
theorem getBlock_returns_response_block (p : PeerID) (blockID : ID)
    (r : Except String MsgBlockResp) :
    ((getBlock p blockID).replay [.blockResp r]).2 = .ret (getBlockResult r) := by
  rcases r with e | resp
  · rfl
  · simp only [getBlock, getBlockResult, Prog.bind_eq, perform_bind, Prog.replay, Cmd.ofHint,
      Hint.response?, Prog.ret_bind]
    split_ifs <;> rfl

/-- A block whose ID differs from the one requested. -/
def foreignBlock : Block := ⟨⟨3, 0, 0⟩, []⟩

/-- **`GetBlock` accepts a block of another ID**: asked for block `0`, a peer answering
`None` with `foreignBlock` makes `GetBlock` return that block without error. -/
theorem getBlock_accepts_foreign_block :
    ((getBlock 1 0).replay [.blockResp (.ok ⟨.None, some foreignBlock⟩)]).2 =
      .ret (.ok (some foreignBlock)) ∧ foreignBlock.ID ≠ 0 :=
  ⟨(getBlock_returns_response_block 1 0 _).trans rfl, by decide⟩

/-- **`requestBlock` (lines 428–447) trusts `GetBlock`**: for every response `r`, it hands
`getBlockResult r` — the response's block as sent, `nil` or of any ID — to `processBlock` and
schedules the cleanup, and on an error removes the request under the inflight lock without
processing anything. -/
theorem fetchRequested_trusts_getBlock (blockID : ID) (p : PeerID)
    (r : Except String MsgBlockResp) :
    ((fetchRequested blockID p).replay [.unit, .unit, .unit, .blockResp r]).2 =
      (match getBlockResult r with
        | .ok b => (processBlock b p false).bind fun _ =>
            perform (.afterFunc (.clearInflight blockID))
        | .error _ => do
          perform (.lock .inflight .write)
          perform (.deleteInflight blockID)
          perform (.unlock .inflight .write)) := by
  rcases r with e | ⟨err, b⟩
  · rfl
  · cases err <;> rfl

end Ilxd
