import Ilxd.World

/-!
# Submissions to consensus

`processBlock` inserts a block into `activeInventory` and calls `NewBlock` when
`CheckConnectBlock` accepts it; it never consults `activeInventory` first.

* `processBlock_submission` — on every branch of one call, its txroot-repair recursion
  included, `NewBlock` is called at most once, for the ID of the block `CheckConnectBlock`
  has just accepted, after inserting that block; the call returns `nil` exactly when it
  submitted, and it never reads `activeInventory`.
* `processBlock_submits_twice` — so a block relayed by two peers is submitted twice: after
  the two arrivals are processed one after the other, the consensus engine holds two
  undecided `NewBlock` submissions for the same ID.
-/

set_option autoImplicit false

namespace Ilxd

/-- Where one `processBlock` call is in submitting a block to consensus. -/
inductive Submission where
  | idle
  | accepted (blockID : ID)
  | registered (blockID : ID)
  | submitted
  deriving DecidableEq, Repr

/-- The submission rule of one call: `NewBlock` only for the block `CheckConnectBlock` has
just accepted, after its insertion into `activeInventory`, and only once; no read of
`activeInventory`. -/
def submitMonitor (s : Submission) : Event → Option Submission
  | ⟨.checkConnectBlock blk, v⟩ =>
    if s = .submitted then none
    else
      match blk, v with
      | some b, .ok => some (.accepted b.ID)
      | _, _ => some .idle
  | ⟨.putInventory blockID _, _⟩ =>
    if s = .accepted blockID then some (.registered blockID) else none
  | ⟨.newBlock blockID _, _⟩ => if s = .registered blockID then some .submitted else none
  | ⟨.getInventory _, _⟩ => none
  | _ => some s

/-- A call returns `nil` exactly when it has submitted. -/
def SubmitsOnOk (s : Submission) (v : Verdict) : Prop := v = .ok ↔ s = .submitted

/-- Every branch of `p`, from no submission, keeps the rule. -/
def SubmitsOnce (p : Prog Verdict) : Prop := p.Safe submitMonitor SubmitsOnOk .idle

section Submission

theorem submitMonitor_peerOp (s : Submission) (e : Event) (h : e.1.isPeerOp = true) :
    submitMonitor s e = some s := by
  obtain ⟨c, r⟩ := e
  cases c <;> first | rfl | cases h

theorem storeOrphan_submitsOnce (blk : Option Block) (p : PeerID) :
    (storeOrphan blk p).Safe submitMonitor SubmitsOnOk .idle := by
  cases blk with
  | none => trivial
  | some b => simp [storeOrphan, perform, Prog.safe_op, submitMonitor, SubmitsOnOk]

theorem submitBlock_submitsOnce (b : Block) :
    (submitBlock (some b)).Safe submitMonitor SubmitsOnOk (.accepted b.ID) := by
  simp [submitBlock, perform, Prog.safe_op, submitMonitor, SubmitsOnOk]

theorem repairFromPeers_submitsOnce {f : Block → Prog Verdict} (hf : ∀ b, SubmitsOnce (f b))
    (k : RuleKind) : ∀ (ps : List PeerID) (cur : Option Block),
      SubmitsOnce (repairFromPeers f (.rule k) ps cur)
  | [], _ => by simp [SubmitsOnce, repairFromPeers, SubmitsOnOk]
  | pid :: ps, cur => (fetchBlockTxids_peerOps cur pid).safe_bind submitMonitor_peerOp fun
    | .ok b => hf b
    | .error _ => repairFromPeers_submitsOnce hf k ps none

theorem onRuleError_submitsOnce {f : Block → Prog Verdict} (hf : ∀ b, SubmitsOnce (f b))
    (blk : Option Block) (p : PeerID) (recheck : Bool) (k : RuleKind) :
    SubmitsOnce (onRuleError f blk p recheck k) := by
  cases recheck
  · cases k with
    | invalidTxRoot =>
      refine (fetchBlockTxids_peerOps blk p).safe_bind submitMonitor_peerOp fun
        | .ok b => hf b
        | .error _ => fun _ => ⟨_, rfl, fun ps => ⟨_, rfl,
            repairFromPeers_submitsOnce hf _ ps none⟩⟩
    | doesNotConnect => simp [SubmitsOnce, onRuleError, perform, Prog.safe_op, submitMonitor,
        SubmitsOnOk]
    | other => simp [SubmitsOnce, onRuleError, perform, Prog.safe_op, submitMonitor, SubmitsOnOk]
  · simp [SubmitsOnce, onRuleError, perform, Prog.safe_op, submitMonitor, SubmitsOnOk]

theorem processBlockStep_submitsOnce {f : Block → Prog Verdict} (hf : ∀ b, SubmitsOnce (f b))
    (blk : Option Block) (p : PeerID) (recheck : Bool) :
    SubmitsOnce (processBlockStep f blk p recheck) := by
  intro v
  cases blk with
  | none =>
    refine ⟨.idle, rfl, ?_⟩
    cases v with
    | orphan => trivial
    | other => simp [SubmitsOnOk]
    | ok => trivial
    | rule k => exact onRuleError_submitsOnce hf none p recheck k
  | some b =>
    cases v with
    | orphan => exact ⟨.idle, rfl, storeOrphan_submitsOnce (some b) p⟩
    | other => exact ⟨.idle, rfl, by simp [SubmitsOnOk]⟩
    | ok => exact ⟨.accepted b.ID, rfl, submitBlock_submitsOnce b⟩
    | rule k => exact ⟨.idle, rfl, onRuleError_submitsOnce hf (some b) p recheck k⟩

/-- **How one `processBlock` call submits.** -/
theorem processBlock_submission (blk : Option Block) (p : PeerID) (recheck : Bool) :
    (processBlock blk p recheck).Safe submitMonitor SubmitsOnOk .idle :=
  processBlockStep_submitsOnce (fun b => processBlockStep_submitsOnce
    (fun _ => show Prog.Safe _ _ .panic _ from trivial) (some b) p true) blk p recheck

end Submission

/-! ## A block relayed twice -/

/-- A block at height 1 whose parent is the genesis tip `0`. -/
def dupBlock : Block := ⟨⟨1, 0, 0⟩, []⟩

/-- Goroutine `i` runs one arrival of `dupBlock` through `handleIncomingBlock`: the
decoding, `CheckConnectBlock`, and the nine commands of the submission. -/
def processArrival (i : Nat) : List Action :=
  .run i (.decoded dupBlock []) :: List.replicate 10 (.run i .unit)

/-- Peer 1 relays `dupBlock`; after that call has returned, peer 2 relays it again.  The
first call's waiter is goroutine 1, so the second call is goroutine 2. -/
def twoArrivals : List Action :=
  .arrive (.incoming ⟨dupBlock.header⟩ 1) :: processArrival 0 ++
    .arrive (.incoming ⟨dupBlock.header⟩ 2) :: processArrival 2

/-- **A block relayed twice is submitted twice**: on a chain at the genesis tip, after the
two arrivals of `dupBlock` have run one after the other, the consensus engine holds two
undecided `NewBlock(dupBlock.ID, ·)` submissions. -/
theorem processBlock_submits_twice :
    ∃ w, (World.init ⟨0, 0, []⟩).Reachable (fun _ => .ok) w ∧
      w.pending = [(dupBlock.ID, 0), (dupBlock.ID, 1)] := by
  obtain ⟨w, hw, hp⟩ := Option.map_eq_some'.1 (show ((World.init ⟨0, 0, []⟩).run
    (fun _ => .ok) twoArrivals).map World.pending = some [(dupBlock.ID, 0), (dupBlock.ID, 1)]
    by decide)
  exact ⟨w, World.run_reachable _ hw, hp⟩

end Ilxd
