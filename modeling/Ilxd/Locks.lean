import Ilxd.Server

/-!
# Lock discipline of the coordinator (spec §5)

The spec's locking rule as a monitor over a goroutine's events (`lockMonitor`): a lock is
never requested, in either mode, while it is held; a release matches a holding; no
collaborator is called (`CheckConnectBlock`, `NewBlock`, `ConnectBlock`, `GetBlockByID`,
an RPC, … — re-entering `processBlock` starts with `CheckConnectBlock`) while a lock is
held, unless `exempt` allows it; and every holding is released when the code returns.
`LockDisciplined exempt p` asks this of every branch of `p`.

Results:
* `fetchBlock_holds_lock_across_getBlockByID` — `fetchBlock` calls `GetBlockByID` while it
  holds `inventoryLock` for reading (its `RUnlock` is deferred).
* `processBlock_lockDisciplined`, `fetchRequested_lockDisciplined`,
  `clearInflight_lockDisciplined` — every branch keeps the discipline, the txroot-repair
  recursion included.
* `waiter_lockDisciplined_until_reentry` — the finalize waiter keeps it up to the point
  where it re-enters `processBlock` for an orphan while still holding `orphanLock`;
  `requestBlock_lockDisciplined_until_recheck` — `requestBlock` keeps it up to its second
  `RLock`.
* `coordinator_lock_discipline` — the above, with `fetchBlock`'s read holding across
  `GetBlockByID` as its one exemption.
-/

set_option autoImplicit false

namespace Ilxd

/-- The locks a goroutine holds, with their modes. -/
abbrev Holdings := List (LockName × Mode)

/-- `lock` and `unlock` commands. -/
def Cmd.isLockOp : Cmd → Bool
  | .lock _ _ | .unlock _ _ => true
  | _ => false

/-- The locking rule of §5; `exempt held c` allows the collaborator call `c` under `held`. -/
def lockMonitor (exempt : Holdings → Cmd → Bool) : Monitor Holdings := fun held e =>
  match e.1 with
  | .lock l m => if held.any (·.1 == l) then none else some ((l, m) :: held)
  | .unlock l m => if (l, m) ∈ held then some (held.erase (l, m)) else none
  | c => if c.isCollaborator && !held.isEmpty && !exempt held c then none else some held

/-- No exemption: the rule as the spec states it. -/
def noExemption : Holdings → Cmd → Bool := fun _ _ => false

/-- Every branch of `p` keeps the locking rule and returns holding nothing. -/
def LockDisciplined {α : Type} (exempt : Holdings → Cmd → Bool) (p : Prog α) : Prop :=
  p.Safe (lockMonitor exempt) (fun held _ => held = []) []

/-- Stop monitoring after the first event that `stop` selects. -/
def Monitor.untilEvent {σ : Type} (stop : Event → Bool) (mon : Monitor σ) : Monitor (Option σ)
  | none, _ => some none
  | some s, e => (mon s e).map fun s' => if stop e then none else some s'

/-- The locking rule on every branch, up to its first `stop` event. -/
def LockDisciplinedUntil {α : Type} (exempt : Holdings → Cmd → Bool) (stop : Event → Bool)
    (p : Prog α) : Prop :=
  p.Safe ((lockMonitor exempt).untilEvent stop) (fun s _ => s = none ∨ s = some []) (some [])

/-- The waiter has found an orphan to re-enter. -/
def isOrphanReentry : Event → Bool
  | ⟨.orphanAtHeight _, some _⟩ => true
  | _ => false

/-- `requestBlock`'s membership check found the block not in flight. -/
def isNotInFlight : Event → Bool
  | ⟨.hasInflight _, false⟩ => true
  | _ => false

/-- `fetchBlock`'s deferred read holding across `GetBlockByID`. -/
def fetchBlockExemption (held : Holdings) : Cmd → Bool
  | .getBlockByID _ => held == [(.inventory, .read)]
  | _ => false

/-- Once stopped, an `untilEvent` monitor accepts everything. -/
theorem Prog.Safe.stopped {α σ : Type} {stop : Event → Bool} {mon : Monitor σ}
    {fin : Option σ → α → Prop} (hfin : ∀ a, fin none a) :
    ∀ p : Prog α, p.Safe (mon.untilEvent stop) fin none
  | .ret a => hfin a
  | .panic => trivial
  | .op _ k => fun r => ⟨none, rfl, Prog.Safe.stopped hfin (k r)⟩

/-! ## Code that takes no lock -/

/-- No branch of `p` takes or releases a lock. -/
def LockFree {α : Type} (p : Prog α) : Prop := p.All fun c => !c.isLockOp

section LockFree

variable {α β : Type} {exempt : Holdings → Cmd → Bool}

/-- With no lock held, the rule accepts every command that is no lock operation. -/
theorem lockMonitor_nil {c : Cmd} (hc : c.isLockOp = false) (r : c.Resp) :
    lockMonitor exempt [] ⟨c, r⟩ = some [] := by
  cases c <;> first | rfl | cases hc

/-- **Lock-free code run with no lock held keeps the discipline.** -/
theorem LockFree.disciplined_bind {p : Prog α} {f : α → Prog β} (hp : LockFree p)
    (hf : ∀ a, LockDisciplined exempt (f a)) : LockDisciplined exempt (p.bind f) := by
  unfold LockDisciplined
  rw [Prog.safe_bind]
  induction p with
  | ret a => exact hf a
  | panic => trivial
  | op c k ih =>
    intro r
    have hc : c.isLockOp = false := by simpa using hp.1
    exact ⟨[], lockMonitor_nil hc r, ih r (hp.2 r)⟩

/-- Code that only talks to peers takes no lock. -/
theorem LockFree.of_peerOps {p : Prog α} (h : p.All Cmd.isPeerOp) : LockFree p :=
  h.mono fun c hc => by cases c <;> first | rfl | cases hc

theorem getBlock_lockFree (p : PeerID) (blockID : ID) : LockFree (getBlock p blockID) :=
  .of_peerOps (getBlock_peerOps p blockID)

theorem fetchBlockTxids_lockFree (blk : Option Block) (p : PeerID) :
    LockFree (fetchBlockTxids blk p) :=
  .of_peerOps (fetchBlockTxids_peerOps blk p)

end LockFree

/-! ## `processBlock` -/

section ProcessBlock

variable {exempt : Holdings → Cmd → Bool}

theorem storeOrphan_lockDisciplined (blk : Option Block) (p : PeerID) :
    LockDisciplined exempt (storeOrphan blk p) := by
  cases blk with
  | none => trivial
  | some blk => exact fun _ => ⟨_, rfl, fun _ => ⟨_, rfl, fun _ => ⟨_, rfl, rfl⟩⟩⟩

theorem submitBlock_lockDisciplined (blk : Option Block) :
    LockDisciplined exempt (submitBlock blk) := by
  cases blk with
  | none => trivial
  | some blk =>
    -- the nine commands in order, each accepted with the holdings it leaves
    exact fun _ => ⟨_, rfl, fun _ => ⟨_, rfl, fun _ => ⟨_, rfl, fun _ => ⟨_, rfl, fun _ => ⟨_, rfl,
      fun _ => ⟨_, rfl, fun _ => ⟨_, rfl, fun _ => ⟨_, rfl, fun _ => ⟨_, rfl, rfl⟩⟩⟩⟩⟩⟩⟩⟩⟩

/-- A collaborator call made with no lock held, followed by disciplined code. -/
theorem collaborator_then {α : Type} {c : Cmd} {k : c.Resp → Prog α} (hc : c.isLockOp = false)
    (hk : ∀ r, LockDisciplined exempt (k r)) : LockDisciplined exempt (.op c k) :=
  (show LockFree (perform c) from ⟨by simp [hc], fun _ => trivial⟩).disciplined_bind hk

theorem repairFromPeers_lockDisciplined {f : Block → Prog Verdict}
    (hf : ∀ b, LockDisciplined exempt (f b)) (err : Verdict) :
    ∀ (ps : List PeerID) (cur : Option Block),
      LockDisciplined exempt (repairFromPeers f err ps cur)
  | [], _ => rfl
  | pid :: ps, cur => (fetchBlockTxids_lockFree cur pid).disciplined_bind fun
    | .ok b => hf b
    | .error _ => repairFromPeers_lockDisciplined hf err ps none

theorem processBlockStep_lockDisciplined {f : Block → Prog Verdict}
    (hf : ∀ b, LockDisciplined exempt (f b)) (blk : Option Block) (p : PeerID) (recheck : Bool) :
    LockDisciplined exempt (processBlockStep f blk p recheck) := by
  refine collaborator_then rfl fun v => ?_
  cases v with
  | orphan => exact storeOrphan_lockDisciplined blk p
  | other => rfl
  | ok => exact submitBlock_lockDisciplined blk
  | rule k =>
    cases recheck
    · cases k with
      | invalidTxRoot =>
        refine (fetchBlockTxids_lockFree blk p).disciplined_bind fun
          | .ok b => hf b
          | .error _ => collaborator_then rfl fun _ => collaborator_then rfl fun ps =>
              repairFromPeers_lockDisciplined hf _ ps none
      | doesNotConnect => exact collaborator_then rfl fun _ => rfl
      | other => exact collaborator_then rfl fun _ => rfl
    · exact collaborator_then rfl fun _ => rfl

/-- **Every branch of `processBlock` keeps the lock discipline.** -/
theorem processBlock_lockDisciplined (blk : Option Block) (p : PeerID) (recheck : Bool) :
    LockDisciplined exempt (processBlock blk p recheck) :=
  processBlockStep_lockDisciplined (fun b => @processBlockStep_lockDisciplined exempt
    (fun _ => .panic) (fun _ => trivial) (some b) p true) blk p recheck

end ProcessBlock

/-! ## `fetchBlock`, `requestBlock`, the waiter and the timer -/

/-- **`fetchBlock` breaks the rule as stated**: for a block not in `activeInventory` it calls
`GetBlockByID` while holding `inventoryLock` for reading. -/
theorem fetchBlock_holds_lock_across_getBlockByID :
    ¬ LockDisciplined noExemption (fetchBlock 0) := fun h =>
  absurd (Prog.Safe.replay [.unit, .block none, .block none, .unit] h) (by decide)

theorem fetchBlock_lockDisciplined (blockID : ID) :
    LockDisciplined fetchBlockExemption (fetchBlock blockID) := fun _ => ⟨_, rfl, fun r => by
  rcases r with _ | blk
  · exact ⟨_, rfl, fun _ => ⟨_, rfl, fun _ => ⟨_, rfl, rfl⟩⟩⟩
  · exact ⟨_, rfl, fun _ => ⟨_, rfl, rfl⟩⟩⟩

theorem clearInflight_lockDisciplined (blockID : ID) :
    LockDisciplined noExemption (clearInflight blockID) :=
  fun _ => ⟨_, rfl, fun _ => ⟨_, rfl, fun _ => ⟨_, rfl, rfl⟩⟩⟩

theorem fetchRequested_lockDisciplined (blockID : ID) (p : PeerID) :
    LockDisciplined noExemption (fetchRequested blockID p) := by
  simp only [LockDisciplined, fetchRequested, Prog.bind_eq, perform_bind, Prog.safe_op]
  refine fun _ => ⟨_, rfl, fun _ => ⟨_, rfl, fun _ => ⟨[], rfl, ?_⟩⟩⟩
  refine (getBlock_lockFree p blockID).disciplined_bind fun
    | .error _ => fun _ => ⟨_, rfl, fun _ => ⟨_, rfl, fun _ => ⟨_, rfl, rfl⟩⟩⟩
    | .ok blk => ?_
  rw [LockDisciplined, Prog.safe_bind]
  refine (processBlock_lockDisciplined blk p false).mono fun held _ h => ?_
  subst h
  exact fun _ => ⟨_, rfl, rfl⟩

theorem waiterCleanup_lockDisciplined_until_reentry (blk : Block) :
    LockDisciplinedUntil noExemption isOrphanReentry (waiterCleanup blk) := by
  simp only [LockDisciplinedUntil, waiterCleanup, Prog.bind_eq, perform_bind, Prog.safe_op]
  refine fun _ => ⟨_, rfl, fun _ => ⟨_, rfl, fun _ => ⟨_, rfl, fun _ => ⟨_, rfl, fun o => ?_⟩⟩⟩⟩
  rcases o with _ | o
  · exact ⟨_, rfl, fun _ => ⟨some [], rfl, .inr rfl⟩⟩
  · exact ⟨none, rfl, Prog.Safe.stopped (fun _ => .inl rfl) _⟩

theorem waiter_lockDisciplined_until_reentry (blk : Block) (callback : Nat) :
    LockDisciplinedUntil noExemption isOrphanReentry (waiter blk callback) := by
  have cleanup := waiterCleanup_lockDisciplined_until_reentry blk
  simp only [LockDisciplinedUntil, waiter, Prog.bind_eq, perform_bind, Prog.safe_op] at cleanup ⊢
  refine fun r => ⟨some [], rfl, ?_⟩
  rcases r with _ | st
  · simp
  · dsimp only
    split_ifs
    · exact fun _ => ⟨some [], rfl, by simpa using cleanup⟩
    · simpa using cleanup

theorem requestBlock_lockDisciplined_until_recheck (blockID : ID) (p : PeerID) :
    LockDisciplinedUntil noExemption isNotInFlight (requestBlock blockID p) := by
  simp only [LockDisciplinedUntil, requestBlock, Prog.bind_eq, perform_bind, Prog.safe_op]
  refine fun _ => ⟨some [(.inflight, .read)], rfl, fun b => ?_⟩
  cases b
  · exact ⟨none, rfl, Prog.Safe.stopped (fun _ => .inl rfl) _⟩
  · exact ⟨some [(.inflight, .read)], rfl, fun _ => ⟨some [], rfl, .inr rfl⟩⟩

/-- **The coordinator's lock discipline, `fetchBlock`'s deferred read holding exempted.**
The waiter's orphan re-entry under `orphanLock` and `requestBlock`'s second `RLock` are
left out: the waiter is followed up to the re-entry and `requestBlock` up to line 426,
after which `fetchRequested` is its lines 428–447. -/
theorem coordinator_lock_discipline :
    (∀ blk p recheck, LockDisciplined noExemption (processBlock blk p recheck)) ∧
    (∀ blockID, LockDisciplined fetchBlockExemption (fetchBlock blockID)) ∧
    (∀ blk callback, LockDisciplinedUntil noExemption isOrphanReentry (waiter blk callback)) ∧
    (∀ blockID p, LockDisciplinedUntil noExemption isNotInFlight (requestBlock blockID p)) ∧
    (∀ blockID p, LockDisciplined noExemption (fetchRequested blockID p)) ∧
    (∀ blockID, LockDisciplined noExemption (clearInflight blockID)) :=
  ⟨processBlock_lockDisciplined, fetchBlock_lockDisciplined, waiter_lockDisciplined_until_reentry,
    requestBlock_lockDisciplined_until_recheck, fetchRequested_lockDisciplined,
    clearInflight_lockDisciplined⟩

end Ilxd
