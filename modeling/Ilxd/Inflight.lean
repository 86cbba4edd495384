import Ilxd.World

/-!
# `requestBlock` under every interleaving

`requestBlock` takes `inflightLock` for reading (line 421), checks `inflightRequests`, and
for a block not in flight takes the read lock a second time (line 426) before asking for the
write lock (line 428).  A `Lock` waits for every reader to leave, and the caller is one of
them, so the call never gets past line 428.

* `World.Reachable.atRequestPoint` — in every run, a `requestBlock(id, p)` goroutine is at
  one of the points before its `GetBlock` RPC, with as many read holdings as the code has
  taken there: it never issues the RPC, and it returns only when the block was in flight.
* `requestBlock_deadlocks` — two concurrent calls for a block not in flight both stop at
  line 428 and stay there in every continuation of the run.
-/

set_option autoImplicit false

namespace Ilxd

/-- `requestBlock` after its membership check: lines 423–426 and what follows. -/
def requestBlockAfterCheck (blockID : ID) (p : PeerID) (inFlight : Bool) : Prog Unit :=
  if inFlight then perform (.unlock .inflight .read)
  else (perform (.lock .inflight .read)).bind fun _ => fetchRequested blockID p

/-- The points of a `requestBlock(id, p)` goroutine before its RPC, with the number of read
holdings of `inflightLock` it has at each. -/
inductive RequestPoint (blockID : ID) (p : PeerID) : Prog Unit → Nat → Prop
  | start : RequestPoint blockID p (requestBlock blockID p) 0
  | check : RequestPoint blockID p (.op (.hasInflight blockID) (requestBlockAfterCheck blockID p)) 1
  | checked (inFlight : Bool) : RequestPoint blockID p (requestBlockAfterCheck blockID p inFlight) 1
  | wedged : RequestPoint blockID p (fetchRequested blockID p) 2
  | returned : RequestPoint blockID p (.ret ()) 0

/-- Goroutine `i` is a `requestBlock(id, p)` call at a point before its RPC. -/
def World.AtRequestPoint (w : World) (i : Nat) (blockID : ID) (p : PeerID) : Prop :=
  ∃ prog, w.tasks[i]? = some prog ∧ RequestPoint blockID p prog (w.heldBy i .inflight).2

section Points

variable {rules : Block → Verdict} {blockID : ID} {p : PeerID}

theorem World.heldBy_set {w w' : World} {i : Nat} {k : RWLock}
    (hl : w'.locks = w.locks.set .inflight k) :
    (w'.heldBy i .inflight).2 = k.readers.count i := by
  simp [World.heldBy, RWLock.heldBy, hl]

/-- At line 428 the goroutine waits on its own read holdings. -/
theorem World.selfBlocked_of_wedged {w : World} (i : Nat)
    (ht : w.tasks[i]? = some (fetchRequested blockID p)) (hn : (w.heldBy i .inflight).2 = 2) :
    w.SelfBlocked i :=
  ⟨.inflight, .write, _, ht, .inr ⟨rfl, by omega⟩⟩

/-- One step keeps a `requestBlock` goroutine at a point before its RPC. -/
theorem World.step_atRequestPoint {w w' : World} {a : Action} {i : Nat}
    (hs : w.step rules a = some w') (hw : w.AtRequestPoint i blockID p) :
    w'.AtRequestPoint i blockID p := by
  obtain ⟨prog, hp, hpt⟩ := hw
  generalize hn : (w.heldBy i .inflight).2 = n at hpt
  by_cases ha : ∃ h, a = .run i h
  · obtain ⟨h, rfl⟩ := ha
    cases hpt with
    | start =>
      obtain ⟨ht, k, hk, hl⟩ := World.step_run_lock hp hs
      refine ⟨_, ht, ?_⟩
      rw [World.heldBy_set hl, RWLock.acquire_read_count hk]
      simp only [World.heldBy, RWLock.heldBy] at hn
      rw [hn]; exact .check
    | check =>
      obtain ⟨ht, hl⟩ := World.step_run_hasInflight hp hs
      have : w'.heldBy i = w.heldBy i := by unfold World.heldBy; rw [hl]
      exact ⟨_, ht, by rw [this, hn]; exact .checked _⟩
    | checked inFlight =>
      cases inFlight
      · obtain ⟨ht, k, hk, hl⟩ := World.step_run_lock hp hs
        refine ⟨_, ht, ?_⟩
        rw [World.heldBy_set hl, RWLock.acquire_read_count hk]
        simp only [World.heldBy, RWLock.heldBy] at hn
        rw [hn]; exact .wedged
      · obtain ⟨ht, hl⟩ := World.step_run_unlock hp hs
        refine ⟨_, ht, ?_⟩
        simp only [World.heldBy, RWLock.heldBy] at hn
        simp only [World.heldBy, RWLock.heldBy, hl, Locks.get_set, if_true,
          RWLock.release_read_count, hn]
        exact .returned
    | wedged =>
      rw [World.step_run_selfBlocked (World.selfBlocked_of_wedged i hp hn)] at hs; cases hs
    | returned => simp [World.step, hp] at hs
  · obtain ⟨ht, hh⟩ := World.step_tasks_frame hs (fun h e => ha ⟨h, e⟩)
      (List.getElem?_eq_some_iff.1 hp).1
    exact ⟨prog, ht ▸ hp, hh ▸ hn ▸ hpt⟩

/-- **A `requestBlock` goroutine never issues its RPC**: from a point before it, every run
keeps it at such a point. -/
theorem World.Reachable.atRequestPoint {w w' : World} {i : Nat} (h : w.Reachable rules w')
    (hw : w.AtRequestPoint i blockID p) : w'.AtRequestPoint i blockID p :=
  h.rec_invariant (fun _ _ _ hs hv => World.step_atRequestPoint hs hv) hw

end Points

/-- A node with nothing in flight and one `requestBlock(5, 1)` call. -/
def oneRequest : World := { World.init ⟨0, 0, []⟩ with tasks := [requestBlock 5 1] }

/-- After its first three steps the call holds two read locks and waits at line 428. -/
theorem oneRequest_stays_before_rpc :
    oneRequest.Reachable (fun _ => .ok)
        { oneRequest with locks := ⟨.free, .free, ⟨none, [0, 0]⟩⟩, tasks := [fetchRequested 5 1] } ∧
      oneRequest.AtRequestPoint 0 5 1 ∧
      World.AtRequestPoint
        { oneRequest with locks := ⟨.free, .free, ⟨none, [0, 0]⟩⟩, tasks := [fetchRequested 5 1] }
        0 5 1 := by
  have hr : oneRequest.Reachable (fun _ => .ok)
      { oneRequest with locks := ⟨.free, .free, ⟨none, [0, 0]⟩⟩, tasks := [fetchRequested 5 1] } :=
    World.run_reachable [.run 0 .unit, .run 0 .unit, .run 0 .unit] rfl
  have hw : oneRequest.AtRequestPoint 0 5 1 := ⟨_, rfl, .start⟩
  exact ⟨hr, hw, World.Reachable.atRequestPoint hr hw⟩

/-! ## Two concurrent calls -/

/-- Two calls `requestBlock(id, 1)` and `requestBlock(id, 2)` arrive on a node with nothing
in flight; each in turn takes its two read holdings. -/
def twoRequests (blockID : ID) : List Action :=
  [.arrive (.request blockID 1), .arrive (.request blockID 2),
    .run 0 .unit, .run 0 .unit, .run 0 .unit, .run 1 .unit, .run 1 .unit, .run 1 .unit]

theorem run_twoRequests (rules : Block → Verdict) (ch : Chain) (blockID : ID) :
    (World.init ch).run rules (twoRequests blockID) =
      some { World.init ch with
        locks := ⟨.free, .free, ⟨none, [1, 1, 0, 0]⟩⟩,
        tasks := [fetchRequested blockID 1, fetchRequested blockID 2] } := rfl

/-- **Two concurrent `requestBlock` calls deadlock**: after `twoRequests`, both goroutines
wait at line 428 for the write lock, each holding two read locks, and in every
continuation of the run both are still there: neither issues `GetBlock` nor returns. -/
theorem requestBlock_deadlocks (rules : Block → Verdict) (ch : Chain) (blockID : ID) :
    ∃ w, (World.init ch).Reachable rules w ∧ ∀ w', w.Reachable rules w' →
      w'.tasks[0]? = some (fetchRequested blockID 1) ∧
      w'.tasks[1]? = some (fetchRequested blockID 2) := by
  refine ⟨_, World.run_reachable _ (run_twoRequests rules ch blockID), fun w' h => ?_⟩
  exact ⟨(h.selfBlocked (World.selfBlocked_of_wedged 0 rfl rfl)).2.1,
    (h.selfBlocked (World.selfBlocked_of_wedged 1 rfl rfl)).2.1⟩

end Ilxd
