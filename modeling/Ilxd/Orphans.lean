import Ilxd.Solo

/-!
# Orphans, the active inventory and the chain

The spec's separation (§3): a block ID is in at most one of `orphanBlocks`,
`activeInventory` and the connected chain.  `World.OrphansApart` is its part about orphans:
no key of `orphanBlocks` is a key of `activeInventory` or the ID of a connected block.

* `processBlock_stale_orphan` — it fails under interleaving: a call whose
  `CheckConnectBlock` found a block an orphan stores it after another call has accepted
  and submitted the same block, and once every call has returned the block is both an
  orphan and in `activeInventory`.
* `waiter_reentry_deadlocks` — the waiter that finds an orphan one height above its block
  re-enters `processBlock` while it holds `orphanLock`, and asks for it again: in the spec's
  S5 it is stuck there in every continuation, and `orphanLock` is never free again.
* `serial_orphans_apart` — it holds in every serial run, where each call and each waiter
  runs alone from one quiescent world to the next.  `SerialInv` is the invariant behind it,
  with one lemma per map update; `processBlock_solo` and `waiter_solo` are the solo runs.
-/

set_option autoImplicit false

namespace Ilxd

/-! ## The chain view and the waiter -/

section Chain

variable {rules : Block → Verdict} {ch : Chain} {b : Block}

theorem Chain.checkConnectBlock_orphan (hrules : ∀ b, rules b ≠ .orphan)
    (h : ch.checkConnectBlock rules b = .orphan) : ch.tipHeight + 1 < b.height := by
  unfold Chain.checkConnectBlock at h
  split_ifs at h with h1 h2
  · exact h1
  · exact absurd h (hrules b)

theorem Chain.checkConnectBlock_ok (h : ch.checkConnectBlock rules b = .ok) :
    b.height = ch.tipHeight + 1 := by
  unfold Chain.checkConnectBlock at h
  split_ifs at h with h1 h2
  exact h2.1

/-- `ConnectBlock` leaves the chain as it is, or makes the block its tip. -/
theorem Chain.connectBlock_cases (rules : Block → Verdict) (ch : Chain) (b : Block) :
    (ch.connectBlock rules b).2 = ch ∨
      b.height = ch.tipHeight + 1 ∧
        (ch.connectBlock rules b).2 = ⟨b.height, b.ID, b :: ch.blocks⟩ := by
  unfold Chain.connectBlock
  split_ifs with h1 h2
  · exact .inl rfl
  · exact .inr ⟨Chain.checkConnectBlock_ok h2, rfl⟩
  · exact .inl rfl

end Chain

theorem waiter_ne_ret (b : Block) (cb : Nat) : waiter b cb ≠ .ret () := nofun

/-- A waiter's code names its block. -/
theorem waiter_inj {b b' : Block} {cb cb' : Nat} (h : waiter b cb = waiter b' cb') : b = b' := by
  simp only [waiter, Prog.bind_eq, perform_bind, Prog.op.injEq] at h
  have := congrFun (eq_of_heq h.2) (some .finalized)
  simp only [Prog.ret_bind, if_true, Prog.bind_eq, perform_bind, Prog.op.injEq,
    Cmd.connectBlock.injEq] at this
  exact this.1

theorem Entry.prog_ne_waiter (e : Entry) (b : Block) (cb : Nat) : waiter b cb ≠ e.prog := by
  cases e <;> nofun

/-! ## The invariant of serial runs -/

/-- The separation the spec claims, for orphans. -/
def World.OrphansApart (w : World) : Prop :=
  ∀ id ∈ w.orphanBlocks.map (·.1), id ∉ w.activeInventory.map (·.1) ∧
    ∀ c ∈ w.chain.blocks, c.ID ≠ id

/-- What serial runs keep, over the parts of a world it reads: the separation, blocks in
`activeInventory` under their IDs and at most one above the tip, connected blocks at most at
the tip, and each waiter's block at most one above the tip and not an orphan. -/
structure SerialInv (ch : Chain) (orphans : List (ID × OrphanBlock)) (inv : List (ID × Block))
    (tasks : List (Prog Unit)) : Prop where
  apart : ∀ id ∈ orphans.map (·.1), id ∉ inv.map (·.1) ∧ ∀ c ∈ ch.blocks, c.ID ≠ id
  inventory : ∀ e ∈ inv, e.1 = e.2.ID ∧ e.2.height ≤ ch.tipHeight + 1
  connected : ∀ c ∈ ch.blocks, c.height ≤ ch.tipHeight
  waiters : ∀ b cb, waiter b cb ∈ tasks → b.height ≤ ch.tipHeight + 1 ∧ b.ID ∉ orphans.map (·.1)

/-- The invariant of serial runs of a world. -/
def World.Serial (w : World) : Prop :=
  SerialInv w.chain w.orphanBlocks w.activeInventory w.tasks

theorem World.Serial.orphansApart {w : World} (h : w.Serial) : w.OrphansApart := h.apart

section SerialInv

variable {ch : Chain} {os : List (ID × OrphanBlock)} {inv : List (ID × Block)}
  {ts : List (Prog Unit)}

theorem SerialInv.inventory_key (h : SerialInv ch os inv ts) {id : ID}
    (hid : id ∈ inv.map (·.1)) : ∃ b : Block, b.ID = id ∧ b.height ≤ ch.tipHeight + 1 := by
  obtain ⟨e, he, rfl⟩ := List.mem_map.1 hid
  exact ⟨e.2, (h.inventory e he).1.symm, (h.inventory e he).2⟩

/-- `OrphanBlockError` stores a block above the next height. -/
theorem SerialInv.putOrphan (h : SerialInv ch os inv ts) {b : Block}
    (hb : ch.tipHeight + 1 < b.height) (o : OrphanBlock) :
    SerialInv ch (mapPut os b.ID o) inv ts where
  apart id hid := by
    rcases (keys_mapPut os b.ID id o).1 hid with rfl | hid
    · refine ⟨fun hi => ?_, fun c hc => Block.ID_ne_of_height_ne (by
        have := h.connected c hc; omega)⟩
      obtain ⟨c, hc, hle⟩ := h.inventory_key hi
      exact Block.ID_ne_of_height_ne (by omega) hc
    · exact h.apart id hid
  inventory := h.inventory
  connected := h.connected
  waiters b' cb hw := by
    obtain ⟨hle, hk⟩ := h.waiters b' cb hw
    refine ⟨hle, fun hk' => ?_⟩
    rcases (keys_mapPut os b.ID _ o).1 hk' with e | hk'
    · exact Block.ID_ne_of_height_ne (by omega) e
    · exact hk hk'

/-- A submission of a block at the next height: into `activeInventory`, out of
`orphanBlocks`, and a waiter for it. -/
theorem SerialInv.submit (h : SerialInv ch os inv ts) {b : Block}
    (hb : b.height = ch.tipHeight + 1) (cb : Nat) :
    SerialInv ch (mapDelete os b.ID) (mapPut inv b.ID b) (ts ++ [waiter b cb]) where
  apart id hid := by
    obtain ⟨hne, hid⟩ := (keys_mapDelete os b.ID id).1 hid
    refine ⟨fun hi => ?_, (h.apart id hid).2⟩
    rcases (keys_mapPut inv b.ID id b).1 hi with e | hi
    · exact hne e
    · exact (h.apart id hid).1 hi
  inventory e he := by
    simp only [mapPut, List.mem_cons, List.mem_filter] at he
    rcases he with rfl | ⟨he, -⟩
    · exact ⟨rfl, hb.le⟩
    · exact h.inventory e he
  connected := h.connected
  waiters b' cb' hw := by
    rcases List.mem_append.1 hw with hw | hw
    · exact ⟨(h.waiters b' cb' hw).1,
        fun hk => (h.waiters b' cb' hw).2 ((keys_mapDelete _ _ _).1 hk).2⟩
    · obtain rfl := waiter_inj (List.mem_singleton.1 hw)
      exact ⟨by omega, fun hk => ((keys_mapDelete _ _ _).1 hk).1 rfl⟩

/-- `ConnectBlock` of a block that is no orphan. -/
theorem SerialInv.connect (h : SerialInv ch os inv ts) {b : Block} (hb : b.ID ∉ os.map (·.1))
    (rules : Block → Verdict) : SerialInv (ch.connectBlock rules b).2 os inv ts := by
  rcases Chain.connectBlock_cases rules ch b with e | ⟨hh, e⟩
  · rw [e]; exact h
  · rw [e]
    exact {
      apart := fun id hid => ⟨(h.apart id hid).1, fun c hc => by
        rcases List.mem_cons.1 hc with rfl | hc
        · exact fun e' => hb (e' ▸ hid)
        · exact (h.apart id hid).2 c hc⟩
      inventory := fun e he => ⟨(h.inventory e he).1, by
        dsimp only; have := (h.inventory e he).2; omega⟩
      connected := fun c hc => by
        rcases List.mem_cons.1 hc with rfl | hc
        · exact le_rfl
        · dsimp only; have := h.connected c hc; omega
      waiters := fun b' cb hw => ⟨by dsimp only; have := (h.waiters b' cb hw).1; omega,
        (h.waiters b' cb hw).2⟩ }

theorem SerialInv.deleteInventory (h : SerialInv ch os inv ts) (id : ID) :
    SerialInv ch os (mapDelete inv id) ts where
  apart id' hid := ⟨fun hi => (h.apart id' hid).1 ((keys_mapDelete inv id id').1 hi).2,
    (h.apart id' hid).2⟩
  inventory e he := h.inventory e (List.mem_filter.1 he).1
  connected := h.connected
  waiters := h.waiters

/-- A goroutine that returns is no waiter. -/
theorem SerialInv.setRet (h : SerialInv ch os inv ts) (j : Nat) :
    SerialInv ch os inv (ts.set j (.ret ())) where
  apart := h.apart
  inventory := h.inventory
  connected := h.connected
  waiters b cb hw := by
    rcases List.mem_or_eq_of_mem_set hw with hw | hw
    · exact h.waiters b cb hw
    · exact absurd hw (waiter_ne_ret b cb)

/-- A goroutine that is no waiter starts. -/
theorem SerialInv.append (h : SerialInv ch os inv ts) {p : Prog Unit}
    (hp : ∀ b cb, waiter b cb ≠ p) : SerialInv ch os inv (ts ++ [p]) where
  apart := h.apart
  inventory := h.inventory
  connected := h.connected
  waiters b cb hw := by
    rcases List.mem_append.1 hw with hw | hw
    · exact h.waiters b cb hw
    · exact absurd (List.mem_singleton.1 hw) (hp b cb)

end SerialInv

/-! ## Solo runs of the coordinator's code -/

section Solo

variable {rules : Block → Verdict} {i : Nat}

theorem decodeFromPeers_queries (x : XThinnerBlock) (blk : Block) (missing : List UInt32) :
    ∀ ps, (decodeFromPeers x blk missing ps).All Cmd.isQuery
  | [] => trivial
  | pid :: ps => ((getBlockTxsInto_peerOps pid x.ID blk missing).mono
      fun _ => Cmd.isQuery_of_isPeerOp).bind fun
    | .ok _ => trivial
    | .error _ => decodeFromPeers_queries x blk missing ps

/-- **Decoding only reads**: the mempool, the peers and the ban scores. -/
theorem decodeXthinner_queries (x : XThinnerBlock) (p : PeerID) :
    (decodeXthinner x p).All Cmd.isQuery := by
  refine ⟨rfl, fun ⟨blk, missing⟩ => ?_⟩
  simp only [Prog.ret_bind]
  split_ifs
  · refine ((getBlockTxsInto_peerOps p x.ID blk missing).mono
      fun _ => Cmd.isQuery_of_isPeerOp).bind fun
      | .ok _ => trivial
      | .error _ => ⟨rfl, fun _ => ⟨rfl, fun ps => decodeFromPeers_queries x blk missing ps⟩⟩
  · trivial

theorem repairFromPeers_solo {f : Block → Prog Verdict} {w : World} {Q : World → Verdict → Prop}
    {err : Verdict} (hf : ∀ b, (f b).Solo rules i Q w) (herr : Q w err) :
    ∀ (ps : List PeerID) (cur : Option Block), (repairFromPeers f err ps cur).Solo rules i Q w
  | [], _ => herr
  | pid :: ps, cur => ((fetchBlockTxids_peerOps cur pid).mono
      fun _ => Cmd.isQuery_of_isPeerOp).solo_bind fun
    | .ok b => hf b
    | .error _ => repairFromPeers_solo hf herr ps none

theorem onRuleError_solo {f : Block → Prog Verdict} {w : World} {Q : World → Verdict → Prop}
    (hf : ∀ b, (f b).Solo rules i Q w) (hq : ∀ k, Q w (.rule k)) (blk : Option Block)
    (p : PeerID) (recheck : Bool) (k : RuleKind) :
    (onRuleError f blk p recheck k).Solo rules i Q w := by
  cases recheck
  · cases k with
    | invalidTxRoot =>
      exact ((fetchBlockTxids_peerOps blk p).mono fun _ => Cmd.isQuery_of_isPeerOp).solo_bind fun
        | .ok b => hf b
        | .error _ => Prog.solo_query rfl fun _ => Prog.solo_query rfl fun ps =>
            repairFromPeers_solo hf (hq _) ps none
    | doesNotConnect => exact Prog.solo_query rfl fun _ => hq _
    | other => exact Prog.solo_query rfl fun _ => hq _
  · exact Prog.solo_query rfl fun _ => hq _

/-- **One step of `processBlock` alone**, given what its orphan and submission branches do. -/
theorem processBlockStep_solo {f : Block → Prog Verdict} {w : World} {Q : World → Verdict → Prop}
    {p : PeerID} (hf : ∀ b, (f b).Solo rules i Q w) (hq : ∀ v, v ≠ .ok → v ≠ .orphan → Q w v)
    (horphan : ∀ b, w.chain.checkConnectBlock rules b = .orphan →
      (storeOrphan (some b) p).Solo rules i Q w)
    (hok : ∀ b, w.chain.checkConnectBlock rules b = .ok → (submitBlock (some b)).Solo rules i Q w)
    (blk : Option Block) (recheck : Bool) :
    (processBlockStep f blk p recheck).Solo rules i Q w := by
  intro _ v _ he
  cases blk with
  | none => cases he
  | some b =>
    cases he
    generalize hv : w.chain.checkConnectBlock rules b = v
    cases v with
    | orphan => exact horphan b hv
    | other => exact hq _ nofun nofun
    | ok => exact hok b hv
    | rule k => exact onRuleError_solo hf (fun k => hq _ nofun nofun) (some b) p recheck k

theorem storeOrphan_solo {w : World} (hw : w.Serial) {b : Block}
    (hb : w.chain.tipHeight + 1 < b.height) (p : PeerID) :
    (storeOrphan (some b) p).Solo rules i (fun v _ => v.Serial) w := by
  refine Prog.solo_lock fun _ _ => ?_
  intro _ _ _ he; cases he
  intro _ _ _ he; cases he
  exact hw.putOrphan hb _

theorem submitBlock_solo {w : World} (hw : w.Serial) {b : Block}
    (hb : b.height = w.chain.tipHeight + 1) :
    (submitBlock (some b)).Solo rules i (fun v _ => v.Serial) w := by
  intro _ _ _ he; cases he
  refine Prog.solo_lock fun _ _ => ?_
  intro _ _ _ he; cases he
  intro _ _ _ he; cases he
  refine Prog.solo_lock fun _ _ => ?_
  intro _ _ _ he; cases he
  intro _ _ _ he; cases he
  intro _ _ _ he; cases he
  intro _ _ _ he; cases he
  exact hw.submit hb _

/-- **`processBlock` alone keeps the invariant.** -/
theorem processBlock_solo (hrules : ∀ b, rules b ≠ .orphan) {w : World} (hw : w.Serial)
    (blk : Option Block) (p : PeerID) (recheck : Bool) :
    (processBlock blk p recheck).Solo rules i (fun v _ => v.Serial) w := by
  have horphan : ∀ b, w.chain.checkConnectBlock rules b = .orphan →
      (storeOrphan (some b) p).Solo rules i (fun v _ => v.Serial) w :=
    fun _ hv => storeOrphan_solo hw (Chain.checkConnectBlock_orphan hrules hv) p
  have hok : ∀ b, w.chain.checkConnectBlock rules b = .ok →
      (submitBlock (some b)).Solo rules i (fun v _ => v.Serial) w :=
    fun _ hv => submitBlock_solo hw (Chain.checkConnectBlock_ok hv)
  exact processBlockStep_solo (fun b => processBlockStep_solo
    (fun _ => show Prog.Solo _ _ _ .panic _ from trivial) (fun _ _ _ => hw) horphan hok (some b)
    true) (fun _ _ _ => hw) horphan hok blk recheck

/-- **Re-entered under its own `orphanLock`**, `processBlock` never returns from its orphan
and submission branches, which wait for that lock, and its other branches change nothing. -/
theorem processBlock_solo_locked {w : World} (hl : (w.locks.get .orphan).writer = some i)
    (blk : Option Block) (p : PeerID) (recheck : Bool) :
    (processBlock blk p recheck).Solo rules i (fun v _ => v = w) w := by
  have hblocked : ∀ v : World, v.locks.get .orphan = w.locks.get .orphan →
      (v.locks.get .orphan).acquire i .write = none :=
    fun _ hv => RWLock.acquire_held (.inl (hv ▸ hl))
  have horphan : ∀ b, w.chain.checkConnectBlock rules b = .orphan →
      (storeOrphan (some b) p).Solo rules i (fun v _ => v = w) w :=
    fun _ _ => Prog.solo_lock_blocked (hblocked w rfl)
  have hok : ∀ b, w.chain.checkConnectBlock rules b = .ok →
      (submitBlock (some b)).Solo rules i (fun v _ => v = w) w := by
    intro b _
    intro _ _ _ he; cases he
    refine Prog.solo_lock fun _ _ => ?_
    intro _ _ _ he; cases he
    intro _ _ _ he; cases he
    exact Prog.solo_lock_blocked (hblocked _ (by simp))
  exact processBlockStep_solo (fun b => processBlockStep_solo
    (fun _ => show Prog.Solo _ _ _ .panic _ from trivial) (fun _ _ _ => rfl) horphan hok (some b)
    true) (fun _ _ _ => rfl) horphan hok blk recheck

theorem waiterCleanup_solo {w : World} (hw : w.Serial) (b : Block) :
    (waiterCleanup b).Solo rules i (fun v _ => v.Serial) w := by
  refine Prog.solo_lock fun _ _ => ?_
  intro _ _ _ he; cases he
  intro _ _ _ he; cases he
  refine Prog.solo_lock fun k hk => Prog.solo_query rfl fun o => ?_
  cases o with
  | none => intro _ _ _ he; cases he; exact hw.deleteInventory _
  | some o =>
    simp only [Prog.ret_bind, Prog.bind_eq]
    rw [Prog.solo_bind]
    refine (processBlock_solo_locked (by simp [RWLock.acquire_write_writer hk]) _ _ _).mono
      fun v _ hv => ?_
    subst hv
    intro _ _ _ he; cases he
    exact hw.deleteInventory _

/-- **The waiter alone keeps the invariant**, given that its block is no orphan. -/
theorem waiter_solo {w : World} (hw : w.Serial) {b : Block}
    (hb : b.ID ∉ w.orphanBlocks.map (·.1)) (cb : Nat) :
    (waiter b cb).Solo rules i (fun v _ => v.Serial) w := by
  intro _ r v he
  obtain ⟨inbox, rfl⟩ : ∃ inbox, v = { w with inbox := inbox } := by
    rcases World.exec_recv he with ⟨e, -, -, rfl⟩ | ⟨-, -, rfl⟩ <;> exact ⟨_, rfl⟩
  rcases r with _ | st
  · exact hw
  · simp only [Prog.ret_bind, Prog.bind_eq, Prog.pure_eq]
    split_ifs
    · intro _ _ _ he; cases he
      refine waiterCleanup_solo ?_ b
      exact hw.connect hb rules
    · exact waiterCleanup_solo (show World.Serial { w with inbox := inbox } from hw) b

theorem handleIncomingBlock_solo (hrules : ∀ b, rules b ≠ .orphan) {w : World} (hw : w.Serial)
    (x : XThinnerBlock) (p : PeerID) :
    (Entry.incoming x p).prog.Solo rules i (fun v _ => v.Serial) w := by
  rw [Entry.prog, Prog.solo_bind]
  refine (decodeXthinner_queries x p).solo_bind fun r => ?_
  rcases r with _ | blk
  · exact hw
  · exact processBlock_solo hrules hw _ _ _

/-- `requestBlock` alone returns only when the block is in flight, changing nothing else. -/
theorem requestBlock_solo {w : World} (hw : w.Serial) (blockID : ID) (p : PeerID) :
    (Entry.request blockID p).prog.Solo rules i (fun v _ => v.Serial) w := by
  refine Prog.solo_lock fun _ _ => Prog.solo_query rfl fun b => ?_
  cases b
  · refine Prog.solo_lock fun k hk => ?_
    exact Prog.solo_lock_blocked (by simp [RWLock.acquire_read_write hk])
  · intro _ _ _ he; cases he; exact hw

end Solo

/-! ## A stale orphan verdict -/

/-- Every goroutine has returned or is a finalize waiter that has not received yet. -/
def World.Quiescent (w : World) : Prop := ∀ p ∈ w.tasks, p = .ret () ∨ ∃ b cb, p = waiter b cb

/-- A block at height 1 on the genesis chain `⟨0, 0, []⟩`. -/
def orphanParent : Block := ⟨⟨1, 0, 0⟩, []⟩

/-- Its child at height 2. -/
def orphanChild : Block := ⟨⟨2, orphanParent.ID, 0⟩, []⟩

/-- Peer 1 relays the child while the tip is genesis: goroutine 0 decodes it and
`CheckConnectBlock` answers `OrphanBlockError`.  Before goroutine 0 stores the orphan, peer 2
relays the parent (goroutine 1, whose waiter is goroutine 2), the consensus engine finalizes
it, and the waiter connects it and finds no orphan at height 2; peer 3 relays the child again
(goroutine 3, waiter 4), which is now accepted and submitted.  Goroutine 0 then stores the
child as an orphan. -/
def staleOrphanRun : List Action :=
  [.arrive (.incoming ⟨orphanChild.header⟩ 1), .run 0 (.decoded orphanChild []), .run 0 .unit] ++
  (.arrive (.incoming ⟨orphanParent.header⟩ 2) :: .run 1 (.decoded orphanParent []) ::
    List.replicate 10 (.run 1 .unit)) ++
  .resolve 0 .finalized :: List.replicate 8 (.run 2 .unit) ++
  (.arrive (.incoming ⟨orphanChild.header⟩ 3) :: .run 3 (.decoded orphanChild []) ::
    List.replicate 10 (.run 3 .unit)) ++
  List.replicate 3 (.run 0 .unit)

theorem run_staleOrphanRun :
    (World.init ⟨0, 0, []⟩).run (fun _ => .ok) staleOrphanRun =
      some ⟨⟨1, orphanParent.ID, [orphanParent]⟩, [(orphanChild.ID, ⟨orphanChild, 1⟩)],
        [(orphanChild.ID, orphanChild)], [], ⟨.free, .free, .free⟩, [(orphanChild.ID, 1)], [], 2,
        false, [.ret (), .ret (), .ret (), .ret (), waiter orphanChild 1]⟩ := rfl

/-- **A stale `OrphanBlockError` breaks the separation**: after `staleOrphanRun` every call
has returned and the one other goroutine is the child's waiter, yet the child is both an
orphan and in `activeInventory`. -/
theorem processBlock_stale_orphan :
    ∃ w, (World.init ⟨0, 0, []⟩).Reachable (fun _ => .ok) w ∧ w.Quiescent ∧
      ¬ w.OrphansApart := by
  refine ⟨_, World.run_reachable _ run_staleOrphanRun, fun p hp => ?_, fun h => ?_⟩
  · simp only [List.mem_cons, List.mem_singleton, List.not_mem_nil, or_false] at hp
    rcases hp with rfl | rfl | rfl | rfl | rfl
    iterate 4 exact .inl rfl
    exact .inr ⟨_, _, rfl⟩
  · exact (h orphanChild.ID (by simp)).1 (by simp)

/-! ## The waiter's re-entry -/

/-- The spec's S5: the child arrives first and is stored as an orphan (goroutine 0); then
its parent arrives (goroutine 1), is accepted and submitted, and the consensus engine decides
it `st`.  The parent's waiter (goroutine 2) then runs: it connects the parent on `finalized`,
takes `orphanLock` at line 337, finds the child one height up and re-enters `processBlock`
for it, up to the next `Lock` of `orphanLock`: line 311 of `submitBlock` when the child now
connects, line 255 of `storeOrphan` when it is still an orphan. -/
def reentryRun (st : Status) : List Action :=
  [.arrive (.incoming ⟨orphanChild.header⟩ 1), .run 0 (.decoded orphanChild [])] ++
    List.replicate 4 (.run 0 .unit) ++
  (.arrive (.incoming ⟨orphanParent.header⟩ 2) :: .run 1 (.decoded orphanParent []) ::
    List.replicate 10 (.run 1 .unit)) ++
  .resolve 0 st :: List.replicate (if st = .finalized then 12 else 7) (.run 2 .unit)

theorem run_reentryRun (st : Status) :
    ∃ w, (World.init ⟨0, 0, []⟩).run (fun _ => .ok) (reentryRun st) = some w ∧
      w.orphanBlocks.map (·.1) = [orphanChild.ID] ∧ w.SelfBlocked 2 ∧
      (w.locks.get .orphan).writer = some 2 := by
  cases st <;> exact ⟨_, rfl, rfl, ⟨.orphan, .write, _, rfl, .inl rfl⟩, rfl⟩

/-- **The waiter deadlocks on its own `orphanLock`** (lines 337–345 into 311 or 255): after
`reentryRun`, whatever the consensus engine decided for the parent, the waiter holds
`orphanLock` for writing and asks for it again, with the child still an orphan.  In every
continuation of the run it is still there and `orphanLock` stays taken: no goroutine gets it
again, so every later `orphanLock.Lock()` (lines 255, 311 and 337) waits for good. -/
theorem waiter_reentry_deadlocks (st : Status) :
    ∃ w, (World.init ⟨0, 0, []⟩).Reachable (fun _ => .ok) w ∧
      w.orphanBlocks.map (·.1) = [orphanChild.ID] ∧
      ∀ w', w.Reachable (fun _ => .ok) w' → w'.SelfBlocked 2 ∧
        ∀ t m, (w'.locks.get .orphan).acquire t m = none := by
  obtain ⟨w, hw, ho, hb, hwriter⟩ := run_reentryRun st
  refine ⟨w, World.run_reachable _ hw, ho, fun w' h => ?_⟩
  obtain ⟨hb', -, hheld⟩ := h.selfBlocked hb
  have hw' : (w'.locks.get .orphan).writer = some 2 := by
    simpa [World.heldBy, RWLock.heldBy, hwriter] using congrArg Prod.fst (congrFun hheld .orphan)
  exact ⟨hb', fun _ _ => RWLock.acquire_of_writer hw'⟩

/-! ## Serial runs -/

/-- An action from outside the goroutines. -/
def Action.IsEvent : Action → Prop
  | .run _ _ => False
  | _ => True

/-- One step of a serial run: from a quiescent world, an arrival, a consensus decision or the
cancellation, then one goroutine alone until it returns, into a quiescent world. -/
def World.SerialStep (rules : Block → Verdict) (w w' : World) : Prop :=
  w.Quiescent ∧ w'.Quiescent ∧ ∃ a w₁ i hs, a.IsEvent ∧ w.step rules a = some w₁ ∧
    w₁.run rules (hs.map (.run i)) = some w' ∧ (hs = [] ∨ w'.tasks[i]? = some (.ret ()))

section Serial

variable {rules : Block → Verdict}

/-- An event keeps the invariant, and adds at most the goroutine of an entry. -/
theorem World.step_event_serial {w w₁ : World} {a : Action} (ha : a.IsEvent)
    (hs : w.step rules a = some w₁) (hw : w.Serial) :
    w₁.Serial ∧ ∀ p ∈ w₁.tasks, p ∈ w.tasks ∨ ∃ e : Entry, p = e.prog := by
  cases a with
  | run => exact ha.elim
  | arrive e =>
    cases hs
    refine ⟨hw.append (Entry.prog_ne_waiter e), fun p hp => ?_⟩
    rcases List.mem_append.1 hp with hp | hp
    · exact .inl hp
    · exact .inr ⟨e, List.mem_singleton.1 hp⟩
  | resolve j st =>
    simp only [World.step] at hs
    split at hs <;> cases hs
    exact ⟨hw, fun p hp => .inl hp⟩
  | cancel => cases hs; exact ⟨hw, fun p hp => .inl hp⟩

/-- Every goroutine of a world reached from a quiescent one by an event, run alone, keeps the
invariant. -/
theorem World.solo_of_event (hrules : ∀ b, rules b ≠ .orphan) {w w₁ : World} {i : Nat}
    {c : Cmd} {k : c.Resp → Prog Unit} (hq : w.Quiescent) (hw₁ : w₁.Serial)
    (horigin : ∀ p ∈ w₁.tasks, p ∈ w.tasks ∨ ∃ e : Entry, p = e.prog)
    (hck : w₁.tasks[i]? = some (.op c k)) :
    (Prog.op c k).Solo rules i (fun v _ => v.Serial) w₁ := by
  have hmem := List.mem_iff_getElem?.2 ⟨i, hck⟩
  rcases horigin _ hmem with hp | ⟨e, he⟩
  · rcases hq _ hp with hret | ⟨b, cb, hwb⟩
    · cases hret
    · rw [hwb] at hmem ⊢
      exact waiter_solo hw₁ (hw₁.waiters b cb hmem).2 cb
  · rw [he]
    cases e with
    | incoming x p => exact handleIncomingBlock_solo hrules hw₁ x p
    | request blockID p => exact requestBlock_solo hw₁ blockID p

/-- **A serial step keeps the invariant.** -/
theorem World.SerialStep.serial (hrules : ∀ b, rules b ≠ .orphan) {w w' : World}
    (h : World.SerialStep rules w w') (hw : w.Serial) : w'.Serial := by
  obtain ⟨hq, -, a, w₁, i, hs, ha, h₁, hr, hend⟩ := h
  obtain ⟨hw₁, horigin⟩ := World.step_event_serial ha h₁ hw
  cases hs with
  | nil => cases hr; exact hw₁
  | cons h hs =>
    have hend : w'.tasks[i]? = some (.ret ()) := hend.resolve_left nofun
    simp only [List.map_cons, World.run, Option.bind_eq_some] at hr
    obtain ⟨w₂, h₂, hr'⟩ := hr
    obtain ⟨c, k, hck⟩ := World.step_run_getElem? h₂
    have hsolo := World.solo_of_event hrules hq hw₁ horigin hck
    have hrun : w₁.run rules ((h :: hs).map (.run i)) = some w' := by
      simp only [List.map_cons, World.run, h₂, Option.some_bind, hr']
    have hfin := World.solo_run (h :: hs) w₁ w' _ hck
      (by rwa [World.withTask_self hck]) hrun hend
    have e : w' = (w'.withTask i (.op c k)).withTask i (.ret ()) := by
      rw [World.withTask_withTask, World.withTask_self hend]
    rw [e]
    exact hfin.setRet i

/-- **In serial runs no orphan is active or connected**: on a chain whose connected blocks
are at most at its tip, with rules that never answer `OrphanBlockError` themselves, every
world of a run in which each call and each waiter runs alone from one quiescent world to the
next keeps `orphanBlocks` apart from `activeInventory` and from the chain. -/
theorem serial_orphans_apart (rules : Block → Verdict) (hrules : ∀ b, rules b ≠ .orphan)
    (ch : Chain) (hch : ∀ c ∈ ch.blocks, c.height ≤ ch.tipHeight) {w : World}
    (h : Relation.ReflTransGen (World.SerialStep rules) (World.init ch) w) : w.OrphansApart := by
  suffices w.Serial from this.orphansApart
  induction h with
  | refl => exact ⟨by simp [World.init], by simp [World.init], hch, by simp [World.init]⟩
  | tail _ hs ih => exact hs.serial hrules ih

/-- The child's arrival run alone on the genesis chain stores it as an orphan, and the
separation holds there. -/
theorem serial_orphans_apart_child :
    World.OrphansApart ⟨⟨0, 0, []⟩, [(orphanChild.ID, ⟨orphanChild, 1⟩)], [], [],
      ⟨.free, .free, .free⟩, [], [], 0, false, [.ret ()]⟩ :=
  serial_orphans_apart (fun _ => .ok) (fun _ => nofun) ⟨0, 0, []⟩ (fun _ h => nomatch h)
    (.single ⟨(fun _ h => nomatch h), fun _ hp => .inl (List.mem_singleton.1 hp),
      .arrive (.incoming ⟨orphanChild.header⟩ 1), _, 0,
      .decoded orphanChild [] :: List.replicate 4 .unit, trivial, rfl, rfl, .inr rfl⟩)

end Serial

end Ilxd
