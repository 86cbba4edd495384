import Ilxd.Server
import Mathlib.Logic.Relation

/-!
# The coordinator as a concurrent system

The goroutines of one node, run against its shared state.  A `World` holds the chain view,
the coordinator's three maps and reader-writer locks, the consensus engine's undecided
submissions and the statuses it has sent on callback channels, and one residual program
per goroutine.  A step (`World.step`) is one atomic command of one goroutine (`World.exec`
answers it from the state, or from the environment's choice `Hint` where a peer, the mempool
or the network answers), the arrival of a call from outside (`Entry`: a block announced by
a peer, or the consensus engine's `requestBlock`), a consensus decision, or the root
context's cancellation.  Every interleaving of these steps is a run.

* `World.Reachable.rec_invariant` — an invariant preserved by every step holds along every
  run.
* `World.step_tasks_frame` — a step by another goroutine, an arrival, a decision and a
  cancellation leave a goroutine's residual program and its lock holdings unchanged.
* `World.Reachable.selfBlocked` — a goroutine whose next command is a `Lock` it cannot get
  while it holds the lock itself never moves again.
-/

set_option autoImplicit false

namespace Ilxd

/-! ## Reader-writer locks -/

/-- A `sync.RWMutex` with its holders: the goroutine holding it for writing, and one entry
per `RLock` not yet released. -/
structure RWLock where
  writer : Option Nat
  readers : List Nat
  deriving DecidableEq, Repr

/-- An unlocked mutex. -/
def RWLock.free : RWLock := ⟨none, []⟩

/-- `Lock` waits until nobody holds the mutex; `RLock` waits only for a writer.  A writer
waiting in `Lock` does not hold back new readers here, which only adds interleavings to
Go's `RWMutex`. -/
def RWLock.acquire (t : Nat) : Mode → RWLock → Option RWLock
  | .write, ⟨none, []⟩ => some ⟨some t, []⟩
  | .read, ⟨none, rs⟩ => some ⟨none, t :: rs⟩
  | _, _ => none

/-- `Unlock` and `RUnlock` by goroutine `t` release its own holding; no goroutine of the
coordinator releases a holding it does not have (`coordinator_lock_discipline`). -/
def RWLock.release (t : Nat) : Mode → RWLock → RWLock
  | .write, k => if k.writer = some t then { k with writer := none } else k
  | .read, k => { k with readers := k.readers.erase t }

/-- What goroutine `i` holds of a mutex: the write holding, and the number of read holdings. -/
def RWLock.heldBy (k : RWLock) (i : Nat) : Bool × Nat := (k.writer = some i, k.readers.count i)

theorem RWLock.acquire_heldBy {t i : Nat} {m : Mode} {k k' : RWLock}
    (h : k.acquire t m = some k') (hi : i ≠ t) : k'.heldBy i = k.heldBy i := by
  unfold acquire at h
  split at h <;> cases h <;> simp [heldBy, List.count_cons, hi, Ne.symm hi]

theorem RWLock.release_heldBy (t i : Nat) (m : Mode) (k : RWLock) (hi : i ≠ t) :
    (k.release t m).heldBy i = k.heldBy i := by
  cases m
  · simp [release, heldBy, List.count_erase, hi]
  · simp only [release]; split_ifs with h <;> simp [heldBy, h, Ne.symm hi]

/-- Nobody gets a mutex that a goroutine holds for writing. -/
theorem RWLock.acquire_of_writer {j t : Nat} {m : Mode} {k : RWLock} (h : k.writer = some j) :
    k.acquire t m = none := by
  obtain ⟨_, _⟩ := k
  cases h; cases m <;> rfl

/-- A goroutine cannot get a mutex it holds for writing, nor write-lock one it reads. -/
theorem RWLock.acquire_held {i : Nat} {m : Mode} {k : RWLock}
    (h : k.writer = some i ∨ (m = .write ∧ 0 < k.readers.count i)) : k.acquire i m = none := by
  rcases k with ⟨_ | w, _ | ⟨r, rs⟩⟩ <;> cases m <;> simp_all [acquire]

/-- The coordinator's three mutexes. -/
structure Locks where
  orphan : RWLock
  inventory : RWLock
  inflight : RWLock
  deriving DecidableEq, Repr

/-- `orphanLock`, `inventoryLock` or `inflightLock`. -/
def Locks.get (ls : Locks) : LockName → RWLock
  | .orphan => ls.orphan
  | .inventory => ls.inventory
  | .inflight => ls.inflight

/-- Replace one mutex. -/
def Locks.set (ls : Locks) : LockName → RWLock → Locks
  | .orphan, k => { ls with orphan := k }
  | .inventory, k => { ls with inventory := k }
  | .inflight, k => { ls with inflight := k }

@[simp] theorem Locks.get_set (ls : Locks) (l l' : LockName) (k : RWLock) :
    (ls.set l k).get l' = if l' = l then k else ls.get l' := by
  cases l <;> cases l' <;> rfl

/-! ## The chain view -/

/-- Modelled from the spec (§C6, the chain-view interface): the tip's height and ID and the
blocks connected so far, newest first.  `CheckConnectBlock` is a function of the tip: a
block above the next height is an orphan, one that does not extend the tip does not
connect, and one that does is judged by `rules`, the block's own validity rules. -/
structure Chain where
  tipHeight : Nat
  tipID : ID
  blocks : List Block
  deriving DecidableEq, Repr

/-- Modelled from the spec: `Blockchain.CheckConnectBlock`. -/
def Chain.checkConnectBlock (rules : Block → Verdict) (ch : Chain) (b : Block) : Verdict :=
  if ch.tipHeight + 1 < b.height then .orphan
  else if b.height = ch.tipHeight + 1 ∧ b.header.parent = ch.tipID then rules b
  else .rule .doesNotConnect

/-- Modelled from the spec: `Blockchain.ConnectBlock`, idempotent on connected blocks. -/
def Chain.connectBlock (rules : Block → Verdict) (ch : Chain) (b : Block) : Bool × Chain :=
  if ch.blocks.any (·.ID == b.ID) then (true, ch)
  else if ch.checkConnectBlock rules b = .ok then (true, ⟨b.height, b.ID, b :: ch.blocks⟩)
  else (false, ch)

/-- Modelled from the spec: `Blockchain.GetBlockByID`. -/
def Chain.getBlockByID (ch : Chain) (blockID : ID) : Option Block :=
  ch.blocks.find? (·.ID == blockID)

/-! ## Go maps -/

/-- `m[k] = v` on a map kept as an association list. -/
def mapPut {β : Type} (m : List (ID × β)) (k : ID) (v : β) : List (ID × β) :=
  (k, v) :: m.filter (·.1 ≠ k)

/-- `delete(m, k)`. -/
def mapDelete {β : Type} (m : List (ID × β)) (k : ID) : List (ID × β) := m.filter (·.1 ≠ k)

/-- `m[k]`, with `ok`. -/
def mapGet {β : Type} (m : List (ID × β)) (k : ID) : Option β := (m.find? (·.1 = k)).map (·.2)

@[simp] theorem keys_mapDelete {β : Type} (m : List (ID × β)) (k k' : ID) :
    k' ∈ (mapDelete m k).map (·.1) ↔ k' ≠ k ∧ k' ∈ m.map (·.1) := by
  simp only [mapDelete, List.mem_map, List.mem_filter, decide_eq_true_eq]
  constructor
  · rintro ⟨a, ⟨ha, hk⟩, rfl⟩; exact ⟨hk, a, ha, rfl⟩
  · rintro ⟨hk, a, ha, rfl⟩; exact ⟨a, ⟨ha, hk⟩, rfl⟩

@[simp] theorem keys_mapPut {β : Type} (m : List (ID × β)) (k k' : ID) (v : β) :
    k' ∈ (mapPut m k v).map (·.1) ↔ k' = k ∨ k' ∈ m.map (·.1) := by
  show k' ∈ k :: (mapDelete m k).map (·.1) ↔ _
  rw [List.mem_cons, keys_mapDelete]
  by_cases h : k' = k
  · simp only [h, true_or]
  · simp only [h, false_or, ne_eq, not_false_eq_true, true_and]

/-- The orphan a `for … range s.orphanBlocks` loop meets first among those at `height`:
Go's map order is unspecified, so the environment's hint may name any of them. -/
def orphanAtHeight (os : List (ID × OrphanBlock)) (height : Nat) (h : Hint) :
    Option OrphanBlock :=
  match h.orphan? with
  | some (some o) =>
    if os.any (fun e => e.2 == o) ∧ o.blk.height = height then some o else first
  | _ => first
where
  /-- The first one in the list. -/
  first : Option OrphanBlock := (os.find? (·.2.blk.height = height)).map (·.2)

/-! ## Worlds -/

/-- The shared state of a node and its goroutines. -/
structure World where
  chain : Chain
  /-- `orphanBlocks`. -/
  orphanBlocks : List (ID × OrphanBlock)
  /-- `activeInventory`. -/
  activeInventory : List (ID × Block)
  /-- `inflightRequests`. -/
  inflightRequests : List ID
  locks : Locks
  /-- `NewBlock(id, callback)` calls the consensus engine has not decided yet. -/
  pending : List (ID × Nat)
  /-- Statuses sent on callback channels and not yet received. -/
  inbox : List (Nat × Status)
  /-- The next fresh channel. -/
  nextChan : Nat
  /-- The root context is cancelled. -/
  done : Bool
  /-- Each goroutine's remaining code; a goroutine is named by its position. -/
  tasks : List (Prog Unit)

/-- A node with the chain `ch`, empty maps, unlocked mutexes and no goroutine. -/
def World.init (ch : Chain) : World :=
  ⟨ch, [], [], [], ⟨.free, .free, .free⟩, [], [], 0, false, []⟩

/-- What performing a command does: the goroutine waits, the process panics, or the command
returns `r` in the state `w`. -/
inductive Reply (c : Cmd) where
  | blocked
  | crash
  | answer (r : c.Resp) (w : World)

/-- A response the environment chooses; a hint that does not fit is no choice. -/
def Reply.ofHint (c : Cmd) (h : Hint) (w : World) : Reply c :=
  match c.ofHint h with
  | some r => .answer r w
  | none => .blocked

section Exec

variable (rules : Block → Verdict)

/-- Goroutine `t` performs command `c` in `w`; `h` is the environment's choice where a peer,
the mempool or the network answers. -/
def World.exec (w : World) (t : Nat) (h : Hint) : (c : Cmd) → Reply c
  | .lock l m =>
    match (w.locks.get l).acquire t m with
    | some k => .answer () { w with locks := w.locks.set l k }
    | none => .blocked
  | .unlock l m => .answer () { w with locks := w.locks.set l ((w.locks.get l).release t m) }
  | .putOrphan blockID o => .answer () { w with orphanBlocks := mapPut w.orphanBlocks blockID o }
  | .deleteOrphan blockID => .answer () { w with orphanBlocks := mapDelete w.orphanBlocks blockID }
  | .orphanAtHeight height => .answer (orphanAtHeight w.orphanBlocks height h) w
  | .putInventory blockID b =>
    .answer () { w with activeInventory := mapPut w.activeInventory blockID b }
  | .deleteInventory blockID =>
    .answer () { w with activeInventory := mapDelete w.activeInventory blockID }
  | .getInventory blockID => .answer (mapGet w.activeInventory blockID) w
  | .hasInflight blockID => .answer (decide (blockID ∈ w.inflightRequests)) w
  | .putInflight blockID =>
    .answer () { w with inflightRequests := blockID :: w.inflightRequests.filter (· ≠ blockID) }
  | .deleteInflight blockID =>
    .answer () { w with inflightRequests := w.inflightRequests.filter (· ≠ blockID) }
  | .checkConnectBlock none => .crash
  | .checkConnectBlock (some b) => .answer (w.chain.checkConnectBlock rules b) w
  | .connectBlock b =>
    .answer (w.chain.connectBlock rules b).1 { w with chain := (w.chain.connectBlock rules b).2 }
  | .getBlockByID blockID => .answer (w.chain.getBlockByID blockID) w
  | .decodeXthinner x =>
    match h with
    | .decoded b missing => if b.header = x.header then .answer (b, missing) w else .blocked
    | _ => .blocked
  | .newBlock blockID callback =>
    .answer () { w with pending := w.pending ++ [(blockID, callback)] }
  | .sendRequest p req => Reply.ofHint (.sendRequest p req) h w
  | .increaseBanscore _ _ _ => .answer () w
  | .peers => Reply.ofHint .peers h w
  | .makeChan => .answer w.nextChan { w with nextChan := w.nextChan + 1 }
  | .recv callback =>
    -- the waiter's `select` on `callback` and `ctx.Done()`: with both ready Go takes either,
    -- and the hint `.status none` takes `Done`
    match w.inbox.find? (·.1 = callback) with
    | some e =>
      if w.done ∧ h.status? = some none then .answer none w
      else .answer (some e.2) { w with inbox := w.inbox.erase e }
    | none => if w.done then .answer none w else .blocked
  | .go task => .answer () { w with tasks := w.tasks ++ [task.prog] }
  | .afterFunc task => .answer () { w with tasks := w.tasks ++ [task.prog] }

end Exec

/-- The calls that reach the coordinator from outside: a block announced by a peer, and the
consensus engine's `requestBlock`. -/
inductive Entry where
  | incoming (x : XThinnerBlock) (p : PeerID)
  | request (blockID : ID) (p : PeerID)

/-- The goroutine an entry starts. -/
def Entry.prog : Entry → Prog Unit
  | .incoming x p => (handleIncomingBlock x p).bind fun _ => .ret ()
  | .request blockID p => requestBlock blockID p

/-- One step of a run. -/
inductive Action where
  /-- Goroutine `i` performs its next command, with the environment's choice `h`. -/
  | run (i : Nat) (h : Hint)
  /-- A call from outside starts a goroutine. -/
  | arrive (e : Entry)
  /-- The consensus engine decides its `j`-th undecided submission and sends `s`. -/
  | resolve (j : Nat) (s : Status)
  /-- The root context is cancelled. -/
  | cancel

section Step

variable (rules : Block → Verdict)

/-- One step; `none` when the action cannot happen (the goroutine waits, has ended, or the
hint is no possible answer).  A panic stops its goroutine; the model lets the others go on,
which only adds runs. -/
def World.step (w : World) : Action → Option World
  | .run i h =>
    match w.tasks[i]? with
    | some (.op c k) =>
      match w.exec rules i h c with
      | .blocked => none
      | .crash => some { w with tasks := w.tasks.set i .panic }
      | .answer r w' => some { w' with tasks := w'.tasks.set i (k r) }
    | _ => none
  | .arrive e => some { w with tasks := w.tasks ++ [e.prog] }
  | .resolve j s =>
    match w.pending[j]? with
    | some (_, callback) =>
      some { w with pending := w.pending.eraseIdx j, inbox := w.inbox ++ [(callback, s)] }
    | none => none
  | .cancel => some { w with done := true }

/-- A run of actions, as far as each can happen. -/
def World.run (w : World) : List Action → Option World
  | [] => some w
  | a :: as => (w.step rules a).bind (·.run as)

/-- `w'` is one step from `w`. -/
def World.Step (w w' : World) : Prop := ∃ a, w.step rules a = some w'

/-- `w'` is reached from `w` by some run. -/
def World.Reachable : World → World → Prop := Relation.ReflTransGen (World.Step rules)

variable {rules}

theorem World.run_reachable : ∀ {w w' : World} (as : List Action),
    w.run rules as = some w' → w.Reachable rules w'
  | _, _, [], h => by cases h; exact .refl
  | w, w', a :: as, h => by
    simp only [World.run, Option.bind_eq_some] at h
    obtain ⟨v, hv, hr⟩ := h
    exact .head ⟨a, hv⟩ (World.run_reachable as hr)

/-- **An invariant of every step holds along every run.** -/
theorem World.Reachable.rec_invariant {P : World → Prop}
    (hstep : ∀ w w' a, w.step rules a = some w' → P w → P w') {w w' : World}
    (h : w.Reachable rules w') (hw : P w) : P w' := by
  induction h with
  | refl => exact hw
  | tail _ hs ih => obtain ⟨a, ha⟩ := hs; exact hstep _ _ a ha ih

end Step

/-! ## Frame: what a step leaves alone -/

/-- What goroutine `i` holds of each mutex. -/
def World.heldBy (w : World) (i : Nat) (l : LockName) : Bool × Nat := (w.locks.get l).heldBy i

section Frame

variable {rules : Block → Verdict}

/-- **What `recv` answers**: the first status sent on the channel, taken from the inbox, or,
once the root context is cancelled, nothing, with the world unchanged. -/
theorem World.exec_recv {w w' : World} {t : Nat} {h : Hint} {callback : Nat}
    {r : Option Status} (he : w.exec rules t h (.recv callback) = .answer r w') :
    (∃ e, w.inbox.find? (·.1 = callback) = some e ∧ r = some e.2 ∧
      w' = { w with inbox := w.inbox.erase e }) ∨ (w.done ∧ r = none ∧ w' = w) := by
  simp only [World.exec] at he
  split at he
  · rename_i e hfind
    split_ifs at he with hd
    · cases he; exact .inr ⟨hd.1, rfl, rfl⟩
    · cases he; exact .inl ⟨e, hfind, rfl, rfl⟩
  · split_ifs at he with hd
    cases he; exact .inr ⟨hd, rfl, rfl⟩

/-- **What a command does to the goroutines**: it keeps every lock holding but its
performer's, and only appends goroutines. -/
theorem World.exec_frame {w w' : World} {t : Nat} {h : Hint} {c : Cmd} {r : c.Resp}
    (he : w.exec rules t h c = .answer r w') :
    (∀ i, i ≠ t → w'.heldBy i = w.heldBy i) ∧ ∃ new, w'.tasks = w.tasks ++ new := by
  have keep : w'.locks = w.locks → w'.tasks = w.tasks →
      (∀ i, i ≠ t → w'.heldBy i = w.heldBy i) ∧ ∃ new, w'.tasks = w.tasks ++ new :=
    fun hl ht => ⟨fun _ _ => by unfold World.heldBy; rw [hl], [], by rw [ht, List.append_nil]⟩
  cases c
  case recv callback =>
    rcases World.exec_recv he with ⟨e, -, -, rfl⟩ | ⟨-, -, rfl⟩ <;> exact keep rfl rfl
  all_goals simp only [World.exec] at he
  case lock l m =>
    split at he
    · rename_i k hk
      cases he
      refine ⟨fun i hi => funext fun l' => ?_, [], (List.append_nil _).symm⟩
      by_cases e : l' = l
      · subst e; simp [World.heldBy, RWLock.acquire_heldBy hk hi]
      · simp [World.heldBy, e]
    · cases he
  case unlock l m =>
    cases he
    refine ⟨fun i hi => funext fun l' => ?_, [], (List.append_nil _).symm⟩
    by_cases e : l' = l
    · subst e; simp [World.heldBy, RWLock.release_heldBy _ _ _ _ hi]
    · simp [World.heldBy, e]
  case go task => cases he; exact ⟨fun _ _ => rfl, _, rfl⟩
  case afterFunc task => cases he; exact ⟨fun _ _ => rfl, _, rfl⟩
  case checkConnectBlock b => cases b <;> cases he; exact keep rfl rfl
  case decodeXthinner x =>
    split at he
    · split_ifs at he; cases he; exact keep rfl rfl
    · cases he
  case sendRequest p req =>
    simp only [Reply.ofHint] at he; split at he <;> cases he; exact keep rfl rfl
  case peers => simp only [Reply.ofHint] at he; split at he <;> cases he; exact keep rfl rfl
  all_goals cases he; exact keep rfl rfl

/-- **A step leaves another goroutine alone**: unless the action is goroutine `i`'s own
command, `i`'s residual program and lock holdings are unchanged. -/
theorem World.step_tasks_frame {w w' : World} {a : Action} {i : Nat}
    (hs : w.step rules a = some w') (ha : ∀ h, a ≠ .run i h) (hi : i < w.tasks.length) :
    w'.tasks[i]? = w.tasks[i]? ∧ w'.heldBy i = w.heldBy i := by
  cases a with
  | run j h =>
    have hj : i ≠ j := fun e => ha h (e ▸ rfl)
    simp only [World.step] at hs
    split at hs
    · split at hs
      · cases hs
      · cases hs; exact ⟨List.getElem?_set_ne (Ne.symm hj), rfl⟩
      · rename_i he
        cases hs
        obtain ⟨hh, new, ht⟩ := World.exec_frame he
        refine ⟨?_, hh i hj⟩
        simp only [List.getElem?_set_ne (Ne.symm hj), ht, List.getElem?_append_left hi]
    · cases hs
  | arrive e => cases hs; exact ⟨List.getElem?_append_left hi, rfl⟩
  | resolve j s =>
    simp only [World.step] at hs
    split at hs <;> cases hs; exact ⟨rfl, rfl⟩
  | cancel => cases hs; exact ⟨rfl, rfl⟩

/-- Goroutine `i` waits on its own holding: its next command is `lock l m`, and it holds `l`
for writing, or for reading while it asks to write. -/
def World.SelfBlocked (w : World) (i : Nat) : Prop :=
  ∃ l m k, w.tasks[i]? = some (.op (.lock l m) k) ∧
    ((w.heldBy i l).1 = true ∨ (m = .write ∧ 0 < (w.heldBy i l).2))

/-- A self-blocked goroutine cannot take its step. -/
theorem World.step_run_selfBlocked {w : World} {i : Nat} (hb : w.SelfBlocked i) (h : Hint) :
    w.step rules (.run i h) = none := by
  obtain ⟨l, m, k, hk, hh⟩ := hb
  have : (w.locks.get l).acquire i m = none :=
    RWLock.acquire_held (by simpa [World.heldBy, RWLock.heldBy] using hh)
  simp [World.step, hk, World.exec, this]

/-- **A self-blocked goroutine never moves again**, and keeps what it holds. -/
theorem World.Reachable.selfBlocked {w w' : World} {i : Nat} (h : w.Reachable rules w')
    (hb : w.SelfBlocked i) :
    w'.SelfBlocked i ∧ w'.tasks[i]? = w.tasks[i]? ∧ w'.heldBy i = w.heldBy i := by
  refine h.rec_invariant
    (P := fun v => v.SelfBlocked i ∧ v.tasks[i]? = w.tasks[i]? ∧ v.heldBy i = w.heldBy i)
    (fun v v' a hs ⟨hv, he, hh'⟩ => ?_) ⟨hb, rfl, rfl⟩
  have hne : ∀ h, a ≠ .run i h := by
    rintro h rfl; rw [World.step_run_selfBlocked hv] at hs; cases hs
  obtain ⟨l, m, k, hk, hh⟩ := hv
  obtain ⟨ht, hheld⟩ := World.step_tasks_frame hs hne
    (List.getElem?_eq_some_iff.1 hk).1
  exact ⟨⟨l, m, k, ht ▸ hk, hheld ▸ hh⟩, ht.trans he, hheld.trans hh'⟩

/-- **A goroutine's own step**: its command is answered and it continues with the answer,
or the process panics. -/
theorem World.step_run_op {w w' : World} {i : Nat} {h : Hint} {c : Cmd}
    {k : c.Resp → Prog Unit} (ht : w.tasks[i]? = some (.op c k))
    (hs : w.step rules (.run i h) = some w') :
    (∃ r v, w.exec rules i h c = .answer r v ∧ w' = { v with tasks := v.tasks.set i (k r) }) ∨
    (w.exec rules i h c = .crash ∧ w' = { w with tasks := w.tasks.set i .panic }) := by
  simp only [World.step, ht] at hs
  split at hs
  · cases hs
  · cases hs; exact .inr ⟨‹_›, rfl⟩
  · cases hs; exact .inl ⟨_, _, ‹_›, rfl⟩

theorem RWLock.acquire_read_count {t : Nat} {k k' : RWLock} (h : k.acquire t .read = some k') :
    k'.readers.count t = k.readers.count t + 1 := by
  unfold acquire at h
  split at h <;> cases h <;> simp_all

theorem RWLock.acquire_write_writer {t : Nat} {k k' : RWLock} (h : k.acquire t .write = some k') :
    k'.writer = some t := by
  unfold acquire at h
  split at h <;> cases h <;> simp_all

/-- A reader holds the mutex: nobody gets it for writing. -/
theorem RWLock.acquire_read_write {t j : Nat} {k k' : RWLock} (h : k.acquire t .read = some k') :
    k'.acquire j .write = none := by
  unfold acquire at h
  split at h <;> cases h <;> simp_all [acquire]

theorem RWLock.release_read_count (t : Nat) (k : RWLock) :
    (k.release t .read).readers.count t = k.readers.count t - 1 := by
  simp [release, List.count_erase_self]

section Commands

variable {w w' : World} {i : Nat} {h : Hint}

theorem World.getElem?_set_of_getElem? {ts : List (Prog Unit)} {q q' : Prog Unit}
    (ht : ts[i]? = some q) : (ts.set i q')[i]? = some q' := by
  simp [List.getElem?_set, (List.getElem?_eq_some_iff.1 ht).1]

/-- A `Lock`/`RLock` step: the goroutine gets the mutex and goes on. -/
theorem World.step_run_lock {l : LockName} {m : Mode} {k : Unit → Prog Unit}
    (ht : w.tasks[i]? = some (.op (.lock l m) k)) (hs : w.step rules (.run i h) = some w') :
    w'.tasks[i]? = some (k ()) ∧
      ∃ k', (w.locks.get l).acquire i m = some k' ∧ w'.locks = w.locks.set l k' := by
  rcases World.step_run_op ht hs with ⟨r, v, he, rfl⟩ | ⟨he, -⟩
  · simp only [World.exec] at he
    split at he
    · cases he; exact ⟨World.getElem?_set_of_getElem? ht, _, ‹_›, rfl⟩
    · cases he
  · simp only [World.exec] at he; split at he <;> cases he

/-- An `Unlock`/`RUnlock` step. -/
theorem World.step_run_unlock {l : LockName} {m : Mode} {k : Unit → Prog Unit}
    (ht : w.tasks[i]? = some (.op (.unlock l m) k)) (hs : w.step rules (.run i h) = some w') :
    w'.tasks[i]? = some (k ()) ∧ w'.locks = w.locks.set l ((w.locks.get l).release i m) := by
  rcases World.step_run_op ht hs with ⟨r, v, he, rfl⟩ | ⟨he, -⟩
  · cases he; exact ⟨World.getElem?_set_of_getElem? ht, rfl⟩
  · cases he

/-- A membership check of `inflightRequests`. -/
theorem World.step_run_hasInflight {blockID : ID} {k : Bool → Prog Unit}
    (ht : w.tasks[i]? = some (.op (.hasInflight blockID) k))
    (hs : w.step rules (.run i h) = some w') :
    w'.tasks[i]? = some (k (decide (blockID ∈ w.inflightRequests))) ∧ w'.locks = w.locks := by
  rcases World.step_run_op ht hs with ⟨r, v, he, rfl⟩ | ⟨he, -⟩
  · cases he; exact ⟨World.getElem?_set_of_getElem? ht, rfl⟩
  · cases he

end Commands

end Frame

end Ilxd
