import Ilxd.ChainService

/-!
# Goroutines as effect trees

The coordinator's Go functions are embedded as trees `Prog α` of the effects they perform:
a node `op c k` performs the command `c` and continues with `k r` on its response `r`.
The response of a command (`Cmd.Resp`) is what the Go call returns: a map lookup, a
`CheckConnectBlock` verdict, a peer's RPC answer, the peer list, a status read from the
consensus callback channel.  A tree has one branch per possible response, so a property of
every branch is a property of every execution of the function, whatever its collaborators
answer.

* `Prog.Safe mon fin` — a demonic weakest precondition: along every branch a monitor
  `mon` accepts every event and the final monitor state satisfies `fin`; `Prog.safe_bind`
  splits it over `>>=`.
* `Prog.replay` — one concrete branch, given the responses as `Hint`s; `Prog.Safe.replay`
  says a safe tree's replayed events are all accepted, so a replay that the monitor
  rejects refutes `Safe`.
-/

set_option autoImplicit false

namespace Ilxd

/-- The three `sync.RWMutex` of `Server`. -/
inductive LockName where
  | orphan
  | inventory
  | inflight
  deriving DecidableEq, Repr

/-- `Lock`/`Unlock` (write) or `RLock`/`RUnlock` (read). -/
inductive Mode where
  | read
  | write
  deriving DecidableEq, Repr

/-- `consensus.Status` as delivered on a block's callback channel. -/
inductive Status where
  | finalized
  | rejected
  deriving DecidableEq, Repr

/-- `blockchain.ErrorCode` of a `RuleError`, as far as `processBlock` distinguishes it. -/
inductive RuleKind where
  | invalidTxRoot
  | doesNotConnect
  | other
  deriving DecidableEq, Repr

/-- What `CheckConnectBlock` returns: `nil`, an `OrphanBlockError`, a `RuleError`, or
another error. -/
inductive Verdict where
  | ok
  | orphan
  | rule (k : RuleKind)
  | other
  deriving DecidableEq, Repr

/-- `orphanBlock`; `firstSeen` is written but never read, and is left out. -/
structure OrphanBlock where
  blk : Block
  relayingPeer : PeerID
  deriving DecidableEq, Repr

/-- The goroutines the coordinator starts: the finalize waiter of `processBlock` and the
`time.AfterFunc` cleanup of `requestBlock`. -/
inductive Task where
  | waiter (blk : Block) (callback : Nat)
  | clearInflight (blockID : ID)
  deriving DecidableEq, Repr

/-- The effects of the coordinator's code. -/
inductive Cmd where
  | lock (l : LockName) (m : Mode)
  | unlock (l : LockName) (m : Mode)
  | putOrphan (blockID : ID) (o : OrphanBlock)
  | deleteOrphan (blockID : ID)
  | orphanAtHeight (height : Nat)
  | putInventory (blockID : ID) (blk : Block)
  | deleteInventory (blockID : ID)
  | getInventory (blockID : ID)
  | hasInflight (blockID : ID)
  | putInflight (blockID : ID)
  | deleteInflight (blockID : ID)
  | checkConnectBlock (blk : Option Block)
  | connectBlock (blk : Block)
  | getBlockByID (blockID : ID)
  | decodeXthinner (x : XThinnerBlock)
  | newBlock (blockID : ID) (callback : Nat)
  | sendRequest (p : PeerID) (req : Request)
  | increaseBanscore (p : PeerID) (persistent transient : Nat)
  | peers
  | makeChan
  | recv (callback : Nat)
  | go (t : Task)
  | afterFunc (t : Task)
  deriving DecidableEq, Repr

/-- The response each command returns. -/
@[reducible] def Cmd.Resp : Cmd → Type
  | .orphanAtHeight _ => Option OrphanBlock
  | .getInventory _ => Option Block
  | .hasInflight _ => Bool
  | .checkConnectBlock _ => Verdict
  | .connectBlock _ => Bool
  | .getBlockByID _ => Option Block
  | .decodeXthinner _ => Block × List UInt32
  | .sendRequest _ req => Except String req.Resp
  | .peers => List PeerID
  | .makeChan => Nat
  | .recv _ => Option Status
  | _ => Unit

/-- Calls into the blockchain, the mempool, the consensus engine and the network. -/
def Cmd.isCollaborator : Cmd → Bool
  | .checkConnectBlock _ | .connectBlock _ | .getBlockByID _ | .decodeXthinner _
  | .newBlock _ _ | .sendRequest _ _ | .increaseBanscore _ _ _ | .peers => true
  | _ => false

/-- A goroutine's code: a tree of effects. -/
inductive Prog (α : Type) where
  | ret (a : α)
  | panic
  | op (c : Cmd) (k : c.Resp → Prog α)

namespace Prog

variable {α β γ : Type}

/-- Sequencing. -/
def bind : Prog α → (α → Prog β) → Prog β
  | .ret a, f => f a
  | .panic, _ => .panic
  | .op c k, f => .op c (fun r => (k r).bind f)

instance : Monad Prog where
  pure := .ret
  bind := bind

@[simp] theorem pure_eq (a : α) : (pure a : Prog α) = .ret a := rfl
@[simp] theorem bind_eq (p : Prog α) (f : α → Prog β) : p >>= f = p.bind f := rfl
@[simp] theorem ret_bind (a : α) (f : α → Prog β) : (ret a).bind f = f a := rfl
@[simp] theorem op_bind (c : Cmd) (k : c.Resp → Prog α) (f : α → Prog β) :
    (op c k).bind f = op c (fun r => (k r).bind f) := rfl

theorem bind_assoc (p : Prog α) (f : α → Prog β) (g : β → Prog γ) :
    (p.bind f).bind g = p.bind (fun a => (f a).bind g) := by
  induction p with
  | ret a => rfl
  | panic => rfl
  | op c k ih => simp only [op_bind, ih]

end Prog

/-- Perform one command. -/
def perform (c : Cmd) : Prog c.Resp := .op c .ret

@[simp] theorem perform_bind {α : Type} (c : Cmd) (f : c.Resp → Prog α) :
    (perform c).bind f = .op c f := rfl

@[simp] theorem Prog.map_eq {α β : Type} (f : α → β) (p : Prog α) :
    f <$> p = p.bind fun a => .ret (f a) := rfl

/-! ## Events and monitors -/

/-- A performed command with its response. -/
abbrev Event := (c : Cmd) × c.Resp

/-- A monitor reads the events of a run; `none` rejects the event. -/
abbrev Monitor (σ : Type) := σ → Event → Option σ

namespace Prog

variable {α β σ : Type}

/-- Every branch is accepted by `mon` from state `s` and, if it returns `a`, ends in a state
satisfying `fin · a`.  A panic ends the process and carries no obligation. -/
def Safe (mon : Monitor σ) (fin : σ → α → Prop) : Prog α → σ → Prop
  | .ret a, s => fin s a
  | .panic, _ => True
  | .op c k, s => ∀ r, ∃ s', mon s ⟨c, r⟩ = some s' ∧ Safe mon fin (k r) s'

variable {mon : Monitor σ}

theorem safe_bind {fin : σ → β → Prop} (p : Prog α) (f : α → Prog β) (s : σ) :
    Safe mon fin (p.bind f) s ↔ Safe mon (fun s a => Safe mon fin (f a) s) p s := by
  induction p generalizing s with
  | ret a => rfl
  | panic => exact Iff.rfl
  | op c k ih => simp only [op_bind, Safe, ih]

@[simp] theorem safe_ret {fin : σ → α → Prop} (a : α) (s : σ) :
    Safe mon fin (ret a) s ↔ fin s a := Iff.rfl

theorem safe_op {fin : σ → α → Prop} (c : Cmd) (k : c.Resp → Prog α) (s : σ) :
    Safe mon fin (op c k) s ↔ ∀ r, ∃ s', mon s ⟨c, r⟩ = some s' ∧ Safe mon fin (k r) s' :=
  Iff.rfl

theorem Safe.mono {fin fin' : σ → α → Prop} (hf : ∀ s a, fin s a → fin' s a) :
    ∀ {p : Prog α} {s : σ}, Safe mon fin p s → Safe mon fin' p s
  | .ret a, s, h => hf s a h
  | .panic, _, _ => trivial
  | .op _ _, _, h => fun r =>
    let ⟨s', hs, hk⟩ := h r
    ⟨s', hs, Safe.mono hf hk⟩

end Prog

/-! ## Properties of every command -/

namespace Prog

variable {α β : Type}

/-- Every command on every branch satisfies `P`. -/
def All (P : Cmd → Bool) : Prog α → Prop
  | .ret _ => True
  | .panic => True
  | .op c k => P c ∧ ∀ r, All P (k r)

variable {P : Cmd → Bool}

@[simp] theorem all_ret (a : α) : All P (ret a) := trivial
@[simp] theorem all_panic : All P (panic : Prog α) := trivial
@[simp] theorem all_op (c : Cmd) (k : c.Resp → Prog α) :
    All P (op c k) ↔ P c ∧ ∀ r, All P (k r) := Iff.rfl

theorem All.bind {p : Prog α} {f : α → Prog β} (hp : All P p) (hf : ∀ a, All P (f a)) :
    All P (p.bind f) := by
  induction p with
  | ret a => exact hf a
  | panic => trivial
  | op c k ih => exact ⟨hp.1, fun r => ih r (hp.2 r)⟩

theorem All.mono {Q : Cmd → Bool} (hPQ : ∀ c, P c = true → Q c = true) :
    ∀ {p : Prog α}, All P p → All Q p
  | .ret _, _ => trivial
  | .panic, _ => trivial
  | .op _ _, ⟨hc, hk⟩ => ⟨hPQ _ hc, fun r => All.mono hPQ (hk r)⟩

/-- **Code whose commands a monitor ignores** keeps the monitor's state. -/
theorem All.safe_bind {σ : Type} {mon : Monitor σ} {fin : σ → β → Prop}
    (hmon : ∀ s (e : Event), P e.1 = true → mon s e = some s) {p : Prog α} {f : α → Prog β}
    {s : σ} (hp : All P p) (hf : ∀ a, Safe mon fin (f a) s) : Safe mon fin (p.bind f) s := by
  induction p with
  | ret a => exact hf a
  | panic => trivial
  | op c k ih => exact fun r => ⟨s, hmon s ⟨c, r⟩ hp.1, ih r (hp.2 r)⟩

end Prog

/-! ## Replaying one branch -/

/-- A response chosen for a command, in a form independent of the command. -/
inductive Hint where
  | unit
  | bool (b : Bool)
  | verdict (v : Verdict)
  | block (b : Option Block)
  | orphan (o : Option OrphanBlock)
  | decoded (blk : Block) (missing : List UInt32)
  | txs (r : Except String MsgBlockTxsResp)
  | txids (r : Except String MsgBlockTxidsResp)
  | blockResp (r : Except String MsgBlockResp)
  | peers (ps : List PeerID)
  | chan (n : Nat)
  | status (s : Option Status)

namespace Hint

/-- A `Bool` response. -/
def bool? : Hint → Option Bool
  | .bool b => some b
  | _ => none

/-- A `CheckConnectBlock` verdict. -/
def verdict? : Hint → Option Verdict
  | .verdict v => some v
  | _ => none

/-- A block pointer. -/
def block? : Hint → Option (Option Block)
  | .block b => some b
  | _ => none

/-- An orphan entry, or none. -/
def orphan? : Hint → Option (Option OrphanBlock)
  | .orphan o => some o
  | _ => none

/-- A mempool decoding. -/
def decoded? : Hint → Option (Block × List UInt32)
  | .decoded b m => some (b, m)
  | _ => none

/-- The outcome of an RPC of the given kind. -/
def response? : Hint → (req : Request) → Option (Except String req.Resp)
  | .txs r, .getBlockTxs _ => some r
  | .txids r, .getBlockTxids _ => some r
  | .blockResp r, .getBlock _ => some r
  | _, _ => none

/-- A peer list. -/
def peers? : Hint → Option (List PeerID)
  | .peers ps => some ps
  | _ => none

/-- A channel. -/
def chan? : Hint → Option Nat
  | .chan n => some n
  | _ => none

/-- A received status, or the root context's cancellation. -/
def status? : Hint → Option (Option Status)
  | .status s => some s
  | _ => none

end Hint

/-- The response a hint stands for, when it fits the command; commands that return nothing
accept any hint. -/
def Cmd.ofHint : (c : Cmd) → Hint → Option c.Resp
  | .orphanAtHeight _, h => h.orphan?
  | .getInventory _, h => h.block?
  | .hasInflight _, h => h.bool?
  | .checkConnectBlock _, h => h.verdict?
  | .connectBlock _, h => h.bool?
  | .getBlockByID _, h => h.block?
  | .decodeXthinner _, h => h.decoded?
  | .sendRequest _ req, h => h.response? req
  | .peers, h => h.peers?
  | .makeChan, h => h.chan?
  | .recv _, h => h.status?
  | .lock _ _, _ | .unlock _ _, _ | .putOrphan _ _, _ | .deleteOrphan _, _
  | .putInventory _ _, _ | .deleteInventory _, _ | .putInflight _, _
  | .deleteInflight _, _ | .newBlock _ _, _ | .increaseBanscore _ _ _, _
  | .go _, _ | .afterFunc _, _ => some ()

namespace Prog

variable {α σ : Type}

/-- Follow the branch chosen by `hs`, as far as the hints fit: its events and the
remaining code. -/
def replay : Prog α → List Hint → List Event × Prog α
  | .op c k, h :: hs =>
    match c.ofHint h with
    | some r => let t := (k r).replay hs; (⟨c, r⟩ :: t.1, t.2)
    | none => ([], .op c k)
  | p, _ => ([], p)

end Prog

/-- Run a monitor over a list of events. -/
def Monitor.run {σ : Type} (mon : Monitor σ) : σ → List Event → Option σ
  | s, [] => some s
  | s, e :: es => (mon s e).bind (Monitor.run mon · es)

/-- **A safe tree's branches are accepted by its monitor.** -/
theorem Prog.Safe.replay {α σ : Type} {mon : Monitor σ} {fin : σ → α → Prop} :
    ∀ {p : Prog α} {s : σ} (hs : List Hint), Safe mon fin p s →
      (mon.run s (p.replay hs).1).isSome
  | .ret _, _, hs, _ => by cases hs <;> rfl
  | .panic, _, hs, _ => by cases hs <;> rfl
  | .op c k, s, [], _ => rfl
  | .op c k, s, h :: hs, hsafe => by
    simp only [Prog.replay]
    cases hr : c.ofHint h with
    | none => rfl
    | some r =>
      obtain ⟨s', hm, hk⟩ := hsafe r
      simp only [Monitor.run, hm, Option.some_bind]
      exact Safe.replay hs hk

/-- **Every replayed event of a tree whose commands all satisfy `P` satisfies `P`.** -/
theorem Prog.All.replay {α : Type} {P : Cmd → Bool} :
    ∀ {p : Prog α} (hs : List Hint), p.All P → ((p.replay hs).1.all fun e => P e.1) = true
  | .ret _, hs, _ => by cases hs <;> rfl
  | .panic, hs, _ => by cases hs <;> rfl
  | .op c k, [], _ => rfl
  | .op c k, h :: hs, ⟨hc, hk⟩ => by
    simp only [Prog.replay]
    cases c.ofHint h with
    | none => rfl
    | some r => simpa [hc] using All.replay hs (hk r)

end Ilxd
