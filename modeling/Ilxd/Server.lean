import Ilxd.Prog

/-!
# The block-ingestion coordinator (`server.go`) and the chain-service client

Each Go function is a `Prog`, written in the order of the source:

* chain-service client calls `getBlockTxs`, `getBlockTxids`, `getBlock`
  (`ChainService.GetBlockTxs` penalises the peer it is called with by 50 when the answer
  has the wrong length);
* `decodeXthinner` with its repair loops, `fetchBlockTxids`, the patch loop
  `patchTransactions` shared by both;
* `processBlock` — the state machine of the spec's §4.4.  Its `RuleError` branch declares
  `blk, err := s.fetchBlockTxids(blk, relayingPeer)` inside the `if`, so the helper loop
  `repairFromPeers` starts from the shadowed `blk`, which is `nil` after a failed repair;
* the finalize `waiter`, which re-enters `processBlock` while it holds `orphanLock`;
* `fetchBlock` (its `RUnlock` is deferred past `GetBlockByID`) and `requestBlock`, whose
  second `RLock` stands where the source releases the read lock.

`processBlock_eq` is the recursion equation of the source: a re-check never re-enters, so
one unfolding of `processBlockStep` is the whole function.
-/

set_option autoImplicit false

namespace Ilxd

/-- `err.Error()` text of a non-`None` response. -/
def ErrorResponse.text : ErrorResponse → String
  | .None => "None"
  | .NotFound => "NotFound"
  | .BadRequest => "BadRequest"

/-! ## Chain-service client -/

/-- `ChainService.GetBlockTxs`. -/
def getBlockTxs (p : PeerID) (blockID : ID) (txIndexes : List UInt32) :
    Prog (Except String (List Transaction)) := do
  match ← perform (.sendRequest p (.getBlockTxs ⟨blockID, txIndexes⟩)) with
  | .error e => return .error e
  | .ok resp =>
    if resp.error ≠ .None then return .error ("error response from peer: " ++ resp.error.text)
    else if resp.transactions.length ≠ txIndexes.length then do
      perform (.increaseBanscore p 50 0)
      return .error ("peer " ++ toString p ++ " did not return all requested txs")
    else return .ok resp.transactions

/-- `ChainService.GetBlockTxids`. -/
def getBlockTxids (p : PeerID) (blockID : ID) : Prog (Except String (List ID)) := do
  match ← perform (.sendRequest p (.getBlockTxids blockID)) with
  | .error e => return .error e
  | .ok resp =>
    if resp.error ≠ .None then return .error ("error response from peer: " ++ resp.error.text)
    else return .ok resp.txids

/-- `ChainService.GetBlock`: the block of the response, `nil` included, unchecked. -/
def getBlock (p : PeerID) (blockID : ID) : Prog (Except String (Option Block)) := do
  match ← perform (.sendRequest p (.getBlock blockID)) with
  | .error e => return .error e
  | .ok resp =>
    if resp.error ≠ .None then return .error ("error response from peer: " ++ resp.error.text)
    else return .ok resp.block

/-! ## Repairing a block's transactions -/

/-- `for i, tx := range txs { blk.Transactions[missing[i]] = tx }`. -/
def patchTransactions (blk : Block) : List UInt32 → List Transaction → Except RuntimePanic Block
  | _, [] => .ok blk
  | [], _ :: _ => .error .indexOutOfRange
  | m :: ms, tx :: txs => do
    let t ← sliceSet blk.transactions m.toNat tx
    patchTransactions { blk with transactions := t } ms txs

/-- A Go statement that may panic. -/
def orPanic {α : Type} : Except RuntimePanic α → Prog α
  | .ok a => .ret a
  | .error _ => .panic

theorem orPanic_all {α : Type} (P : Cmd → Bool) (e : Except RuntimePanic α) :
    (orPanic e).All P := by
  cases e <;> trivial

/-- The indices `i` (from `start`) with `tx.ID() != txids[i]`, as `uint32(i)`. -/
def missingIndexes (start : Nat) : List Transaction → List ID → List UInt32
  | tx :: txs, txid :: txids =>
    if tx.ID ≠ txid then UInt32.ofNat start :: missingIndexes (start + 1) txs txids
    else missingIndexes (start + 1) txs txids
  | _, _ => []

/-- `GetBlockTxs` for the `missing` slots of `blk`, then the patch loop; shared by
`decodeXthinner` (three times) and `fetchBlockTxids`. -/
def getBlockTxsInto (p : PeerID) (blockID : ID) (blk : Block) (missing : List UInt32) :
    Prog (Except String Block) := do
  match ← getBlockTxs p blockID missing with
  | .error e => return .error e
  | .ok txs => .ok <$> orPanic (patchTransactions blk missing txs)

/-- `Server.fetchBlockTxids`; `blk.ID()` dereferences the block pointer. -/
def fetchBlockTxids (blk : Option Block) (p : PeerID) : Prog (Except String Block) :=
  match blk with
  | none => .panic
  | some blk => do
    match ← getBlockTxids p blk.ID with
    | .error e => return .error e
    | .ok txids =>
      if txids.length ≠ blk.transactions.length then
        return .error "getblocktxids: peer returned unexpected  number of IDs"
      else
        let missing := missingIndexes 0 blk.transactions txids
        if missing.length = 0 then return .error "block invalid"
        else getBlockTxsInto p blk.ID blk missing

/-- The helper loop of `decodeXthinner`: the first peer whose `GetBlockTxs` succeeds fills
the missing slots; otherwise the block is returned as decoded. -/
def decodeFromPeers (x : XThinnerBlock) (blk : Block) (missing : List UInt32) :
    List PeerID → Prog (Except String Block)
  | [] => return .ok blk
  | pid :: ps => do
    match ← getBlockTxsInto pid x.ID blk missing with
    | .ok blk => return .ok blk
    | .error _ => decodeFromPeers x blk missing ps

/-- `Server.decodeXthinner`. -/
def decodeXthinner (x : XThinnerBlock) (relayingPeer : PeerID) : Prog (Except String Block) := do
  let (blk, missing) ← perform (.decodeXthinner x)
  if missing.length > 0 then
    match ← getBlockTxsInto relayingPeer x.ID blk missing with
    | .ok blk => return .ok blk
    | .error _ => do
      perform (.increaseBanscore relayingPeer 34 0)
      let ps ← perform .peers
      decodeFromPeers x blk missing ps
  else return .ok blk

/-- RPCs to peers and ban-score increases: all the repair helpers do. -/
def Cmd.isPeerOp : Cmd → Bool
  | .sendRequest _ _ | .increaseBanscore _ _ _ => true
  | _ => false

section PeerOps

theorem getBlockTxs_peerOps (p : PeerID) (blockID : ID) (is : List UInt32) :
    (getBlockTxs p blockID is).All Cmd.isPeerOp := by
  refine ⟨rfl, fun r => ?_⟩
  rcases r with e | resp
  · trivial
  · simp only [Prog.ret_bind]; split_ifs <;> simp [perform, Cmd.isPeerOp]

theorem getBlockTxids_peerOps (p : PeerID) (blockID : ID) :
    (getBlockTxids p blockID).All Cmd.isPeerOp := by
  refine ⟨rfl, fun r => ?_⟩
  rcases r with e | resp
  · trivial
  · simp only [Prog.ret_bind]; split_ifs <;> trivial

theorem getBlock_peerOps (p : PeerID) (blockID : ID) : (getBlock p blockID).All Cmd.isPeerOp := by
  refine ⟨rfl, fun r => ?_⟩
  rcases r with e | resp
  · trivial
  · simp only [Prog.ret_bind]; split_ifs <;> trivial

theorem getBlockTxsInto_peerOps (p : PeerID) (blockID : ID) (blk : Block)
    (missing : List UInt32) : (getBlockTxsInto p blockID blk missing).All Cmd.isPeerOp :=
  Prog.All.bind (getBlockTxs_peerOps p blockID missing) fun
    | .error _ => trivial
    | .ok _ => Prog.All.bind (orPanic_all _ _) fun _ => trivial

/-- **`fetchBlockTxids` only talks to the peer.** -/
theorem fetchBlockTxids_peerOps (blk : Option Block) (p : PeerID) :
    (fetchBlockTxids blk p).All Cmd.isPeerOp := by
  cases blk with
  | none => trivial
  | some blk =>
    refine Prog.All.bind (getBlockTxids_peerOps p blk.ID) fun r => ?_
    rcases r with e | txids
    · trivial
    · dsimp only
      split_ifs
      · trivial
      · trivial
      · exact getBlockTxsInto_peerOps p blk.ID blk _

end PeerOps

/-! ## `processBlock` -/

/-- The helper loop of `processBlock`'s txroot repair.  `cur` is the `blk` declared by
`blk, err := s.fetchBlockTxids(blk, relayingPeer)`; `err` is the outer rule error. -/
def repairFromPeers (recheckWith : Block → Prog Verdict) (err : Verdict) :
    List PeerID → Option Block → Prog Verdict
  | [], _ => return err
  | pid :: ps, cur => do
    match ← fetchBlockTxids cur pid with
    | .ok blk => recheckWith blk
    | .error _ => repairFromPeers recheckWith err ps none

/-- The `OrphanBlockError` branch: store the block with its relaying peer. -/
def storeOrphan (blk : Option Block) (relayingPeer : PeerID) : Prog Verdict :=
  match blk with
  | none => .panic
  | some blk => do
    perform (.lock .orphan .write)
    perform (.putOrphan blk.ID ⟨blk, relayingPeer⟩)
    perform (.unlock .orphan .write)
    return .orphan

/-- Steps 3 and 4: register the block in `activeInventory`, drop its orphan entry, submit
it to consensus and start its waiter. -/
def submitBlock (blk : Option Block) : Prog Verdict :=
  match blk with
  | none => .panic
  | some blk => do
    let callback ← perform .makeChan
    perform (.lock .inventory .write)
    perform (.putInventory blk.ID blk)
    perform (.unlock .inventory .write)
    perform (.lock .orphan .write)
    perform (.deleteOrphan blk.ID)
    perform (.unlock .orphan .write)
    perform (.newBlock blk.ID callback)
    perform (.go (.waiter blk callback))
    return .ok

/-- The `RuleError` branch. -/
def onRuleError (recheckWith : Block → Prog Verdict) (blk : Option Block)
    (relayingPeer : PeerID) (recheck : Bool) (k : RuleKind) : Prog Verdict :=
  if recheck then do
    perform (.increaseBanscore relayingPeer 34 0)
    return .rule k
  else
    match k with
    | .invalidTxRoot => do
      match ← fetchBlockTxids blk relayingPeer with
      | .ok blk => recheckWith blk
      | .error _ => do
        perform (.increaseBanscore relayingPeer 34 0)
        let ps ← perform .peers
        repairFromPeers recheckWith (.rule k) ps none
    | .doesNotConnect => do
      perform (.increaseBanscore relayingPeer 0 10)
      return .rule k
    | .other => do
      perform (.increaseBanscore relayingPeer 101 0)
      return .rule k

/-- The body of `Server.processBlock`, with its re-entry `processBlock(blk, relayingPeer,
true)` given as `recheckWith`. -/
def processBlockStep (recheckWith : Block → Prog Verdict) (blk : Option Block)
    (relayingPeer : PeerID) (recheck : Bool) : Prog Verdict := do
  match ← perform (.checkConnectBlock blk) with
  | .orphan => storeOrphan blk relayingPeer
  | .rule k => onRuleError recheckWith blk relayingPeer recheck k
  | .other => return .other
  | .ok => submitBlock blk

/-- `Server.processBlock`.  A re-check never calls `recheckWith`, so the unreachable
re-entry of the inner call is `panic`. -/
def processBlock (blk : Option Block) (relayingPeer : PeerID) (recheck : Bool) : Prog Verdict :=
  processBlockStep (fun b => processBlockStep (fun _ => .panic) (some b) relayingPeer true)
    blk relayingPeer recheck

/-- `Server.handleIncomingBlock`; a decoding error is returned as it is. -/
def handleIncomingBlock (x : XThinnerBlock) (p : PeerID) : Prog Verdict := do
  match ← decodeXthinner x p with
  | .error _ => return .other
  | .ok blk => processBlock (some blk) p false

/-! ## Waiter, `fetchBlock`, `requestBlock` -/

/-- Lines 332–347 of the goroutine started by `processBlock`: drop the block from
`activeInventory`, then re-enter `processBlock` for one orphan at the next height while
holding `orphanLock`. -/
def waiterCleanup (blk : Block) : Prog Unit := do
  perform (.lock .inventory .write)
  perform (.deleteInventory blk.ID)
  perform (.unlock .inventory .write)
  perform (.lock .orphan .write)
  match ← perform (.orphanAtHeight (blk.height + 1)) with
  | none => perform (.unlock .orphan .write)
  | some orphan => do
    let _ ← processBlock (some orphan.blk) orphan.relayingPeer false
    perform (.unlock .orphan .write)

/-- The goroutine started by `processBlock`: wait for the status (or the root context),
connect on finalize, then `waiterCleanup`. -/
def waiter (blk : Block) (callback : Nat) : Prog Unit := do
  match ← perform (.recv callback) with
  | none => return ()
  | some status => do
    if status = .finalized then
      let _ ← perform (.connectBlock blk)
    waiterCleanup blk

/-- The function `time.AfterFunc` runs five minutes after a `requestBlock`. -/
def clearInflight (blockID : ID) : Prog Unit := do
  perform (.lock .inflight .write)
  perform (.deleteInflight blockID)
  perform (.unlock .inflight .write)

/-- The code of a goroutine the coordinator starts. -/
def Task.prog : Task → Prog Unit
  | .waiter blk callback => Ilxd.waiter blk callback
  | .clearInflight blockID => Ilxd.clearInflight blockID

/-- `Server.fetchBlock`; the deferred `RUnlock` runs after `GetBlockByID`. -/
def fetchBlock (blockID : ID) : Prog (Option Block) := do
  perform (.lock .inventory .read)
  match ← perform (.getInventory blockID) with
  | some blk => do
    perform (.unlock .inventory .read)
    return some blk
  | none => do
    let r ← perform (.getBlockByID blockID)
    perform (.unlock .inventory .read)
    return r

/-- Lines 428–447 of `requestBlock`: register the request, fetch the block and process it. -/
def fetchRequested (blockID : ID) (remotePeer : PeerID) : Prog Unit := do
  perform (.lock .inflight .write)
  perform (.putInflight blockID)
  perform (.unlock .inflight .write)
  match ← getBlock remotePeer blockID with
  | .error _ => do
    perform (.lock .inflight .write)
    perform (.deleteInflight blockID)
    perform (.unlock .inflight .write)
  | .ok blk => do
    let _ ← processBlock blk remotePeer false
    perform (.afterFunc (.clearInflight blockID))

/-- `Server.requestBlock`.  Line 426 takes the read lock a second time. -/
def requestBlock (blockID : ID) (remotePeer : PeerID) : Prog Unit := do
  perform (.lock .inflight .read)
  if ← perform (.hasInflight blockID) then
    perform (.unlock .inflight .read)
  else do
    perform (.lock .inflight .read)
    fetchRequested blockID remotePeer

end Ilxd
