import Mathlib.Data.List.Permutation
import Mathlib.Logic.Function.Basic
import PoseidonServer.Conn.Types

/-! The shared state of one server connection. The fields after the comment `history` record
what has happened; no operation of the source reads them. -/

namespace PoseidonServer.Conn

/-- What the embedder configures, and the third-party HPACK decoder: the answer to a block
depends on the blocks fed to it before. -/
structure Env where
  opts : ServerConnOptions
  decode : List Bytes → Bytes → Except String (List HeaderField)

def Env.cfg (env : Env) : ServerConnOptions := env.opts.defaulted

inductive Ctx
  | background
  | stream (x : Nat)
  | request (n : Nat)
  deriving DecidableEq

structure Stream where
  st : StreamState := {}
  events : List StreamEvent := []
  cap : Nat
  eventsClosed : Bool := false
  cancelled : Bool := false
  priority : Option Priority := none
  recvWindow : Int
  recvRefundPending : Nat := 0
  sendWindow : Int := 0
  fcHead : List Nat := []
  -- history
  recvd : List StreamEvent := []
  dropped : Bool := false
  recvBusy : List Nat := []
  base : Int := 0
  granted : Int := 0
  debited : Int := 0
  saturated : Bool := false
  stale : Bool := false

/-- A writer parked for send credit; it belongs to the goroutine that parks. -/
structure Waiter where
  ss : Nat := 0
  ready : Bool := false
  needConn : Bool := false
  queued : Bool := false
  deriving DecidableEq

structure Handler where
  pendingStreamID : Nat := 0
  pendingBuf : Bytes := []
  pendingEndStream : Bool := false
  pendingTrailer : Bool := false
  pendingDiscard : Bool := false
  deriving DecidableEq

structure SettingsRecorder where
  peer : SettingsParams := []
  peerSeen : Bool := false
  ackSeen : Bool := false

/-- A wake step that a goroutine has made necessary and not yet run. -/
inductive Notice
  | stream (x : Nat)
  | all
  deriving DecidableEq

structure World where
  str : Nat → Option Stream := fun _ => none
  -- the stream table
  live : List Nat := []
  maxClient : Nat := 0
  nextPush : Nat := 2
  nClient : Int := 0
  nPush : Int := 0
  tmu : Option Nat := none
  -- the write side
  wmu : Option Nat := none
  closed : Bool := false
  down : Bool := false
  connCancelled : Bool := false
  requestsDone : List Nat := []
  goAwayRequested : Bool := false
  goAwaySentID : Nat := maxStreamID
  peerGoAway : Bool := false
  peerSettings : SettingsParams := []
  -- the reader
  reader : Option Nat := none
  readerDone : Bool := false
  established : Bool := false
  recorder : SettingsRecorder := {}
  handler : Handler := {}
  acceptCh : List Nat := []
  streamsAccepted : Nat := 0
  rapidResetCount : Nat := 0
  -- flow control
  connRecvWindow : Int
  connRefundPending : Nat := 0
  fcOutMu : Option Nat := none
  peerConnSendWindow : Int := connInitialRecvWindow
  fcHead : List Nat := []
  fcConnBlocked : Int := 0
  waiter : Nat → Waiter := fun _ => {}
  -- history
  inbound : List Inbound := []
  decoded : List Bytes := []
  encoded : List (List HeaderField) := []
  wire : List Outbound := []
  drained : List Nat := []
  delivered : List Nat := []
  owed : List (Nat × Notice) := []
  inHand : List (Nat × Nat × Nat) := []
  connGranted : Int := 0
  connDebited : Int := 0
  connSaturated : Bool := false

/-- A connection whose preface has been read and whose SETTINGS have been written. -/
def World.init (env : Env) : World where
  connRecvWindow := env.cfg.effectiveConnRecvWindow
  wire := [.settings (encodeAdvertised env.cfg.advertisedSettings)]

namespace World

variable (w : World)

def initialWindow : Nat := settingValue w.peerSettings .initialWindowSize connInitialRecvWindow

def peerMaxFrameSize : Nat := settingValue w.peerSettings .maxFrameSize 16384

def setStr (x : Nat) (s : Stream) : World := { w with str := Function.update w.str x (some s) }

def upd (x : Nat) (f : Stream → Stream) : World :=
  match w.str x with
  | some s => w.setStr x (f s)
  | none => w

def setWaiter (i : Nat) (v : Waiter) : World :=
  { w with waiter := Function.update w.waiter i v }

def state (x : Nat) : StreamState := ((w.str x).map (·.st)).getD {}

def ctxDone : Ctx → Bool
  | .background => false
  | .stream x => w.connCancelled || (w.str x).any (·.cancelled)
  | .request n => n ∈ w.requestsDone

def idle (id : Nat) : Bool := if id % 2 = 1 then id > w.maxClient else id ≥ w.nextPush

def validateClientID (id : Nat) : Except GoErr Unit :=
  if id % 2 = 0 then .error (.connError .protocolError "client-initiated stream ID must be odd")
  else if id ≤ w.maxClient then
    .error (.connError .protocolError "client stream ID must exceed all previous client streams")
  else .ok ()

/-- The stream object is made just before it is admitted; a refused one stays outside the
table. -/
def admitClient (env : Env) (id : Nat) (prio : Option Priority) : Bool × World :=
  let w := { w with maxClient := max w.maxClient id }
  let s : Stream :=
    { cap := env.cfg.eventBuf, recvWindow := int32 env.cfg.recvWindowSeed, priority := prio }
  let limit := env.cfg.advertisedSettings.maxConcurrentStreams
  if 0 < limit ∧ (limit : Int) ≤ w.nClient then (false, w.setStr id s)
  else
    let initial : Int := int32 w.initialWindow
    (true, { w.setStr id { s with sendWindow := initial, base := w.initialWindow } with
      live := id :: w.live, nClient := w.nClient + 1 })

def reservePush (limit : Nat) : Option Nat × World :=
  if limit ≠ noStreamLimit ∧ (limit : Int) ≤ w.nPush then (none, w)
  else
    let s : Stream :=
      { st := { recvEnded := true }, cap := 4, recvWindow := 0
        sendWindow := int32 w.initialWindow, base := w.initialWindow }
    (some w.nextPush, { w.setStr w.nextPush s with
      live := w.nextPush :: w.live, nPush := w.nPush + 1, nextPush := w.nextPush + 2 })

def release (id : Nat) : Bool × World :=
  if id ∈ w.live then
    (true, { w with
      live := w.live.erase id
      nClient := if id % 2 = 1 then w.nClient - 1 else w.nClient
      nPush := if id % 2 = 1 then w.nPush else w.nPush - 1 })
  else (false, w)

def drain : World :=
  { w with live := [], nClient := 0, nPush := 0, drained := w.live ++ w.drained }

def publishSettings (s : SettingsParams) : (Nat × Nat) × World :=
  let w' := { w with peerSettings := setPeerSettings w.peerSettings s }
  ((w.initialWindow, w'.initialWindow), w')

def owe (i : Nat) (n : Notice) : World := { w with owed := (i, n) :: w.owed }

def settle (i : Nat) (n : Notice) : World := { w with owed := w.owed.filter (· ≠ (i, n)) }

def adjustWindow (i x : Nat) (delta : Int) : Bool × World :=
  match w.str x with
  | none => (true, w)
  | some s =>
    if s.sendWindow + delta > maxWindow then (false, w.setStr x { s with stale := true })
    else (true, (w.setStr x { s with
      sendWindow := int32 (s.sendWindow + delta), base := s.base + delta }).owe i .all)

def growStream (i x increment : Nat) : Bool × World :=
  match w.str x with
  | none => (true, w)
  | some s =>
    if s.sendWindow + increment > maxWindow then (false, w)
    else (true, (w.setStr x { s with
      sendWindow := int32 (s.sendWindow + increment)
      granted := s.granted + increment }).owe i (.stream x))

def growConn (increment : Nat) : Bool × World :=
  if w.peerConnSendWindow + increment > maxWindow then (false, w)
  else (true, { w with
    peerConnSendWindow := int32 (w.peerConnSendWindow + increment),
    connGranted := w.connGranted + increment })

def debitConn (n : Int) : World :=
  { w with peerConnSendWindow := w.peerConnSendWindow - n, connDebited := w.connDebited + n }

def takeSendCredits (x want : Nat) : Option Nat × World :=
  match w.str x with
  | none => (none, w)
  | some s =>
    let avail := min s.sendWindow w.peerConnSendWindow
    if avail ≤ 0 then (none, w)
    else
      let n := min (int32 want) avail
      (some n.toNat, (w.setStr x { s with
        sendWindow := s.sendWindow - n, debited := s.debited + n }).debitConn n)

def refundConn (n : Nat) : World :=
  { w with
    peerConnSendWindow := addWindowSaturating w.peerConnSendWindow n,
    connDebited := w.connDebited - n,
    connSaturated := w.connSaturated || w.peerConnSendWindow + n > maxWindow }

def refundStream (x n : Nat) : World :=
  w.upd x fun s => { s with
    sendWindow := addWindowSaturating s.sendWindow n,
    debited := s.debited - n,
    saturated := s.saturated || s.sendWindow + n > maxWindow }

def newWaiter (i x : Nat) : World := w.setWaiter i { ss := x }

def sampleNeedConn (i : Nat) : World :=
  w.setWaiter i { w.waiter i with needConn := (w.str (w.waiter i).ss).any (0 < ·.sendWindow) }

def fcPark (i : Nat) : World :=
  let v := w.waiter i
  if v.queued then w
  else
    let w := w.upd v.ss fun s => { s with fcHead := i :: s.fcHead }
    { w.setWaiter i { v with queued := true } with
      fcHead := i :: w.fcHead
      fcConnBlocked := if v.needConn then w.fcConnBlocked + 1 else w.fcConnBlocked }

def fcUnpark (i : Nat) : World :=
  let v := w.waiter i
  if !v.queued then w
  else
    let w := w.upd v.ss fun s => { s with fcHead := s.fcHead.erase i }
    { w.setWaiter i { v with queued := false } with
      fcHead := w.fcHead.erase i
      fcConnBlocked := if v.needConn then w.fcConnBlocked - 1 else w.fcConnBlocked }

def fcWake (i : Nat) : World :=
  let w := w.fcUnpark i
  w.setWaiter i { w.waiter i with ready := true }

def fcWakeAll : World := w.fcHead.foldl fcWake w

def fcWakeConn : World :=
  if w.fcConnBlocked = 0 then w
  else w.fcHead.foldl (fun w i => if (w.waiter i).needConn then w.fcWake i else w) w

def fcWakeStream (x : Nat) : World :=
  match w.str x with
  | some s => s.fcHead.foldl fcWake w
  | none => w

def hold (i x n : Nat) : World := { w with inHand := (i, x, n) :: w.inHand }

def handOn (i x n : Nat) : World := { w with inHand := w.inHand.erase (i, x, n) }

def trySend (i x : Nat) (e : StreamEvent) : Bool × World :=
  match w.str x with
  | none => (false, w)
  | some s =>
    if s.events.length < s.cap ∧ !s.eventsClosed then
      (true, (w.setStr x { s with events := s.events ++ [e] }).handOn i x e.octets)
    else (false, w.setStr x { s with dropped := true })

def dequeue (i x : Nat) : Option (StreamEvent × World) :=
  match w.str x with
  | none => none
  | some s => match s.events with
    | [] => none
    | e :: es => some (e, (w.setStr x { s with
        events := es, recvd := s.recvd ++ [e], recvBusy := i :: s.recvBusy }).hold i x e.octets)

def debitRecv (x length : Nat) : Bool × World :=
  match w.str x with
  | none => (true, w)
  | some s =>
    let r := int32 (s.recvWindow - int32 length)
    (decide (0 ≤ r), w.setStr x { s with recvWindow := r })

def creditRecv (i x n : Nat) : Nat × World :=
  match w.str x with
  | none => (0, w)
  | some s =>
    let pending := s.recvRefundPending + n
    let w := w.handOn i x n
    if pending ≥ recvWindowRefundThreshold then
      (pending, (w.setStr x { s with
        recvRefundPending := 0, recvWindow := int32 (s.recvWindow + int32 pending) }).hold i x pending)
    else (0, w.setStr x { s with recvRefundPending := pending })

def debitConnRecv (length : Nat) : Option Nat × World :=
  let r := int32 (w.connRecvWindow - int32 length)
  if r < 0 then (none, { w with connRecvWindow := r })
  else
    let pending := w.connRefundPending + length
    if pending ≥ recvWindowRefundThreshold then
      (some pending, { w with
        connRefundPending := 0, connRecvWindow := int32 (r + int32 pending) })
    else (some 0, { w with connRecvWindow := r, connRefundPending := pending })

end World

end PoseidonServer.Conn
