import PoseidonServer.Concurrent.Prog
import PoseidonServer.Conn.World

/-! The atomic steps of a connection. A section under a leaf lock (`t.mu`, `ss.mu`, `fcMu`,
`psMu`), an atomic access and a channel operation that does not wait are one step each; the
locks that are held across other steps, `wmu`, `fcOutMu` and `t.mu` during a SETTINGS change,
are steps of their own. -/

namespace PoseidonServer.Conn

open Concurrent

inductive Op : Type → Type
  -- the reader
  | readFrame (f : Inbound) : Op Unit
  | frameDone : Op Unit
  | stopReader : Op Unit
  | loadHandler : Op Handler
  | storeHandler (h : Handler) : Op Unit
  | decodeBlock (hb : Bytes) : Op (Except String (List HeaderField))
  | loadRecorder : Op SettingsRecorder
  | storeRecorder (r : SettingsRecorder) : Op Unit
  | isEstablished : Op Bool
  | establish : Op Unit
  | addRapidReset : Op Nat
  | notePeerGoAway : Op Unit
  -- the stream table
  | lookup (x : Nat) : Op Bool
  | idle (x : Nat) : Op Bool
  | validateClientID (x : Nat) : Op (Except GoErr Unit)
  | admitClient (x : Nat) (prio : Option Priority) : Op Bool
  | reservePush (limit : Nat) : Op (Option Nat)
  | release (x : Nat) : Op Bool
  | lastPeerID : Op Nat
  | drain : Op (List Nat)
  | lockTable : Op Unit
  | unlockTable : Op Unit
  | publishSettings (s : SettingsParams) : Op (Nat × Nat)
  | liveStreams : Op (List Nat)
  | adjustWindow (x : Nat) (delta : Int) : Op Bool
  | peerSettings : Op SettingsParams
  -- one stream
  | state (x : Nat) : Op StreamState
  | advance (x : Nat) (delta : StreamState) : Op StreamState
  | priority (x : Nat) : Op (Option Priority)
  | setPriority (x : Nat) (prio : Option Priority) : Op Unit
  | cancelStream (x : Nat) : Op Unit
  | trySend (x : Nat) (e : StreamEvent) : Op Bool
  | closeEvents (x : Nat) : Op Unit
  | tryRecv (x : Nat) : Op (Option (Option StreamEvent))
  | awaitRecv (x : Nat) (ctx : Ctx) : Op (Except GoErr (Option StreamEvent))
  | recvReturn (x : Nat) : Op Unit
  | debitRecv (x length : Nat) : Op Bool
  | creditRecv (x n : Nat) : Op Nat
  | debitConnRecv (length : Nat) : Op (Option Nat)
  | connRecvWindow : Op Int
  -- send credit
  | lockFc : Op Unit
  | unlockFc : Op Unit
  | growStream (x increment : Nat) : Op Bool
  | growConn (increment : Nat) : Op Bool
  | takeSendCredits (x want : Nat) : Op (Option Nat)
  | refundConn (n : Nat) : Op Unit
  | refundStream (x n : Nat) : Op Unit
  | newWaiter (x : Nat) : Op Unit
  | sampleNeedConn : Op Unit
  | fcPark : Op Unit
  | fcUnpark : Op Unit
  | awaitReady (ctx : Ctx) : Op Unit
  | drainReady : Op Unit
  | fcWakeStream (x : Nat) : Op Unit
  | fcWakeConn : Op Unit
  | fcWakeAll : Op Unit
  | ctxErr (ctx : Ctx) : Op Bool
  -- the write side
  | lockW : Op Unit
  | unlockW : Op Unit
  | encodeBlock (fields : List HeaderField) : Op Unit
  | setMaxDynamicTableSize (n : Nat) : Op Unit
  | write (f : Outbound) : Op Bool
  | isClosed : Op Bool
  | close : Op Bool
  | requestGoAway : Op Bool
  | goAwayDone : Op Unit
  | clampGoAwayID (id : Nat) : Op Nat
  | hasPeerGoAway : Op Bool
  | cancelConn : Op Unit
  | closeTransport : Op Unit
  | awaitReaderDone : Op Unit
  -- accepting
  | tryEnqueue (x : Nat) : Op Bool
  | tryAccept : Op (Option Nat)
  | awaitAccept (ctx : Ctx) : Op (Except GoErr Nat)
  | deliver (x : Nat) : Op Bool
  -- the embedder
  | cancelRequest (n : Nat) : Op Unit

namespace Op

variable (env : Env) (i : Nat) (w : World)

/-- A lock is taken when it is free; the step blocks otherwise. -/
def whenFree (owner : Option Nat) (w : World) : List (Unit × World) :=
  if owner = none then [((), w)] else []

/-- A step of the table or of a stream window waits for a SETTINGS change to finish. -/
def underTable (r : β × World) : List (β × World) := if w.tmu = none then [r] else []

def exec : Op β → List (β × World)
  | .readFrame f =>
    if w.reader = none ∧ !w.readerDone then
      let w := { w with reader := some i, inbound := w.inbound ++ [f] }
      match f with
      | .data x _ length _ => [((), w.hold i x length)]
      | _ => [((), w)]
    else []
  | .frameDone => [((), { w with reader := none })]
  | .stopReader => [((), { w with reader := none, readerDone := true })]
  | .loadHandler => [(w.handler, w)]
  | .storeHandler h => [((), { w with handler := h })]
  | .decodeBlock hb => [(env.decode w.decoded hb, { w with decoded := w.decoded ++ [hb] })]
  | .loadRecorder => [(w.recorder, w)]
  | .storeRecorder r => [((), { w with recorder := r })]
  | .isEstablished => [(w.established, w)]
  | .establish => [((), { w with established := true })]
  | .addRapidReset => [(w.rapidResetCount + 1, { w with rapidResetCount := w.rapidResetCount + 1 })]
  | .notePeerGoAway => [((), { w with peerGoAway := true })]
  | .lookup x => underTable w (x ∈ w.live, w)
  | .idle x => underTable w (w.idle x, w)
  | .validateClientID x => underTable w (w.validateClientID x, w)
  | .admitClient x prio => underTable w (w.admitClient env x prio)
  | .reservePush limit => underTable w (w.reservePush limit)
  | .release x => underTable w (w.release x)
  | .lastPeerID => underTable w (w.maxClient, w)
  | .drain => if w.tmu = none then w.live.permutations.map fun l => (l, w.drain) else []
  | .lockTable => whenFree w.tmu { w with tmu := some i }
  | .unlockTable => [((), { w with tmu := none })]
  | .publishSettings s => [w.publishSettings s]
  | .liveStreams => w.live.permutations.map fun l => (l, w)
  | .adjustWindow x delta => [w.adjustWindow i x delta]
  | .peerSettings => [(w.peerSettings, w)]
  | .state x => [(w.state x, w)]
  | .advance x delta => [(w.state x, w.upd x fun s => { s with st := s.st.union delta })]
  | .priority x => [((w.str x).bind (·.priority), w)]
  | .setPriority x prio => [((), w.upd x fun s => { s with priority := prio.or s.priority })]
  | .cancelStream x => [((), w.upd x fun s => { s with cancelled := true })]
  | .trySend x e => [w.trySend i x e]
  | .closeEvents x => [((), w.upd x fun s => { s with eventsClosed := true })]
  | .tryRecv x => match w.dequeue i x with
    | some (e, w') => [(some (some e), w')]
    | none => [(if (w.str x).any (·.eventsClosed) then some none else none, w)]
  | .awaitRecv x ctx =>
    (match w.dequeue i x with
      | some (e, w') => [(.ok (some e), w')]
      | none => if (w.str x).any (·.eventsClosed) then [(.ok none, w)] else []) ++
    if w.ctxDone ctx then [(.error .ctx, w)] else []
  | .recvReturn x => [((), w.upd x fun s => { s with recvBusy := s.recvBusy.erase i })]
  | .debitRecv x length => [w.debitRecv x length]
  | .creditRecv x n => [w.creditRecv i x n]
  | .debitConnRecv length => [w.debitConnRecv length]
  | .connRecvWindow => [(w.connRecvWindow, w)]
  | .lockFc => whenFree w.fcOutMu { w with fcOutMu := some i }
  | .unlockFc => [((), { w with fcOutMu := none })]
  | .growStream x increment => [w.growStream i x increment]
  | .growConn increment => [w.growConn increment]
  | .takeSendCredits x want => [w.takeSendCredits x want]
  | .refundConn n => [((), w.refundConn n)]
  | .refundStream x n => [((), w.refundStream x n)]
  | .newWaiter x => [((), w.newWaiter i x)]
  | .sampleNeedConn => [((), w.sampleNeedConn i)]
  | .fcPark => [((), w.fcPark i)]
  | .fcUnpark => [((), w.fcUnpark i)]
  | .awaitReady ctx =>
    (if (w.waiter i).ready then [((), w.setWaiter i { w.waiter i with ready := false })] else []) ++
    if w.ctxDone ctx then [((), w)] else []
  | .drainReady => [((), w.setWaiter i { w.waiter i with ready := false })]
  | .fcWakeStream x => [((), (w.fcWakeStream x).settle i (.stream x))]
  | .fcWakeConn => [((), w.fcWakeConn)]
  | .fcWakeAll => [((), (w.fcWakeAll).settle i .all)]
  | .ctxErr ctx => [(w.ctxDone ctx, w)]
  | .lockW => whenFree w.wmu { w with wmu := some i }
  | .unlockW => [((), { w with wmu := none })]
  | .encodeBlock fields => [((), { w with encoded := w.encoded ++ [fields] })]
  | .setMaxDynamicTableSize _ => [((), w)]
  | .write f =>
    if w.down then [(false, w)]
    else
      let w := { w with wire := w.wire ++ [f] }
      match f with
      | .windowUpdate x n => [(true, if x = 0 then w else w.handOn i x n)]
      | _ => [(true, w)]
  | .isClosed => [(w.closed, w)]
  | .close => if w.closed then [(false, w)]
    else [(true, { w with closed := true }.owe i .all)]
  | .requestGoAway => [(!w.goAwayRequested, { w with goAwayRequested := true })]
  | .goAwayDone => [((), { w with goAwayRequested := true })]
  | .clampGoAwayID id =>
    [(min id w.goAwaySentID, { w with goAwaySentID := min id w.goAwaySentID })]
  | .hasPeerGoAway => [(w.peerGoAway, w)]
  | .cancelConn => [((), { w with connCancelled := true })]
  | .closeTransport => [((), { w with down := true })]
  | .awaitReaderDone => if w.readerDone then [((), w)] else []
  | .tryEnqueue x =>
    if w.acceptCh.length < env.cfg.acceptQueueDepth then
      [(true, { w with acceptCh := w.acceptCh ++ [x] })]
    else [(false, w)]
  | .tryAccept => match w.acceptCh with
    | [] => [(none, w)]
    | x :: xs => [(some x, { w with acceptCh := xs })]
  | .awaitAccept ctx =>
    (match w.acceptCh with
      | [] => []
      | x :: xs => [(.ok x, { w with acceptCh := xs })]) ++
    (if w.readerDone then [(.error .connClosed, w)] else []) ++
    if w.ctxDone ctx then [(.error .ctx, w)] else []
  | .deliver x =>
    if (w.state x).terminal then [(false, w)]
    else [(true, { w with
      streamsAccepted := w.streamsAccepted + 1, delivered := w.delivered ++ [x] })]
  | .cancelRequest n => [((), { w with requestsDone := n :: w.requestsDone })]

end Op

abbrev machine (env : Env) : Machine Op World where
  exec i _ o w := o.exec env i w

end PoseidonServer.Conn
