import PoseidonServer.Concurrent.Logic
import PoseidonServer.Conn.Handler

/-! The goroutines of a connection: the handshake, the reader loop, and the calls that
accepting and handler goroutines make (`server_conn.go`, `server_upgrade.go`). -/

namespace PoseidonServer.Conn

open Concurrent

def writeGoAway (last : Nat) (code : ErrCode) : M Bool := do
  let last ← .lift (.clampGoAwayID last)
  .lift (.write (.goAway last code))

def sendGoAway (code : ErrCode) : M Unit := do
  if ← .lift .requestGoAway then
    .lift .lockW
    if ← .lift .isClosed then pure ()
    else
      let last ← .lift .lastPeerID
      let _ ← writeGoAway last code
      pure ()
    .lift .unlockW
  else pure ()

def shutdownEach : List Nat → M Unit
  | [] => pure ()
  | x :: xs => do
    let _ ← .lift (.trySend x (.reset .internalError))
    .lift (.closeEvents x)
    .lift (.cancelStream x)
    shutdownEach xs

def shutdownStreams : M Unit := do
  let xs ← .lift .drain
  shutdownEach xs

def announce : Option ErrCode → M Unit
  | some code => do
    sendGoAway code
    .lift .closeTransport
  | none => pure ()

def teardown (code : Option ErrCode) : M Unit := do
  announce code
  shutdownStreams
  .lift .stopReader

def GoErr.code : GoErr → Option ErrCode
  | .connError code _ => some code
  | e => codecErrCode e

def GoErr.streamCode : GoErr → Option ErrCode
  | .codec .priorityWrongLength => some .frameSizeError
  | .codec .zeroIncrement => some .protocolError
  | _ => none

/-- What the reader loop does with an error while the open field block is `pending`. -/
def readerError (f : Inbound) (pending : Nat) (e : GoErr) : M Unit := do
  if pending ≠ 0 && !transportErr e &&
      (f.type != .continuation || f.streamID != pending) then teardown (some .protocolError)
  else if pending = 0 && f.streamID != 0 then
    if ← .lift (.idle f.streamID) then teardown e.code
    else match e.streamCode with
      | some code =>
        let _ ← writeRSTStreamID f.streamID code
        .lift .frameDone
      | none => teardown e.code
  else teardown e.code

def readerStep (env : Env) (f : Inbound) : M Unit := do
  let r ← dispatch env f
  let h ← .lift .loadHandler
  match r with
  | .ok () =>
    if h.pendingStreamID ≠ 0 && undispatchedFrameType f.type then
      readerError f h.pendingStreamID
        (.connError .protocolError "extension frame inside an open field block")
    else .lift .frameDone
  | .error e => readerError f h.pendingStreamID e

def recorderSettings (ack : Bool) (params : SettingsParams) : M (Except GoErr Unit) := do
  let r ← .lift .loadRecorder
  if ack then
    .lift (.storeRecorder { r with ackSeen := true })
    pure (.ok ())
  else
    let peer := setPeerSettings r.peer params
    .lift (.storeRecorder { r with peer := peer, peerSeen := true })
    match ← applyPeerSettings peer with
    | .error e => pure (.error e)
    | .ok () =>
      let ok ← .lift (.write .settingsAck)
      pure (if ok then .ok () else .error .io)

/-- `settingsRecorder`: frames other than SETTINGS reach the handler. -/
def recorderDispatch (env : Env) : Inbound → M (Except GoErr Unit)
  | .settings ack params => recorderSettings ack params
  | f => dispatch env f

def abortHandshake : M Unit := do
  shutdownStreams
  .lift .cancelConn
  .lift .closeTransport
  .lift .stopReader

def sendInitialConnWindowUpdate : M (Except GoErr Unit) := do
  let win ← .lift .connRecvWindow
  let delta := win - connInitialRecvWindow
  if delta ≤ 0 then pure (.ok ()) else writeWindowUpdate 0 delta.toNat

def seedUpgradedStream (headers : List HeaderField) : M Unit := do
  if ← registerStream 1 none then
    let _ ← .lift (.advance 1 { recvFields := true })
    push 1 (.headers headers true)
    let _ ← markRemoteEnd 1
    pure ()
  else pure ()

def seed (env : Env) : M Unit :=
  match env.cfg.upgradedRequest with
  | some headers => seedUpgradedStream headers
  | none => pure ()

def handshakeGoAway : GoErr → M Unit
  | .connError code _ => sendGoAway code
  | _ => pure ()

def handshakeError (e : GoErr) : M Unit := do
  handshakeGoAway e
  abortHandshake

/-- The end of `NewServerConn`, once both SETTINGS and its acknowledgement have been seen. -/
def finishHandshake (env : Env) : M Unit := do
  match ← sendInitialConnWindowUpdate with
  | .error _ => abortHandshake
  | .ok () =>
    seed env
    .lift .establish
    .lift .frameDone

def handshakeStep (env : Env) (f : Inbound) : M Unit := do
  match ← recorderDispatch env f with
  | .error e => handshakeError e
  | .ok () =>
    let r ← .lift .loadRecorder
    if r.peerSeen && r.ackSeen then finishHandshake env else .lift .frameDone

def serveFrame (env : Env) (f : Inbound) : M Unit := do
  .lift (.readFrame f)
  if ← .lift .isEstablished then readerStep env f else handshakeStep env f

def acceptOne (x : Nat) : M (Unit ⊕ Except GoErr Nat) := do
  if ← .lift (.deliver x) then pure (.inr (.ok x)) else pure (.inl ())

def acceptStream (ctx : Ctx) : M (Except GoErr Nat) := do
  if ← .lift .isClosed then pure (.error .connClosed)
  else .forever () fun _ => do
    match ← .lift .tryAccept with
    | some x => acceptOne x
    | none => match ← .lift (.awaitAccept ctx) with
      | .ok x => acceptOne x
      | .error e => pure (.inr (.error e))

def closeConn : M Unit := do
  if ← .lift .close then
    .lift .cancelConn
    .lift .lockFc
    .lift .fcWakeAll
    .lift .unlockFc
    .lift .lockW
    let last ← .lift .lastPeerID
    if ← writeGoAway last .noError then .lift .goAwayDone else pure ()
    .lift .unlockW
    .lift .closeTransport
    .lift .awaitReaderDone
  else pure ()

def goAwayWith (last : M Nat) (code : ErrCode) : M (Except GoErr Unit) := do
  if ← .lift .requestGoAway then
    .lift .lockW
    if ← .lift .isClosed then
      .lift .unlockW
      pure (.error .connClosed)
    else
      let ok ← do
        let last ← last
        writeGoAway last code
      .lift .unlockW
      pure (if ok then .ok () else .error .io)
  else pure (.ok ())

def goAwayGraceful : M (Except GoErr Unit) := goAwayWith (pure maxStreamID) .noError

def goAway (code : ErrCode) : M (Except GoErr Unit) := goAwayWith (.lift .lastPeerID) code

/-- What may start at any time: a frame arrives, a goroutine of the embedder calls a method of
the connection or of a stream, a request is cancelled, the transport breaks. -/
inductive Call
  | frame (f : Inbound)
  | sendHeaders (x : Nat) (fields : List HeaderField) (endStream : Bool) (prio : Option Priority)
  | sendData (x : Nat) (p : Bytes) (endStream : Bool) (ctx : Ctx)
  | push (x : Nat) (fields : List HeaderField) (prio : Option Priority)
  | close (x : Nat)
  | recv (x : Nat) (ctx : Ctx)
  | accept (ctx : Ctx)
  | closeConn
  | goAwayGraceful
  | goAway (code : ErrCode)
  | cancelRequest (n : Nat)
  | failTransport
  deriving DecidableEq

def discard (p : M α) : M Unit := do
  let _ ← p
  pure ()

def Call.body (env : Env) : Call → M Unit
  | .frame f => serveFrame env f
  | .sendHeaders x fields endStream prio => discard (Conn.sendHeaders env x fields endStream prio)
  | .sendData x p endStream ctx => discard (Conn.sendData env x p endStream ctx)
  | .push x fields prio => discard (pushWithPriority env x fields prio)
  | .close x => discard (closeStream x)
  | .recv x ctx => discard (Conn.recv x ctx)
  | .accept ctx => discard (acceptStream ctx)
  | .closeConn => Conn.closeConn
  | .goAwayGraceful => discard Conn.goAwayGraceful
  | .goAway code => discard (Conn.goAway code)
  | .cancelRequest n => .lift (.cancelRequest n)
  | .failTransport => .lift .closeTransport

/-- A goroutine of the embedder holds the streams it was handed by AcceptStream or Push. -/
def World.held (w : World) (x : Nat) : Bool :=
  w.established && (x ∈ w.delivered || (x % 2 = 0 && (w.str x).isSome))

def Call.available (w : World) : Call → Bool
  | .frame f => f.WellFormed
  | .sendHeaders x .. | .sendData x .. | .push x .. | .close x | .recv x _ => w.held x
  | .accept _ | .closeConn | .goAwayGraceful | .goAway _ => w.established
  | .cancelRequest _ | .failTransport => true

def anyCall : Guard Op World Call where
  callOk w q := q.available w

theorem enabled_anyCall (c : Config Op World) (i : Nat) : anyCall.Enabled c (.step i 0) := by
  simp only [Guard.Enabled]
  split <;> trivial

/-- The states of a connection under every interleaving of the calls that `G` lets start. -/
abbrev Reach (env : Env) (G : Guard Op World Call) (c : Config Op World) : Prop :=
  Reachable (machine env) (Call.body env) G (World.init env) c

abbrev Step (env : Env) (G : Guard Op World Call) (c : Config Op World) (e : Event Call)
    (c' : Config Op World) : Prop :=
  Taken (machine env) (Call.body env) G (World.init env) c e c'

abbrev Running (env : Env) (G : Guard Op World Call) (c c' : Config Op World) : Prop :=
  Runs (machine env) (Call.body env) G c c'

def handshake : List (Call × Nat) :=
  [(.frame (.settings false []), 12), (.frame (.settings true []), 8)]

def acceptedRequest : List (Call × Nat) :=
  handshake ++ [(.frame (.headers 1 false true [1] none), 16), (.accept .background, 4)]

def getRequests : Env where
  opts := {}
  decode _ _ := .ok [⟨ascii ":method", some (ascii "GET"), .incremental⟩,
    ⟨ascii ":scheme", some (ascii "https"), .incremental⟩,
    ⟨ascii ":path", some (ascii "/"), .incremental⟩]

theorem exists_reach_of_test (env : Env) (T : Test Op World Call) (es : List (Event Call))
    {p : Config Op World → Bool} (h : (T.run (machine env) (Call.body env)
      ⟨World.init env, []⟩ es).any p = true) : ∃ c, Reach env T.guard c ∧ p c = true :=
  Test.exists_reachable h

def anyRun : Test Op World Call := ⟨fun w q => q.available w, fun _ _ _ _ => true⟩

theorem exists_reach_of_run (env : Env) (es : List (Event Call)) {p : Config Op World → Bool}
    (h : (anyRun.run (machine env) (Call.body env) ⟨World.init env, []⟩ es).any p = true) :
    ∃ c, Reach env anyCall c ∧ p c = true := by
  obtain ⟨c, hc, hp⟩ := exists_reach_of_test env _ es h
  exact ⟨c, hc.mono (fun _ _ h => h) fun _ _ _ _ _ => trivial, hp⟩

theorem exists_step_of_test (env : Env) (T : Test Op World Call) (es : List (Event Call))
    {e : Event Call} {p : Config Op World → Config Op World → Bool}
    (h : (T.run (machine env) (Call.body env) ⟨World.init env, []⟩ es).any (fun c => T.enabled c e &&
      (c.next (machine env) (Call.body env) e).any (p c)) = true) :
    ∃ c c', Step env T.guard c e c' ∧ p c c' = true := by
  obtain ⟨c, hc, h⟩ := exists_reach_of_test env T es h
  obtain ⟨he, h⟩ := (Bool.and_eq_true _ _).mp h
  obtain ⟨c', hn, hp⟩ := (Option.any_eq_true _ _).1 h
  exact ⟨c, c', ⟨hc, Test.guard_enabled he, hn⟩, hp⟩

theorem exists_step_of_run (env : Env) (es : List (Event Call)) {e : Event Call}
    {p : Config Op World → Config Op World → Bool}
    (h : (anyRun.run (machine env) (Call.body env) ⟨World.init env, []⟩ es).any (fun c =>
      anyRun.enabled c e && (c.next (machine env) (Call.body env) e).any (p c)) = true) :
    ∃ c c', Step env anyCall c e c' ∧ p c c' = true := by
  obtain ⟨c, c', ⟨hc, he, hn⟩, hp⟩ := exists_step_of_test env _ es h
  refine ⟨c, c', ⟨hc.mono (fun _ _ h => h) fun _ _ _ _ _ => trivial, ?_, hn⟩, hp⟩
  refine Guard.Enabled.mono (G := Test.guard _) ?_ ?_ he
  · exact fun _ _ h => h
  · exact fun _ _ _ _ _ => trivial

/-- Goroutine `i` with program `p` left, and a step that it takes later; the run in between may be
held to a test of its own. -/
theorem exists_runs_of_test (env : Env) (T T' : Test Op World Call) (es es' : List (Event Call))
    {i : Nat} {p : M Unit} {P : Config Op World → Config Op World → Config Op World → Bool}
    (hp : ((T.run (machine env) (Call.body env) ⟨World.init env, []⟩ es).bind fun c =>
      c.threads[i]?) = some p)
    (h : (T.run (machine env) (Call.body env) ⟨World.init env, []⟩ es).any (fun c =>
      (T'.run (machine env) (Call.body env) c es').any fun c₁ =>
        (c₁.next (machine env) (Call.body env) (.step i 0)).any (P c c₁)) = true) :
    ∃ c c₁ c₂, Reach env T.guard c ∧ c.threads[i]? = some p ∧ Running env T'.guard c c₁ ∧
      c₁.next (machine env) (Call.body env) (.step i 0) = some c₂ ∧ P c c₁ c₂ = true := by
  obtain ⟨c, hc, hp⟩ := Option.bind_eq_some_iff.1 hp
  rw [hc, Option.any_some] at h
  obtain ⟨c₁, hc₁, h⟩ := (Option.any_eq_true _ _).1 h
  obtain ⟨c₂, hc₂, h⟩ := (Option.any_eq_true _ _).1 h
  exact ⟨c, c₁, c₂, Test.reachable_of_run .init hc, hp, Test.runs_of_run .refl hc₁, hc₂, h⟩

theorem exists_running_of_run (env : Env) (es es' : List (Event Call))
    {P : Config Op World → Config Op World → Bool}
    (h : (anyRun.run (machine env) (Call.body env) ⟨World.init env, []⟩ es).any (fun c =>
      (anyRun.run (machine env) (Call.body env) c es').any (P c)) = true) :
    ∃ c c', Reach env anyCall c ∧ Running env anyCall c c' ∧ P c c' = true := by
  obtain ⟨c, hc, h⟩ := exists_reach_of_run env es h
  obtain ⟨c', hr, h⟩ := (Option.any_eq_true _ _).1 h
  refine ⟨c, c', hc, (Test.runs_of_run .refl hr).mono ?_ ?_, h⟩
  · exact fun _ _ h => h
  · exact fun _ _ _ _ _ => trivial

/-- Goroutine `i` with program `p` left takes a step, and the run goes on. -/
theorem exists_resumed_of_test (env : Env) (T : Test Op World Call) (es es' : List (Event Call))
    {i : Nat} {p : M Unit} {P : Config Op World → Config Op World → Bool}
    (hp : ((T.run (machine env) (Call.body env) ⟨World.init env, []⟩ es).bind fun c =>
      c.threads[i]?) = some p)
    (h : (T.run (machine env) (Call.body env) ⟨World.init env, []⟩ es).any (fun c =>
      (c.next (machine env) (Call.body env) (.step i 0)).any fun c₁ =>
        (T.run (machine env) (Call.body env) c₁ es').any (P c)) = true) :
    ∃ c c₁ c₂, Reach env T.guard c ∧ c.threads[i]? = some p ∧
      c.next (machine env) (Call.body env) (.step i 0) = some c₁ ∧ Running env T.guard c₁ c₂ ∧
      P c c₂ = true := by
  obtain ⟨c, hc, hp⟩ := Option.bind_eq_some_iff.1 hp
  rw [hc, Option.any_some] at h
  obtain ⟨c₁, hn, h⟩ := (Option.any_eq_true _ _).1 h
  obtain ⟨c₂, hr, h⟩ := (Option.any_eq_true _ _).1 h
  exact ⟨c, c₁, c₂, Test.reachable_of_run .init hc, hp, hn, Test.runs_of_run .refl hr, h⟩

end PoseidonServer.Conn
