import PoseidonServer.Conn.Op

/-! The methods of `ServerConn` and `ServerStream` as goroutine programs: `server_ops.go`,
`server_stream.go` and `push.go`. -/

namespace PoseidonServer.Conn

open Concurrent

abbrev M := Prog Op

def markStreamDone (x : Nat) : M Unit := do
  if ← .lift (.release x) then .lift (.cancelStream x) else pure ()

def writeLocked (f : Outbound) : M (Except GoErr Unit) := do
  .lift .lockW
  let ok ← .lift (.write f)
  .lift .unlockW
  pure (if ok then .ok () else .error .io)

def writeUnlessClosed (f : Outbound) : M (Except GoErr Unit) := do
  if ← .lift .isClosed then pure (.error .connClosed) else writeLocked f

def writeSettingsAck : M (Except GoErr Unit) := writeUnlessClosed .settingsAck

def writePingAck (payload : Bytes) : M (Except GoErr Unit) :=
  writeUnlessClosed (.ping true payload)

def writeWindowUpdate (x increment : Nat) : M (Except GoErr Unit) :=
  writeUnlessClosed (.windowUpdate x increment)

def writeServerRSTStream (x : Nat) (code : ErrCode) : M (Except GoErr Unit) := do
  let _ ← .lift (.advance x { reset := true })
  if ← .lift .isClosed then
    markStreamDone x
    pure (.error .connClosed)
  else
    .lift .lockW
    let ok ← .lift (.write (.rstStream x code))
    markStreamDone x
    .lift .unlockW
    pure (if ok then .ok () else .error .io)

def writeRSTStreamID (x : Nat) (code : ErrCode) : M (Except GoErr Unit) := do
  if ← .lift .isClosed then pure (.error .connClosed)
  else
    let live ← .lift (.lookup x)
    if live then
      let _ ← .lift (.advance x { reset := true })
      .lift .lockW
      let ok ← .lift (.write (.rstStream x code))
      markStreamDone x
      .lift .unlockW
      pure (if ok then .ok () else .error .io)
    else writeLocked (.rstStream x code)

/-- `ServerStream.push`: an event that does not fit resets the stream, and another goroutine
writes the RST_STREAM. -/
def push (x : Nat) (e : StreamEvent) : M Unit := do
  if ← .lift (.trySend x e) then pure ()
  else
    let before ← .lift (.advance x { reset := true })
    if before.reset then pure ()
    else
      .go (do let _ ← writeServerRSTStream x .internalError; pure ())
      let _ ← .lift (.trySend x (.reset .internalError))
      pure ()

def markRemoteEnd (x : Nat) : M Bool := do
  let before ← .lift (.advance x { recvEnded := true })
  pure before.sentEnded

def markLocalEnd (x : Nat) : M Bool := do
  let before ← .lift (.advance x { sentEnded := true })
  pure before.recvEnded

def markRemoteEndReset (x : Nat) : M Bool := do
  let before ← .lift (.advance x { recvEnded := true, reset := true })
  pure (!before.recvEnded)

def maxWritableFrame (env : Env) : M Nat := do
  let ps ← .lift .peerSettings
  pure (min (settingValue ps .maxFrameSize 16384) env.cfg.advertisedSettings.maxFrameSize)

def writeHeadersLocked (env : Env) (x : Nat) (fields : List HeaderField) (endStream : Bool)
    (prio : Option Priority) : M (Except GoErr Unit) := do
  let st ← .lift (.state x)
  if !st.writable then pure (.error .streamClosed)
  else
    let budget ← maxWritableFrame env
    if !fieldsFitFrame fields (if prio.isSome then (budget : Int) - 5 else budget) then
      pure (.error .headerBlockTooLarge)
    else
      .lift (.encodeBlock fields)
      let ok ← .lift (.write (.headers x fields endStream prio))
      pure (if ok then .ok () else .error .io)

def writeServerHeaders (env : Env) (x : Nat) (fields : List HeaderField) (endStream : Bool)
    (prio : Option Priority) : M (Except GoErr Unit) := do
  if ← .lift .isClosed then pure (.error .connClosed)
  else
    let stored ← .lift (.priority x)
    .lift .lockW
    let r ← writeHeadersLocked env x fields endStream (prio.or stored)
    .lift .unlockW
    pure r

def endLocal (x : Nat) (endStream : Bool) : M Unit := do
  if endStream then
    if ← markLocalEnd x then markStreamDone x else pure ()
  else pure ()

def sendHeaders (env : Env) (x : Nat) (fields : List HeaderField) (endStream : Bool)
    (prio : Option Priority) : M (Except GoErr Unit) := do
  let st ← .lift (.state x)
  if !st.writable then pure (.error .streamClosed)
  else match ← writeServerHeaders env x fields endStream prio with
    | .error e => pure (.error e)
    | .ok () =>
      let _ ← .lift (.advance x { sentFields := true })
      endLocal x endStream
      pure (.ok ())

/-- The loop of `parkForSendCredits`, which runs with `fcOutMu` held. -/
def parkLoop (x want : Nat) (ctx : Ctx) : M (Except GoErr Nat) :=
  .forever () fun _ => do
    if ← .lift .isClosed then pure (.inr (.error .connClosed))
    else if ← .lift (.ctxErr ctx) then pure (.inr (.error .ctx))
    else match ← .lift (.takeSendCredits x want) with
      | some n => pure (.inr (.ok n))
      | none =>
        .lift .sampleNeedConn
        .lift .fcPark
        .lift .unlockFc
        .lift (.awaitReady ctx)
        .lift .lockFc
        .lift .fcUnpark
        .lift .drainReady
        pure (.inl ())

def parkForSendCredits (x want : Nat) (ctx : Ctx) : M (Except GoErr Nat) := do
  .lift (.newWaiter x)
  .lift .lockFc
  let r ← parkLoop x want ctx
  .lift .fcUnpark
  .lift .unlockFc
  pure r

def acquireSendCredits (x want : Nat) (ctx : Ctx) : M (Except GoErr Nat) := do
  if want = 0 then pure (.ok 0)
  else
    .lift .lockFc
    if ← .lift .isClosed then
      .lift .unlockFc
      pure (.error .connClosed)
    else if ← .lift (.ctxErr ctx) then
      .lift .unlockFc
      pure (.error .ctx)
    else match ← .lift (.takeSendCredits x want) with
      | some n =>
        .lift .unlockFc
        pure (.ok n)
      | none =>
        .lift .unlockFc
        parkForSendCredits x want ctx

def releaseSendCredits (x n : Nat) : M Unit := do
  if n = 0 then pure ()
  else
    .lift .lockFc
    .lift (.refundConn n)
    .lift (.refundStream x n)
    .lift (.fcWakeStream x)
    .lift .fcWakeConn
    .lift .unlockFc

def writeChunk (x maxFrame : Nat) (endStream : Bool) (ctx : Ctx) (p : Bytes) :
    M (Bytes ⊕ Except GoErr Unit) := do
  if p.length = 0 then pure (.inr (.ok ()))
  else match ← acquireSendCredits x (min p.length maxFrame) ctx with
    | .error e => pure (.inr (.error e))
    | .ok n =>
      .lift .lockW
      if ← .lift .isClosed then
        .lift .unlockW
        pure (.inr (.error .connClosed))
      else
        let st ← .lift (.state x)
        if !st.writable then
          .lift .unlockW
          releaseSendCredits x n
          pure (.inr (.error .streamClosed))
        else
          let ok ← .lift (.write (.data x (endStream && n == p.length) (p.take n)))
          .lift .unlockW
          if !ok then pure (.inr (.error .io)) else pure (.inl (p.drop n))

def writeServerDataChunks (x maxFrame : Nat) (p : Bytes) (endStream : Bool) (ctx : Ctx) :
    M (Except GoErr Unit) :=
  .forever p (writeChunk x maxFrame endStream ctx)

def writeEndLocked (x : Nat) : M (Except GoErr Unit) := do
  if ← .lift .isClosed then pure (.error .connClosed)
  else
    let st ← .lift (.state x)
    if !st.writable then pure (.error .streamClosed)
    else
      let ok ← .lift (.write (.data x true []))
      pure (if ok then .ok () else .error .io)

def writeServerData (env : Env) (x : Nat) (p : Bytes) (endStream : Bool) (ctx : Ctx) :
    M (Except GoErr Unit) := do
  if ← .lift .isClosed then pure (.error .connClosed)
  else
    let maxFrame ← maxWritableFrame env
    let maxFrame := if maxFrame ≤ 0 then 16384 else maxFrame
    if p.length = 0 then
      if !endStream then pure (.ok ())
      else
        .lift .lockW
        let r ← writeEndLocked x
        .lift .unlockW
        pure r
    else writeServerDataChunks x maxFrame p endStream ctx

def sendData (env : Env) (x : Nat) (p : Bytes) (endStream : Bool) (ctx : Ctx) :
    M (Except GoErr Unit) := do
  let st ← .lift (.state x)
  if !st.writable then pure (.error .streamClosed)
  else match ← writeServerData env x p endStream ctx with
    | .error e => pure (.error e)
    | .ok () =>
      endLocal x endStream
      pure (.ok ())

def closeStream (x : Nat) : M (Except GoErr Unit) := do
  let before ← .lift (.advance x { reset := true })
  if before.terminal then pure (.ok ()) else writeServerRSTStream x .cancel

def creditConsumed (x : Nat) (e : StreamEvent) : M Unit := do
  match e with
  | .data p _ =>
    if p.length = 0 then pure ()
    else
      let refund ← .lift (.creditRecv x p.length)
      if 0 < refund then
        let st ← .lift (.state x)
        if !st.reset then
          let _ ← writeWindowUpdate x refund
          pure ()
        else pure ()
      else pure ()
  | _ => pure ()

def received (x : Nat) : Option StreamEvent → M (Except GoErr StreamEvent)
  | none => pure (.error .streamClosed)
  | some e => do
    creditConsumed x e
    .lift (.recvReturn x)
    pure (.ok e)

def recv (x : Nat) (ctx : Ctx) : M (Except GoErr StreamEvent) := do
  match ← .lift (.tryRecv x) with
  | some e => received x e
  | none => match ← .lift (.awaitRecv x ctx) with
    | .ok e => received x e
    | .error e => pure (.error e)

def writePushPromiseLocked (env : Env) (parent : Nat) (fields : List HeaderField) :
    M (Except GoErr Nat) := do
  if !(← .lift (.lookup parent)) then pure (.error .streamClosed)
  else
    let ps ← .lift .peerSettings
    let budget ← maxWritableFrame env
    if !fieldsFitFrame fields ((budget : Int) - 4) then pure (.error .headerBlockTooLarge)
    else match ← .lift (.reservePush (settingValue ps .maxConcurrentStreams noStreamLimit)) with
      | none => pure (.error .pushRefused)
      | some promised =>
        .lift (.encodeBlock fields)
        if ← .lift (.write (.pushPromise parent promised fields)) then pure (.ok promised)
        else
          let _ ← .lift (.release promised)
          .lift (.cancelStream promised)
          pure (.error .io)

def writePushPromise (env : Env) (parent : Nat) (fields : List HeaderField) :
    M (Except GoErr Nat) := do
  if ← .lift .isClosed then pure (.error .connClosed)
  else
    .lift .lockW
    let r ← writePushPromiseLocked env parent fields
    .lift .unlockW
    pure r

def pushPromise (env : Env) (x : Nat) (fields : List HeaderField) : M (Except GoErr Nat) := do
  let ps ← .lift .peerSettings
  if settingValue ps .enablePush 1 ≠ 1 then pure (.error .pushDisabled)
  else if ← .lift .hasPeerGoAway then pure (.error .peerGoAway)
  else if x % 2 = 0 then pure (.error .pushOnServerStream)
  else if !HttpFields.validRequestPseudoHeaders fields then pure (.error .pushMalformedPromise)
  else
    let st ← .lift (.state x)
    if st.sentFields then pure (.error .pushAfterResponse) else writePushPromise env x fields

def pushWithPriority (env : Env) (x : Nat) (fields : List HeaderField) (prio : Option Priority) :
    M (Except GoErr Nat) := do
  match ← pushPromise env x fields with
  | .error e => pure (.error e)
  | .ok promised =>
    .lift (.setPriority promised prio)
    pure (.ok promised)

def adjustAll (delta : Int) : List Nat → M (Option Nat)
  | [] => pure none
  | x :: xs => do
    let ok ← .lift (.adjustWindow x delta)
    let rest ← adjustAll delta xs
    pure (if ok then rest else some x)

/-- The new values, and the first stream whose window the change overflows, under `t.mu`. -/
def applyInitialWindow (s : SettingsParams) : M (Bool × Option Nat) := do
  .lift .lockTable
  let (old, new) ← .lift (.publishSettings s)
  if old = new then
    .lift .unlockTable
    pure (false, none)
  else
    let xs ← .lift .liveStreams
    let bad ← adjustAll ((new : Int) - old) xs
    .lift .unlockTable
    pure (true, bad)

def resizeEncoder : SettingsParams → M Unit
  | [] => pure ()
  | (.headerTableSize, v) :: s => do
    .lift (.setMaxDynamicTableSize v)
    resizeEncoder s
  | _ :: s => resizeEncoder s

def applyPeerSettings (s : SettingsParams) : M (Except GoErr Unit) := do
  match validatePeerSettings s with
  | .error e => pure (.error e)
  | .ok () =>
    .lift .lockW
    resizeEncoder s
    .lift .unlockW
    match ← applyInitialWindow s with
    | (_, some x) => pure (.error (.connError .flowControlError
        s!"SETTINGS_INITIAL_WINDOW_SIZE delta overflowed stream {x} send window"))
    | (true, none) =>
      .lift .lockFc
      .lift .fcWakeAll
      .lift .unlockFc
      pure (.ok ())
    | (false, none) => pure (.ok ())

def onConnWindowUpdate (increment : Nat) : M (Except GoErr Unit) := do
  .lift .lockFc
  if ← .lift (.growConn increment) then
    .lift .fcWakeConn
    .lift .unlockFc
    pure (.ok ())
  else
    .lift .unlockFc
    pure (.error (.connError .flowControlError "WINDOW_UPDATE overflowed connection send window"))

def onWindowUpdate (x increment : Nat) : M (Except GoErr Unit) := do
  if x = 0 then onConnWindowUpdate increment
  else if ← .lift (.idle x) then
    pure (.error (.connError .protocolError "WINDOW_UPDATE on an idle stream"))
  else if !(← .lift (.lookup x)) then pure (.ok ())
  else if ← .lift (.growStream x increment) then
    .lift .lockFc
    .lift (.fcWakeStream x)
    .lift .unlockFc
    pure (.ok ())
  else
    let _ ← .lift (.advance x { reset := true })
    push x (.reset .flowControlError)
    let _ ← writeServerRSTStream x .flowControlError
    pure (.ok ())

def onConnDataReceived (length : Nat) : M (Except GoErr Unit) := do
  match ← .lift (.debitConnRecv length) with
  | none => pure (.error (.connError .flowControlError "connection flow control error"))
  | some refund => if 0 < refund then writeWindowUpdate 0 refund else pure (.ok ())

def onDataReceived (s : Option Nat) (length : Nat) : M (Except GoErr Unit) := do
  match s with
  | none => onConnDataReceived length
  | some x =>
    if ← .lift (.debitRecv x length) then onConnDataReceived length
    else pure (.error (.connError .flowControlError s!"stream {x}: flow control error"))

def onClientRSTStream (env : Env) (rapid : Bool) : M (Except GoErr Unit) := do
  if env.cfg.rapidResetBudget = 0 then pure (.ok ())
  else if !rapid then pure (.ok ())
  else
    let n ← .lift .addRapidReset
    if (n : Int) > env.cfg.rapidResetBudget then
      pure (.error (.connError .enhanceYourCalm "HTTP/2 rapid reset flood detected (CVE-2023-44487)"))
    else pure (.ok ())

def registerStream (x : Nat) (prio : Option Priority) : M Bool := do
  if !(← .lift (.admitClient x prio)) then
    let _ ← writeServerRSTStream x .refusedStream
    .lift (.cancelStream x)
    pure false
  else if ← .lift (.tryEnqueue x) then pure true
  else
    let _ ← writeServerRSTStream x .refusedStream
    .lift (.cancelStream x)
    pure false

end PoseidonServer.Conn
