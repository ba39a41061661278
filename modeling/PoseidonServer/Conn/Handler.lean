import PoseidonServer.Conn.Ops

/-! The callbacks of `serverConnHandler`. -/

namespace PoseidonServer.Conn

open Concurrent

def protocolError (msg : String) : Except GoErr Unit := .error (.connError .protocolError msg)

def guardHeaderBlock (k : M (Except GoErr Unit)) : M (Except GoErr Unit) := do
  let h ← .lift .loadHandler
  if h.pendingStreamID ≠ 0 then pure (protocolError "expected CONTINUATION for open header block")
  else k

def respondFieldsTooLarge (env : Env) (x : Nat) : M Unit := do
  let _ ← sendHeaders env x status431Fields true none
  markStreamDone x

/-- How `OnData` and `emitHeaderBlock` end: the event goes to the stream, and whoever closes the
second side releases it. -/
def deliverEvent (x : Nat) (endStream : Bool) (e : StreamEvent) : M (Except GoErr Unit) := do
  let fullyClosed ← if endStream then markRemoteEnd x else pure false
  push x e
  if fullyClosed then markStreamDone x else pure ()
  pure (.ok ())

def onStreamData (x : Nat) (endStream : Bool) (p : Bytes) : M (Except GoErr Unit) := do
  let st ← .lift (.state x)
  if st.recvEnded then
    let _ ← writeServerRSTStream x .streamClosed
    pure (.ok ())
  else deliverEvent x endStream (.data p endStream)

def onData (x : Nat) (endStream : Bool) (length : Nat) (p : Bytes) : M (Except GoErr Unit) :=
  guardHeaderBlock do
    if x % 2 = 0 then pure (protocolError "client DATA on a server-initiated stream")
    else if ← .lift (.idle x) then pure (protocolError "DATA on an idle stream")
    else
      let live ← .lift (.lookup x)
      match ← onDataReceived (if live then some x else none) length with
      | .error e => pure (.error e)
      | .ok () => if live then onStreamData x endStream p else pure (.ok ())

def compressionError (msg : String) : Except GoErr Unit :=
  .error (.connError .compressionError ("HPACK decoding error: " ++ msg))

def discardHeaderBlock (hb : Bytes) : M (Except GoErr Unit) := do
  let h ← .lift .loadHandler
  .lift (.storeHandler { h with pendingStreamID := 0, pendingDiscard := false })
  match ← .lift (.decodeBlock hb) with
  | .error msg => pure (compressionError msg)
  | .ok _ => pure (.ok ())

def fieldSectionSize (fields : List HeaderField) : Nat :=
  (fields.map fun f => f.name.length + f.val.length + fieldEntryOverhead).sum

/-- `ownedCopy` of what `emitHeaderBlock` collects: the slices are cut out of one buffer, so no
value stays nil. -/
def ownedCopy (fields : List HeaderField) : List HeaderField :=
  fields.map fun f => { f with value := some f.val }

def malformedSection (fields : List HeaderField) (endStream isTrailer : Bool) : Bool :=
  (fields.any fun f => HttpFields.prohibited f.name f.val isTrailer) ||
  (!isTrailer && !HttpFields.validRequestPseudoHeaders (ownedCopy fields)) ||
  (isTrailer && !endStream)

def emitFields (env : Env) (x : Nat) (fields : List HeaderField) (endStream isTrailer : Bool) :
    M (Except GoErr Unit) := do
  if fieldSectionSize fields > env.cfg.maxHeaderBytes then
    respondFieldsTooLarge env x
    pure (.ok ())
  else
    let st ← .lift (.state x)
    if st.recvEnded then
      let _ ← writeServerRSTStream x .streamClosed
      pure (.ok ())
    else if malformedSection fields endStream isTrailer then
      let _ ← writeServerRSTStream x .protocolError
      pure (.ok ())
    else deliverEvent x endStream (if isTrailer then .trailers (ownedCopy fields) endStream
      else .headers (ownedCopy fields) endStream)

def emitHeaderBlock (env : Env) (x : Nat) (hb : Bytes) (endStream isTrailer : Bool) :
    M (Except GoErr Unit) := do
  let h ← .lift .loadHandler
  .lift (.storeHandler { h with pendingStreamID := 0 })
  match ← .lift (.decodeBlock hb) with
  | .error msg => pure (compressionError msg)
  | .ok fields => emitFields env x fields endStream isTrailer

def headerBlockTooLarge : Except GoErr Unit :=
  .error (.connError .enhanceYourCalm "header block exceeds max size")

/-- `OnHeaders` once the stream is known: `isNew` and `refused` are the source's. -/
def onStreamHeaders (env : Env) (x : Nat) (endStream endHeaders : Bool) (hb : Bytes)
    (isNew refused : Bool) : M (Except GoErr Unit) := do
  if !endHeaders then
    if hb.length > env.cfg.maxHeaderBytes then
      respondFieldsTooLarge env x
      pure headerBlockTooLarge
    else
      let st ← .lift (.state x)
      .lift (.storeHandler
        { pendingStreamID := x, pendingBuf := hb, pendingEndStream := endStream
          pendingTrailer := !isNew && st.recvFields, pendingDiscard := refused })
      pure (.ok ())
  else if refused then discardHeaderBlock hb
  else
    let st ← .lift (.state x)
    let isTrailer := !isNew && st.recvFields
    if !isTrailer then
      let _ ← .lift (.advance x { recvFields := true })
      emitHeaderBlock env x hb endStream false
    else emitHeaderBlock env x hb endStream true

def onHeaders (env : Env) (x : Nat) (endStream endHeaders : Bool) (hb : Bytes)
    (prio : Option Priority) : M (Except GoErr Unit) :=
  guardHeaderBlock do
    if x % 2 = 0 then
      pure (protocolError "client HEADERS on even (server-initiated) stream ID")
    else if ← .lift (.lookup x) then onStreamHeaders env x endStream endHeaders hb false false
    else match ← .lift (.validateClientID x) with
      | .error e => pure (.error e)
      | .ok () =>
        let ok ← registerStream x prio
        onStreamHeaders env x endStream endHeaders hb true (!ok)

def onBlockComplete (env : Env) (x : Nat) (h : Handler) (buf : Bytes) : M (Except GoErr Unit) := do
  if h.pendingDiscard then discardHeaderBlock buf
  else if !(← .lift (.lookup x)) then discardHeaderBlock buf
  else if !h.pendingTrailer then
    let _ ← .lift (.advance x { recvFields := true })
    emitHeaderBlock env x buf h.pendingEndStream false
  else emitHeaderBlock env x buf h.pendingEndStream true

def onContinuation (env : Env) (x : Nat) (endHeaders : Bool) (hb : Bytes) :
    M (Except GoErr Unit) := do
  let h ← .lift .loadHandler
  if h.pendingStreamID = 0 then pure (protocolError "unexpected CONTINUATION")
  else if x ≠ h.pendingStreamID then pure (protocolError "CONTINUATION on wrong stream")
  else if h.pendingBuf.length + hb.length > env.cfg.maxHeaderBytes then
    if ← .lift (.lookup x) then respondFieldsTooLarge env x else pure ()
    pure headerBlockTooLarge
  else
    .lift (.storeHandler { h with pendingBuf := h.pendingBuf ++ hb })
    if !endHeaders then pure (.ok ()) else onBlockComplete env x h (h.pendingBuf ++ hb)

def onRSTStream (env : Env) (x : Nat) (code : ErrCode) : M (Except GoErr Unit) :=
  guardHeaderBlock do
    if ← .lift (.idle x) then pure (protocolError "RST_STREAM on an idle stream")
    else if !(← .lift (.lookup x)) then onClientRSTStream env true
    else
      let rapid ← markRemoteEndReset x
      push x (.reset code)
      markStreamDone x
      onClientRSTStream env rapid

def onSettings (ack : Bool) (params : SettingsParams) : M (Except GoErr Unit) :=
  guardHeaderBlock do
    if ack then pure (.ok ())
    else match ← applyPeerSettings params with
      | .error e => pure (.error e)
      | .ok () => writeSettingsAck

/-- A ping acknowledgement only wakes the goroutine that pinged. -/
def onPing (ack : Bool) (payload : Bytes) : M (Except GoErr Unit) :=
  guardHeaderBlock (if ack then pure (.ok ()) else writePingAck payload)

/-- `ReadFrame` calling back into the handler: frames of unknown type and frames that the
codec rejects reach no callback. -/
def dispatch (env : Env) : Inbound → M (Except GoErr Unit)
  | .data x endStream length p => onData x endStream length p
  | .headers x endStream endHeaders hb prio => onHeaders env x endStream endHeaders hb prio
  | .priority _ | .altSvc _ | .origin _ => guardHeaderBlock (pure (.ok ()))
  | .rstStream x code => onRSTStream env x code
  | .settings ack params => onSettings ack params
  | .pushPromise _ => pure (protocolError "server received PUSH_PROMISE")
  | .ping ack payload => onPing ack payload
  | .goAway => guardHeaderBlock do
    .lift .notePeerGoAway
    pure (.ok ())
  | .windowUpdate x increment => guardHeaderBlock (onWindowUpdate x increment)
  | .continuation x endHeaders hb => onContinuation env x endHeaders hb
  | .unknown .. => pure (.ok ())
  | .rejected _ _ err => pure (.error (.codec err))

end PoseidonServer.Conn
