import PoseidonServer.Grpc.Receiver
import PoseidonServer.Server.Response

/-! `ServiceRegistrar.Handler`: from a request to the handler of its method and to the response. -/

namespace PoseidonServer.Grpc

open Server

/-- What a streaming handler does with `recv` and `send`, as far as it is given them, until it
returns. -/
inductive Behaviour (receives sends : Bool) (α : Type)
  | ret (a : α)
  | recv (h : receives = true) (next : Except GoError Bytes → Behaviour receives sends α)
  | send (h : sends = true) (msg : Bytes) (next : Option GoError → Behaviour receives sends α)

inductive Method
  | unary (h : Bytes → Option Bytes × Option GoError)
  | serverStream (h : Bytes → Behaviour false true (Option GoError))
  | clientStream (h : Behaviour true false (Option Bytes × Option GoError))
  | bidi (h : Behaviour true true (Option GoError))

structure MethodDesc where
  name : Bytes
  unaryHandler : Option (Bytes → Option Bytes × Option GoError) := none
  serverStreamH : Option (Bytes → Behaviour false true (Option GoError)) := none
  clientStreamH : Option (Behaviour true false (Option Bytes × Option GoError)) := none
  bidiStreamH : Option (Behaviour true true (Option GoError)) := none

structure ServiceDesc where
  name : Bytes
  methods : List MethodDesc

/-- The maps hold the latest entry of a key in front. -/
structure ServiceRegistrar where
  methods : List (Bytes × Method) := []
  services : List Bytes := []

def MethodDesc.method (md : MethodDesc) : Option Method :=
  match md.unaryHandler, md.serverStreamH, md.clientStreamH, md.bidiStreamH with
  | some h, _, _, _ => some (.unary h)
  | none, some h, _, _ => some (.serverStream h)
  | none, none, some h, _ => some (.clientStream h)
  | none, none, none, some h => some (.bidi h)
  | none, none, none, none => none

namespace ServiceRegistrar

def registerMethod (service : Bytes) (r : ServiceRegistrar) (md : MethodDesc) :
    Option ServiceRegistrar :=
  md.method.map fun m =>
    { r with methods := (ascii "/" ++ service ++ ascii "/" ++ md.name, m) :: r.methods }

/-- `none` for a panic. -/
def registerService (r : ServiceRegistrar) (desc : ServiceDesc) : Option ServiceRegistrar :=
  if desc.name ∈ r.services then none
  else desc.methods.foldlM (registerMethod desc.name) { r with services := desc.name :: r.services }

def lookup (r : ServiceRegistrar) (path : Bytes) : Option Method :=
  (r.methods.find? (·.1 = path)).map (·.2)

end ServiceRegistrar

def headerContentType : Bytes := ascii "content-type"
def contentTypeGRPC : Bytes := ascii "application/grpc"

def isGRPCContentType (headers : List HeaderField) : Bool :=
  match headers.find? (·.name = headerContentType) with
  | some h => h.val = contentTypeGRPC || h.val = contentTypeGRPC ++ ascii "+proto"
  | none => false

def grpcResponseHeaders : List HeaderField :=
  [{ name := headerContentType, value := some contentTypeGRPC }]

def errStreamClosed : GoError := { text := ascii "conn: stream already closed" }

def onSuccess (r : ResponseWriter × Bool) (next : ResponseWriter → ResponseWriter × Bool) :
    ResponseWriter × Bool :=
  if r.2 then next r.1 else r

section Dispatch

variable (lib : Lib)

def writeGRPCError (w : ResponseWriter) (st : RPCStatus) : ResponseWriter × Bool :=
  onSuccess (w.writeHeaders lib 200 grpcResponseHeaders) fun w => w.writeTrailers (statusToHPack st)

def sendMessage (w : ResponseWriter) (msg : Bytes) : ResponseWriter × Bool :=
  w.writeData lib (encodeLP [] ⟨flagNone, msg⟩)

/-- A nil result is not sent. -/
def sendResult (w : ResponseWriter) : Option Bytes → ResponseWriter × Bool
  | some respPayload => sendMessage lib w respPayload
  | none => (w, true)

def Behaviour.run : Behaviour receives sends α → ResponseWriter → Receiver → α × ResponseWriter
  | .ret a, w, _ => (a, w)
  | .recv _ next, w, r => (next r.recv.1).run w r.recv.2
  | .send _ msg next, w, r =>
    let (w, ok) := sendMessage lib w msg
    (next (if ok then none else some errStreamClosed)).run w r

def finish (w : ResponseWriter) : Option GoError → ResponseWriter × Bool
  | some err => writeGRPCError lib w (errToStatus err)
  | none => w.writeTrailers (statusToHPack statusOK)

def handleUnary (w : ResponseWriter) (h : Bytes → Option Bytes × Option GoError)
    (reqPayload : Bytes) : ResponseWriter × Bool :=
  match h reqPayload with
  | (_, some err) => writeGRPCError lib w (errToStatus err)
  | (respPayload, none) =>
    onSuccess (w.writeHeaders lib 200 grpcResponseHeaders) fun w =>
      onSuccess (sendResult lib w respPayload) fun w => w.writeTrailers (statusToHPack statusOK)

def handleServerStream (w : ResponseWriter) (h : Bytes → Behaviour false true (Option GoError))
    (reqPayload : Bytes) : ResponseWriter × Bool :=
  onSuccess (w.writeHeaders lib 200 grpcResponseHeaders) fun w =>
    let (err, w) := (h reqPayload).run lib w .noBody
    finish lib w err

def handleClientStream (w : ResponseWriter)
    (h : Behaviour true false (Option Bytes × Option GoError)) (req : Request) :
    ResponseWriter × Bool :=
  onSuccess (w.writeHeaders lib 200 grpcResponseHeaders) fun w =>
    match h.run lib w (streamReceiver req) with
    | ((_, some err), w) => writeGRPCError lib w (errToStatus err)
    | ((respPayload, none), w) =>
      onSuccess (sendResult lib w respPayload) fun w => w.writeTrailers (statusToHPack statusOK)

def handleBidiStream (w : ResponseWriter) (h : Behaviour true true (Option GoError))
    (req : Request) : ResponseWriter × Bool :=
  onSuccess (w.writeHeaders lib 200 grpcResponseHeaders) fun w =>
    let (err, w) := h.run lib w (streamReceiver req)
    finish lib w err

/-- What a unary or server-streaming handler is called with. The end of a streaming body is
forgiven. -/
def requestPayload (req : Request) : Except RPCStatus Bytes :=
  match req.bodyReader with
  | some r => match (readStreamingLP r).1 with
    | .error err => if err.isEOF then .ok [] else .error (errToStatus err)
    | .ok payload => .ok payload
  | none =>
    if req.body.length > 0 then match decodeLPFromBytes req.body with
      | .error err => .error (errToStatus err)
      | .ok (msg, _) =>
        if msg.flag = flagCompressed then .error ⟨.unimplemented,
          ascii "message compression not supported (no grpc-encoding negotiated)"⟩
        else .ok msg.payload
    else .ok []

structure Served where
  invoked : Option Bytes
  writer : ResponseWriter
  ok : Bool

def served (invoked : Option Bytes) (r : ResponseWriter × Bool) : Served := ⟨invoked, r.1, r.2⟩

def ServiceRegistrar.handler (r : ServiceRegistrar) (req : Request) (w : ResponseWriter) : Served :=
  if !isGRPCContentType req.headers then
    served none (writeGRPCError lib w ⟨.unimplemented, ascii "invalid content-type"⟩)
  else match r.lookup req.path with
    | none =>
      served none (writeGRPCError lib w ⟨.unimplemented, ascii "unknown method " ++ req.path⟩)
    | some (.bidi h) => served none (handleBidiStream lib w h req)
    | some (.clientStream h) => served none (handleClientStream lib w h req)
    | some (.unary h) => match requestPayload req with
      | .error st => served none (writeGRPCError lib w st)
      | .ok payload => served (some payload) (handleUnary lib w h payload)
    | some (.serverStream h) => match requestPayload req with
      | .error st => served none (writeGRPCError lib w st)
      | .ok payload => served (some payload) (handleServerStream lib w h payload)

end Dispatch

section FirstMessage

variable {u rest : Bytes} {m : LPMessage} {r : Source UInt8}

def Truncated (u : Bytes) : Prop := u ≠ [] ∧ (u.length < 5 ∨ u.length < 5 + lpLength u)

def Compressed (u : Bytes) : Prop := 5 ≤ u.length ∧ lpFlag u = flagCompressed

def OverLimit (u : Bytes) : Prop := 5 ≤ u.length ∧ maxRecvMessageSize < lpLength u

/-- The call of a unary or server-streaming method with the body `u`. -/
structure RunsOnComplete (lib : Lib) (w : ResponseWriter) (u : Bytes) (s : Served) : Prop where
  complete : ∀ m rest, Plain m → u = encodeLP [] m ++ rest → s.invoked = some m.payload
  empty : s.invoked = some [] →
    u = [] ∨ ∃ m rest, Plain m ∧ m.payload = [] ∧ u = encodeLP [] m ++ rest
  refused : Truncated u ∨ Compressed u ∨ OverLimit u →
    s.invoked = none ∧ ∃ st, st.code ≠ .ok ∧ (s.writer, s.ok) = writeGRPCError lib w st

theorem refused_iff :
    Truncated u ∨ Compressed u ∨ OverLimit u ↔ u ≠ [] ∧ plainReader.next u = none := by
  unfold Truncated Compressed OverLimit
  constructor
  · intro h
    have hu : u ≠ [] := by
      rintro rfl
      simp at h
    refine ⟨hu, ?_⟩
    cases hn : plainReader.next u with
    | none => rfl
    | some p =>
      obtain ⟨⟨hflag, hp⟩, hu⟩ := plainReader_next.1 hn
      have hlen : lpLength u = p.1.payload.length := by
        rw [hu, lpLength_encodeLP (lt_of_le_maxRecv hp)]
      have hle : 5 + p.1.payload.length ≤ u.length := by
        rw [hu, List.length_append, length_encodeLP]
        omega
      obtain ⟨-, h⟩ | ⟨-, h⟩ | ⟨-, h⟩ := h
      · omega
      · rw [hu] at h
        exact absurd h hflag
      · omega
  · rintro ⟨hu, hn⟩
    by_contra hnot
    simp only [not_or, not_and, hu, ne_eq, not_false_eq_true, forall_const] at hnot
    obtain ⟨⟨h₁, h₂⟩, h₃, h₄⟩ := hnot
    have hp : lpLength u ≤ maxRecvMessageSize := Nat.not_lt.1 (h₄ (by omega))
    rw [plainReader_next.2 ⟨⟨h₃ (by omega), ?_⟩, eq_encodeLP_append (by omega)⟩] at hn
    · cases hn
    · rw [List.length_take]
      omega

theorem errToStatus_streamingEnd (u : Bytes) : (errToStatus (streamingEnd u)).code ≠ .ok := by
  unfold streamingEnd decodeContent
  split
  · decide
  split
  · dsimp only [endError]
    split <;> decide
  split
  · exact (by decide : (errToStatus errMessageTooLarge).code ≠ .ok)
  split
  · dsimp only [endError]
    split <;> decide
  · exact (by decide : (errToStatus errInvalidHeader).code ≠ .ok)

theorem requestPayload_item {req : Request}
    (hr : req.bodyReader = none ∧ req.body = u ∨ ∃ r, req.bodyReader = some r ∧ r.content = u)
    (hn : plainReader.next u = some (m, rest)) : requestPayload req = .ok m.payload := by
  unfold requestPayload
  obtain ⟨hr, hb⟩ | ⟨r, hr, rfl⟩ := hr
  · obtain ⟨⟨hflag, hp⟩, hu⟩ := plainReader_next.1 hn
    simp only [hr, hb]
    rw [if_pos (by simp [hu, encodeLP]), decodeLPFromBytes_eq_ok.2 ⟨rest, hu, hp, rfl⟩]
    simp only [hflag, if_false]
  · obtain ⟨r', hread, -⟩ := readStreamingLP_item hn
    simp only [hr, hread]

theorem errToStatus_decodeLPFromBytes {err : GoError} (h : decodeLPFromBytes u = .error err) :
    (errToStatus err).code ≠ .ok := by
  unfold decodeLPFromBytes at h
  split at h
  · cases h
    decide
  split at h
  · cases h
    decide
  split at h
  · cases h
    decide
  · cases h

theorem requestPayload_buffered {req : Request} (hr : req.bodyReader = none) (hu : req.body ≠ [])
    (hn : plainReader.next req.body = none) :
    ∃ st, st.code ≠ .ok ∧ requestPayload req = .error st := by
  have hpos : req.body.length > 0 := List.length_pos_iff.2 hu
  simp only [requestPayload, hr, hpos, if_true]
  cases hd : decodeLPFromBytes req.body with
  | error err => exact ⟨_, errToStatus_decodeLPFromBytes hd, rfl⟩
  | ok p =>
    by_cases hflag : p.1.flag = flagCompressed
    · simp only [hflag, if_true]
      exact ⟨_, by decide, rfl⟩
    · obtain ⟨rest, hu, hp, -⟩ := decodeLPFromBytes_eq_ok.1 hd
      rw [plainReader_next.2 ⟨⟨hflag, hp⟩, hu⟩] at hn
      cases hn

theorem requestPayload_streaming {req : Request} (hr : req.bodyReader = some r)
    (hn : plainReader.next r.content = none) :
    requestPayload req = if (streamingEnd r.content).isEOF then .ok [] else
      .error (errToStatus (streamingEnd r.content)) := by
  obtain ⟨r', hread⟩ := readStreamingLP_stop hn
  simp only [requestPayload, hr, hread]

def Method.single : Method → Bool
  | .unary _ | .serverStream _ => true
  | .clientStream _ | .bidi _ => false

variable {lib : Lib} {reg : ServiceRegistrar} {req : Request} {md : Method} {w : ResponseWriter}

theorem handler_of_ok (hct : isGRPCContentType req.headers = true)
    (hmd : reg.lookup req.path = some md) (hs : md.single = true) {payload : Bytes}
    (hp : requestPayload req = .ok payload) : (reg.handler lib req w).invoked = some payload := by
  cases md <;> simp [Method.single] at hs <;> simp [ServiceRegistrar.handler, hct, hmd, hp, served]

theorem handler_of_error (hct : isGRPCContentType req.headers = true)
    (hmd : reg.lookup req.path = some md) (hs : md.single = true) {st : RPCStatus}
    (hp : requestPayload req = .error st) :
    reg.handler lib req w = served none (writeGRPCError lib w st) := by
  cases md <;> simp [Method.single] at hs <;> simp [ServiceRegistrar.handler, hct, hmd, hp]

theorem runsOnComplete (hct : isGRPCContentType req.headers = true)
    (hmd : reg.lookup req.path = some md) (hs : md.single = true)
    (hitem : ∀ m rest, plainReader.next u = some (m, rest) → requestPayload req = .ok m.payload)
    (hstop : u ≠ [] → plainReader.next u = none →
      ∃ st, st.code ≠ .ok ∧ requestPayload req = .error st) :
    RunsOnComplete lib w u (reg.handler lib req w) where
  complete m rest hm hu := handler_of_ok hct hmd hs (hitem m rest (plainReader_next.2 ⟨hm, hu⟩))
  empty hinv := by
    by_cases hu : u = []
    · exact .inl hu
    cases hn : plainReader.next u with
    | none =>
      obtain ⟨st, -, hst⟩ := hstop hu hn
      rw [handler_of_error hct hmd hs hst] at hinv
      cases hinv
    | some p =>
      rw [handler_of_ok hct hmd hs (hitem _ _ hn)] at hinv
      obtain ⟨hm, hu⟩ := plainReader_next.1 hn
      exact .inr ⟨p.1, p.2, hm, Option.some.inj hinv, hu⟩
  refused h := by
    obtain ⟨hu, hn⟩ := refused_iff.1 h
    obtain ⟨st, hcode, hst⟩ := hstop hu hn
    rw [handler_of_error hct hmd hs hst]
    exact ⟨rfl, st, hcode, rfl⟩

theorem BareHeader.ne_nil (h : BareHeader u) : u ≠ [] := by
  rintro rfl
  cases (bareHeader_iff.1 h).1

/-- Whatever the handler of the method is, it runs on a complete message only, unless a streaming
body stops right after the header of its first message: it is then called with nothing. -/
theorem runs_on_complete_iff (lib : Lib) (reg : ServiceRegistrar) (req : Request) (md : Method)
    (w : ResponseWriter) (r : Source UInt8) (hct : isGRPCContentType req.headers = true)
    (hmd : reg.lookup req.path = some md) (hs : md.single = true) :
    RunsOnComplete lib w r.content
      (reg.handler lib { req with body := r.content, bodyReader := none } w) ∧
    (RunsOnComplete lib w r.content
        (reg.handler lib { req with body := [], bodyReader := some r } w) ↔
      ¬BareHeader r.content) := by
  constructor
  · refine runsOnComplete (by exact hct) (by exact hmd) hs ?_ ?_
    · intro m rest hn
      exact requestPayload_item (.inl ⟨rfl, rfl⟩) hn
    · intro hu hn
      exact requestPayload_buffered rfl hu hn
  constructor
  · intro h hbare
    have hpayload : requestPayload { req with body := [], bodyReader := some r } = .ok [] := by
      rw [requestPayload_streaming rfl hbare.next, if_pos (isEOF_streamingEnd.2 (.inr hbare))]
    have hnone := (h.refused (refused_iff.2 ⟨hbare.ne_nil, hbare.next⟩)).1
    rw [handler_of_ok (by exact hct) (by exact hmd) hs hpayload] at hnone
    cases hnone
  · intro hbare
    refine runsOnComplete (by exact hct) (by exact hmd) hs ?_ ?_
    · intro m rest hn
      exact requestPayload_item (.inr ⟨r, rfl, rfl⟩) hn
    · intro hu hn
      have heof : ¬(streamingEnd r.content).isEOF := fun h =>
        (isEOF_streamingEnd.1 h).elim hu hbare
      exact ⟨_, errToStatus_streamingEnd _, by rw [requestPayload_streaming rfl hn, if_neg heof]⟩

def echo : ServiceRegistrar where
  methods := [(ascii "/echo.Echo/Say", .unary fun p => (some p, none))]

def echoRequest : Request where
  headers := grpcResponseHeaders
  path := ascii "/echo.Echo/Say"

theorem runs_on_complete_echo :
    RunsOnComplete plainLib { head := false } [0, 0, 0, 0, 1, 0x61] (echo.handler plainLib
      { echoRequest with body := [], bodyReader := some ⟨[[0, 0], [0, 0, 1], [0x61]], true⟩ }
      { head := false }) := by
  refine (runs_on_complete_iff plainLib echo echoRequest _ { head := false }
    ⟨[[0, 0], [0, 0, 1], [0x61]], true⟩ (by decide) rfl rfl).2.2 ?_
  intro h
  cases (bareHeader_iff.1 h).1

/-- Cut off after the header, a message of ten octets reaches the handler as an empty one. -/
theorem echo_runs_after_header :
    (echo.handler plainLib { echoRequest with bodyReader := some ⟨[[0, 0, 0, 0, 10]], false⟩ }
      { head := false }).invoked = some [] ∧ Truncated [0, 0, 0, 0, 10] :=
  ⟨by decide +kernel, by simp, .inr (by decide)⟩

end FirstMessage

section Grammar

variable {lib : Lib} {w : ResponseWriter} {msg : Bytes} {r : Receiver}

def message (p : Bytes) : Sent := .data (encodeLP [] ⟨flagNone, p⟩)

def grpcResponse (lib : Lib) (msgs : List Bytes) (st : RPCStatus) : List Sent :=
  .headers (ResponseWriter.nativeSection lib 200 grpcResponseHeaders) false ::
    msgs.map message ++ [.headers (statusToHPack st) true]

def LengthPrefixed (d : Bytes) : Prop := 5 ≤ d.length ∧ d.length = 5 + lpLength d

def ServiceRegistrar.returned (lib : Lib) (reg : ServiceRegistrar) (req : Request) :
    Option (Option Bytes × Option GoError) :=
  if !isGRPCContentType req.headers then none
  else match reg.lookup req.path with
    | some (.unary h) => (requestPayload req).toOption.map h
    | some (.clientStream h) => some (h.run lib { head := false } (streamReceiver req)).1
    | _ => none

def Sending (lib : Lib) (head : Bool) (msgs : List Bytes) (w : ResponseWriter) : Prop :=
  w.head = head ∧ w.written = true ∧ (head = true → msgs = []) ∧
  w.sent = .headers (ResponseWriter.nativeSection lib 200 grpcResponseHeaders) false ::
    msgs.map message

theorem Sending.not_ended {head : Bool} {msgs : List Bytes} (h : Sending lib head msgs w) :
    w.ended = false := by
  rw [ResponseWriter.ended, h.2.2.2]
  simp [message]

theorem sending_writeHeaders (lib : Lib) (head : Bool) : ∃ w,
    ({ head } : ResponseWriter).writeHeaders lib 200 grpcResponseHeaders = (w, true) ∧
      Sending lib head [] w :=
  ⟨_, ResponseWriter.writeHeaders_eq rfl rfl rfl, rfl, rfl, fun _ => rfl, rfl⟩

theorem Sending.sendMessage {head : Bool} {msgs : List Bytes} (h : Sending lib head msgs w)
    (msg : Bytes) : ∃ w', Grpc.sendMessage lib w msg = (w', true) ∧
      Sending lib head (if head then [] else msgs ++ [msg]) w' := by
  have hended := h.not_ended
  obtain ⟨rfl, hw, hm, hsent⟩ := h
  cases hhead : w.head with
  | true =>
    rw [hm hhead] at hsent
    refine ⟨w, ?_, hhead, hw, fun _ => rfl, hsent⟩
    simp [Grpc.sendMessage, ResponseWriter.writeData, hw, ResponseWriter.suppressContent, hhead]
  | false =>
    refine ⟨{ w with sent := w.sent ++ [message msg] }, ?_, hhead, hw, fun h => (by cases h), ?_⟩
    · simp [Grpc.sendMessage, ResponseWriter.writeData, hw, ResponseWriter.suppressContent, hhead,
        ResponseWriter.send_eq hended, message]
    · simp [hsent]

theorem Sending.writeTrailers {head : Bool} {msgs : List Bytes} (h : Sending lib head msgs w)
    (st : RPCStatus) : ∃ w', w.writeTrailers (statusToHPack st) = (w', true) ∧
      w'.sent = grpcResponse lib msgs st := by
  refine ⟨_, ResponseWriter.send_eq h.not_ended _, ?_⟩
  rw [h.2.2.2, grpcResponse]

theorem Sending.writeGRPCError {head : Bool} {msgs : List Bytes} (h : Sending lib head msgs w)
    (st : RPCStatus) : ∃ w', Grpc.writeGRPCError lib w st = (w', true) ∧
      w'.sent = grpcResponse lib msgs st := by
  have hw : w.writeHeaders lib 200 grpcResponseHeaders = (w, true) := by
    rw [ResponseWriter.writeHeaders, h.2.1]
    rfl
  rw [Grpc.writeGRPCError, hw]
  exact h.writeTrailers st

theorem Behaviour.run_sending {head receives sends : Bool} {msgs : List Bytes}
    (b : Behaviour receives sends α) (h : Sending lib head msgs w) (r : Receiver) :
    ∃ msgs', Sending lib head msgs' (b.run lib w r).2 ∧ (sends = false → msgs' = msgs) := by
  induction b generalizing w msgs r with
  | ret a => exact ⟨msgs, h, fun _ => rfl⟩
  | recv _ next ih => exact ih _ h _
  | send hs msg next ih =>
    obtain ⟨w', hsend, h'⟩ := h.sendMessage msg
    obtain ⟨msgs', hrun, -⟩ := ih none h' r
    refine ⟨msgs', ?_, fun hf => ?_⟩
    · simp only [Behaviour.run, hsend]
      exact hrun
    · rw [hs] at hf
      cases hf

theorem writeGRPCError_fresh (lib : Lib) (head : Bool) (st : RPCStatus) :
    ∃ w', Grpc.writeGRPCError lib { head } st = (w', true) ∧ w'.sent = grpcResponse lib [] st := by
  obtain ⟨w, hw, h⟩ := sending_writeHeaders lib head
  rw [Grpc.writeGRPCError, hw]
  exact h.writeTrailers st

theorem Behaviour.run_fst {receives : Bool} (b : Behaviour receives false α) (w w' : ResponseWriter)
    (r : Receiver) : (b.run lib w r).1 = (b.run lib w' r).1 := by
  induction b generalizing r with
  | ret a => rfl
  | recv _ next ih => exact ih _ _
  | send hs => cases hs

/-- How the calls of a registrar are answered: what is written, and what it says of the result. -/
structure Answered (lib : Lib) (reg : ServiceRegistrar) (req : Request) (s : Served)
    (msgs : List Bytes) (st : RPCStatus) : Prop where
  ok : s.ok = true
  sent : s.writer.sent = grpcResponse lib msgs st
  head : req.method = ascii "HEAD" → msgs = []
  result : ∀ p, reg.returned lib req = some (some p, none) → req.method ≠ ascii "HEAD" →
    msgs = [p] ∧ st = statusOK
  nil : reg.returned lib req = some (none, none) → msgs = [] ∧ st = statusOK
  error : ∀ resp err, reg.returned lib req = some (resp, some err) →
    msgs = [] ∧ st = errToStatus err
  unary : ∀ h, reg.lookup req.path = some (.unary h) → st.code ≠ .ok → msgs = []

variable {reg : ServiceRegistrar} {req : Request}

theorem answered_refused (hret : reg.returned lib req = none) (head : Bool) (st : RPCStatus) :
    Answered lib reg req (served none (writeGRPCError lib { head } st)) [] st := by
  obtain ⟨w, hw, hsent⟩ := writeGRPCError_fresh lib head st
  rw [hw]
  exact ⟨rfl, hsent, fun _ => rfl, by simp [hret], by simp [hret], by simp [hret], fun _ _ _ => rfl⟩

theorem answered_error {invoked resp : Option Bytes} {err : GoError} {a : ResponseWriter × Bool}
    (hret : reg.returned lib req = some (resp, some err))
    (ha : ∃ w', a = (w', true) ∧ w'.sent = grpcResponse lib [] (errToStatus err)) :
    Answered lib reg req (served invoked a) [] (errToStatus err) := by
  obtain ⟨w', rfl, hsent⟩ := ha
  refine ⟨rfl, hsent, fun _ => rfl, by simp [hret], by simp [hret], ?_, fun _ _ _ => rfl⟩
  intro resp' err' h
  rw [hret] at h
  cases h
  exact ⟨rfl, rfl⟩

theorem sent_result {head : Bool} (h : Sending lib head [] w) (resp : Option Bytes) :
    ∃ w', (onSuccess (sendResult lib w resp) fun w => w.writeTrailers (statusToHPack statusOK)) =
      (w', true) ∧ w'.sent = grpcResponse lib (if head then [] else resp.toList) statusOK := by
  cases resp with
  | none =>
    rw [Option.toList_none, ite_self]
    exact h.writeTrailers statusOK
  | some p =>
    obtain ⟨w', hw, h'⟩ := h.sendMessage p
    rw [sendResult, hw]
    exact h'.writeTrailers statusOK

theorem answered_result {invoked resp : Option Bytes} {a : ResponseWriter × Bool}
    (hret : reg.returned lib req = some (resp, none))
    (ha : ∃ w', a = (w', true) ∧ w'.sent =
      grpcResponse lib (if decide (req.method = ascii "HEAD") then [] else resp.toList) statusOK) :
    Answered lib reg req (served invoked a)
      (if decide (req.method = ascii "HEAD") then [] else resp.toList) statusOK := by
  obtain ⟨w', rfl, hsent⟩ := ha
  refine ⟨rfl, hsent, fun h => by simp [h], ?_, ?_, by simp [hret], fun _ _ h => absurd rfl h⟩
  · intro p hp hm
    rw [hret] at hp
    cases hp
    simp [hm]
  · intro hp
    rw [hret] at hp
    cases hp
    simp

theorem answered_stream {invoked : Option Bytes} {msgs : List Bytes} {err : Option GoError}
    (hret : reg.returned lib req = none) (hmd : ∀ h, reg.lookup req.path ≠ some (.unary h))
    (h : Sending lib (decide (req.method = ascii "HEAD")) msgs w) :
    ∃ st, Answered lib reg req (served invoked (finish lib w err)) msgs st := by
  have hend : ∃ st w', finish lib w err = (w', true) ∧ w'.sent = grpcResponse lib msgs st := by
    cases err with
    | none => exact ⟨_, h.writeTrailers statusOK⟩
    | some err => exact ⟨_, h.writeGRPCError (errToStatus err)⟩
  obtain ⟨st, w', hw, hsent⟩ := hend
  rw [hw]
  exact ⟨st, rfl, hsent, fun hm => h.2.2.1 (by simpa using hm), by simp [hret], by simp [hret],
    by simp [hret], fun g hg => absurd hg (hmd g)⟩

theorem handler_answered (lib : Lib) (reg : ServiceRegistrar) (req : Request) :
    ∃ msgs st, Answered lib reg req
      (reg.handler lib req { head := decide (req.method = ascii "HEAD") }) msgs st := by
  obtain ⟨w, hw, hsending⟩ := sending_writeHeaders lib (decide (req.method = ascii "HEAD"))
  unfold ServiceRegistrar.handler
  split
  · rename_i hct
    exact ⟨_, _, answered_refused (by rw [ServiceRegistrar.returned, if_pos hct]) _ _⟩
  rename_i hct
  have hret : reg.returned lib req = match reg.lookup req.path with
      | some (.unary h) => (requestPayload req).toOption.map h
      | some (.clientStream h) => some (h.run lib { head := false } (streamReceiver req)).1
      | _ => none := by
    rw [ServiceRegistrar.returned, if_neg hct]
  cases hmd : reg.lookup req.path with
  | none =>
    rw [hmd] at hret
    exact ⟨_, _, answered_refused hret _ _⟩
  | some md =>
    rw [hmd] at hret
    cases md with
    | unary h =>
      cases hp : requestPayload req with
      | error st =>
        rw [hp] at hret
        exact ⟨_, _, answered_refused hret _ _⟩
      | ok payload =>
        rw [hp] at hret
        have hret : reg.returned lib req = some (h payload) := hret
        dsimp only
        unfold handleUnary
        cases hres : h payload with
        | mk resp err =>
          rw [hres] at hret
          cases err with
          | none =>
            rw [hw]
            exact ⟨_, _, answered_result hret (sent_result hsending resp)⟩
          | some err =>
            exact ⟨_, _, answered_error hret (writeGRPCError_fresh lib _ _)⟩
    | serverStream h =>
      cases hp : requestPayload req with
      | error st => exact ⟨_, _, answered_refused hret _ _⟩
      | ok payload =>
        obtain ⟨msgs, h', -⟩ := (h payload).run_sending hsending .noBody
        dsimp only
        rw [handleServerStream, hw]
        exact ⟨msgs, answered_stream hret (by simp [hmd]) h'⟩
    | clientStream h =>
      obtain ⟨msgs, h', hmsgs⟩ := h.run_sending hsending (streamReceiver req)
      rw [hmsgs rfl] at h'
      dsimp only at hret ⊢
      rw [h.run_fst _ w] at hret
      rw [handleClientStream, hw]
      dsimp only [onSuccess]
      cases hrun : h.run lib w (streamReceiver req) with
      | mk result w' =>
        rw [hrun] at hret h'
        obtain ⟨resp, err⟩ := result
        cases err with
        | none => exact ⟨_, _, answered_result hret (sent_result h' resp)⟩
        | some err => exact ⟨_, _, answered_error hret (h'.writeGRPCError _)⟩
    | bidi h =>
      obtain ⟨msgs, h', -⟩ := h.run_sending hsending (streamReceiver req)
      dsimp only
      rw [handleBidiStream, hw]
      exact ⟨msgs, answered_stream hret (by simp [hmd]) h'⟩

theorem lengthPrefixed_iff {flag : UInt8} {p : Bytes} :
    LengthPrefixed (encodeLP [] ⟨flag, p⟩) ↔ p.length < 2 ^ 32 := by
  have hlen : lpLength (encodeLP [] ⟨flag, p⟩) = p.length % 2 ^ 32 := lpLength_lpHeader
  have hd : (encodeLP [] ⟨flag, p⟩).length = 5 + p.length := length_encodeLP _
  rw [LengthPrefixed, hlen, hd]
  constructor
  · omega
  · intro h
    rw [Nat.mod_eq_of_lt h]
    omega

/-- Every call is answered with one header section, messages and one trailer section. A message is
sent for a result, but not for a nil one, and never to a HEAD request. -/
theorem grpc_response_grammar (lib : Lib) (reg : ServiceRegistrar) (req : Request) :
    ∃ msgs st, Answered lib reg req
        (reg.handler lib req { head := decide (req.method = ascii "HEAD") }) msgs st ∧
      valuesOf (ascii ":status")
        (ResponseWriter.nativeSection lib 200 grpcResponseHeaders) = [ascii "200"] ∧
      valuesOf headerContentType
        (ResponseWriter.nativeSection lib 200 grpcResponseHeaders) = [contentTypeGRPC] ∧
      valuesOf headerGRPCStatus (statusToHPack st) = [ascii (toString st.code.toNat)] ∧
      ∀ p ∈ msgs, LengthPrefixed (encodeLP [] ⟨flagNone, p⟩) ↔ p.length < 2 ^ 32 := by
  obtain ⟨msgs, st, h⟩ := handler_answered lib reg req
  exact ⟨msgs, st, h, rfl, rfl, valuesOf_status st, fun _ _ => lengthPrefixed_iff⟩

/-- A unary handler that returns nil for its result. -/
theorem nil_result_sends_nothing :
    (({ methods := [(ascii "/a/b", .unary fun _ => (none, none))] } : ServiceRegistrar).handler
      plainLib { headers := grpcResponseHeaders, path := ascii "/a/b" }
      { head := false }).writer.sent =
      [.headers (ResponseWriter.nativeSection plainLib 200 grpcResponseHeaders) false,
        .headers (statusToHPack statusOK) true] := by
  decide +kernel

end Grammar

end PoseidonServer.Grpc
