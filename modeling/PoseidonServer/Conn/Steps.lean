import PoseidonServer.Conn.Server

/-! Exactly which steps each method can take: the operation, and of its arguments the frame
written, the event queued and the state bits set. -/

namespace PoseidonServer.Conn

open Concurrent

inductive Written
  | headers | data | rstStream | pushPromise | settings | settingsAck | ping | goAway
  | connUpdate | streamUpdate
  deriving DecidableEq

def Outbound.tag : Outbound → Written
  | .headers .. => .headers
  | .data .. => .data
  | .rstStream .. => .rstStream
  | .pushPromise .. => .pushPromise
  | .settings _ => .settings
  | .settingsAck => .settingsAck
  | .ping .. => .ping
  | .goAway .. => .goAway
  | .windowUpdate x _ => if x = 0 then .connUpdate else .streamUpdate

namespace Outbound

@[simp] theorem tag_headers (x : Nat) (fields : List HeaderField) (endStream : Bool)
    (prio : Option Priority) : (headers x fields endStream prio).tag = .headers := rfl

@[simp] theorem tag_data (x : Nat) (endStream : Bool) (p : Bytes) :
    (data x endStream p).tag = .data := rfl

@[simp] theorem tag_rstStream (x : Nat) (code : ErrCode) : (rstStream x code).tag = .rstStream := rfl

@[simp] theorem tag_pushPromise (x y : Nat) (fields : List HeaderField) :
    (pushPromise x y fields).tag = .pushPromise := rfl

@[simp] theorem tag_settings (s : SettingsParams) : (settings s).tag = .settings := rfl

@[simp] theorem tag_settingsAck : settingsAck.tag = .settingsAck := rfl

@[simp] theorem tag_ping (ack : Bool) (payload : Bytes) : (ping ack payload).tag = .ping := rfl

@[simp] theorem tag_goAway (last : Nat) (code : ErrCode) : (goAway last code).tag = .goAway := rfl

@[simp] theorem tag_windowUpdate (x n : Nat) :
    (windowUpdate x n).tag = if x = 0 then .connUpdate else .streamUpdate := rfl

end Outbound

inductive Queued
  | headers | data | trailers | reset
  deriving DecidableEq

def StreamEvent.tag : StreamEvent → Queued
  | .headers .. => .headers
  | .data .. => .data
  | .trailers .. => .trailers
  | .reset _ => .reset

namespace StreamEvent

@[simp] theorem tag_headers (fields : List HeaderField) (endStream : Bool) :
    (headers fields endStream).tag = .headers := rfl

@[simp] theorem tag_data (p : Bytes) (endStream : Bool) : (data p endStream).tag = .data := rfl

@[simp] theorem tag_trailers (fields : List HeaderField) (endStream : Bool) :
    (trailers fields endStream).tag = .trailers := rfl

@[simp] theorem tag_reset (code : ErrCode) : (reset code).tag = .reset := rfl

end StreamEvent

inductive Tag
  | readFrame | frameDone | stopReader | loadHandler | storeHandler | decodeBlock | loadRecorder
  | storeRecorder | isEstablished | establish | addRapidReset | notePeerGoAway
  | lookup | idle | validateClientID | admitClient | reservePush | release | lastPeerID | drain
  | lockTable | unlockTable | publishSettings | liveStreams | adjustWindow | peerSettings
  | state | advance (delta : StreamState) | priority | setPriority | cancelStream
  | trySend (e : Queued) | closeEvents | tryRecv | awaitRecv | recvReturn | debitRecv | creditRecv
  | debitConnRecv | connRecvWindow
  | lockFc | unlockFc | growStream | growConn | takeSendCredits | refundConn | refundStream
  | newWaiter | sampleNeedConn | fcPark | fcUnpark | awaitReady | drainReady | fcWakeStream
  | fcWakeConn | fcWakeAll | ctxErr
  | lockW | unlockW | encodeBlock | setMaxDynamicTableSize | write (f : Written) | isClosed | close
  | requestGoAway | goAwayDone | clampGoAwayID | hasPeerGoAway | cancelConn | closeTransport
  | awaitReaderDone
  | tryEnqueue | tryAccept | awaitAccept | deliver
  | cancelRequest
  deriving DecidableEq

@[simp] def Op.tag : Op β → Tag
  | .readFrame _ => .readFrame
  | .frameDone => .frameDone
  | .stopReader => .stopReader
  | .loadHandler => .loadHandler
  | .storeHandler _ => .storeHandler
  | .decodeBlock _ => .decodeBlock
  | .loadRecorder => .loadRecorder
  | .storeRecorder _ => .storeRecorder
  | .isEstablished => .isEstablished
  | .establish => .establish
  | .addRapidReset => .addRapidReset
  | .notePeerGoAway => .notePeerGoAway
  | .lookup _ => .lookup
  | .idle _ => .idle
  | .validateClientID _ => .validateClientID
  | .admitClient .. => .admitClient
  | .reservePush _ => .reservePush
  | .release _ => .release
  | .lastPeerID => .lastPeerID
  | .drain => .drain
  | .lockTable => .lockTable
  | .unlockTable => .unlockTable
  | .publishSettings _ => .publishSettings
  | .liveStreams => .liveStreams
  | .adjustWindow .. => .adjustWindow
  | .peerSettings => .peerSettings
  | .state _ => .state
  | .advance _ delta => .advance delta
  | .priority _ => .priority
  | .setPriority .. => .setPriority
  | .cancelStream _ => .cancelStream
  | .trySend _ e => .trySend e.tag
  | .closeEvents _ => .closeEvents
  | .tryRecv _ => .tryRecv
  | .awaitRecv .. => .awaitRecv
  | .recvReturn _ => .recvReturn
  | .debitRecv .. => .debitRecv
  | .creditRecv .. => .creditRecv
  | .debitConnRecv _ => .debitConnRecv
  | .connRecvWindow => .connRecvWindow
  | .lockFc => .lockFc
  | .unlockFc => .unlockFc
  | .growStream .. => .growStream
  | .growConn _ => .growConn
  | .takeSendCredits .. => .takeSendCredits
  | .refundConn _ => .refundConn
  | .refundStream .. => .refundStream
  | .newWaiter _ => .newWaiter
  | .sampleNeedConn => .sampleNeedConn
  | .fcPark => .fcPark
  | .fcUnpark => .fcUnpark
  | .awaitReady _ => .awaitReady
  | .drainReady => .drainReady
  | .fcWakeStream _ => .fcWakeStream
  | .fcWakeConn => .fcWakeConn
  | .fcWakeAll => .fcWakeAll
  | .ctxErr _ => .ctxErr
  | .lockW => .lockW
  | .unlockW => .unlockW
  | .encodeBlock _ => .encodeBlock
  | .setMaxDynamicTableSize _ => .setMaxDynamicTableSize
  | .write f => .write f.tag
  | .isClosed => .isClosed
  | .close => .close
  | .requestGoAway => .requestGoAway
  | .goAwayDone => .goAwayDone
  | .clampGoAwayID _ => .clampGoAwayID
  | .hasPeerGoAway => .hasPeerGoAway
  | .cancelConn => .cancelConn
  | .closeTransport => .closeTransport
  | .awaitReaderDone => .awaitReaderDone
  | .tryEnqueue _ => .tryEnqueue
  | .tryAccept => .tryAccept
  | .awaitAccept _ => .awaitAccept
  | .deliver _ => .deliver
  | .cancelRequest _ => .cancelRequest

/-- The program takes only the steps in the list. -/
def Uses (l : List Tag) (p : M α) : Prop := p.All fun o => o.tag ∈ l

variable {l : List Tag}

@[simp] theorem uses_ret (a : α) : Uses l (.ret a) := trivial

@[simp] theorem uses_op (o : Op α) (k : α → M β) :
    Uses l (.op o k) ↔ o.tag ∈ l ∧ ∀ a, Uses l (k a) := Iff.rfl

@[simp] theorem uses_lift (o : Op α) : Uses l (.lift o) ↔ o.tag ∈ l :=
  and_iff_left fun _ => trivial

@[simp] theorem uses_fork (p : M Unit) (k : M α) :
    Uses l (.fork p k) ↔ Uses l p ∧ Uses l k := Iff.rfl

@[simp] theorem uses_iter (body : τ → M (τ ⊕ β)) (t : τ) (k : β → M α) :
    Uses l (.iter body t k) ↔ (∀ t, Uses l (body t)) ∧ ∀ b, Uses l (k b) := Iff.rfl

@[simp] theorem uses_forever (t : τ) (body : τ → M (τ ⊕ β)) :
    Uses l (.forever t body) ↔ ∀ t, Uses l (body t) :=
  and_iff_left fun _ => trivial

@[simp] theorem uses_ite (c : Prop) [Decidable c] (p q : M α) :
    Uses l (if c then p else q) ↔ (c → Uses l p) ∧ (¬c → Uses l q) := by
  split <;> simp [*]

theorem Uses.bind {p : M α} {f : α → M β} (hp : Uses l p) (hf : ∀ a, Uses l (f a)) :
    Uses l (p.bind f) := Prog.All.bind hp hf

theorem Uses.mono {p : M α} (hp : Uses l p) {m : List Tag} (h : l ⊆ m) : Uses m p :=
  Prog.All.mono (fun _ ho => h ho) hp

section Spec

variable {σ : Type} {m : Machine Op σ} {G : Guard Op σ Call} {γ : Type} [AddCommMonoid γ]
  {S : Spec m G γ} {bad : List Tag}

theorem Uses.safe {p : M α} {i : Nat} {w : σ} {g : γ} {Q : α → γ → σ → Prop}
    (hp : Uses l p) (h : ∀ {β} {o : Op β}, o.tag ∉ bad → S.Harmless o) (hl : ∀ t ∈ l, t ∉ bad)
    (hQ : ∀ a w', S.rely i w w' → Q a g w') : S.Safe i p g Q w :=
  Spec.safe_of_all (Prog.All.mono (fun _ ho => h (hl _ ho)) hp) hQ

theorem Uses.proper {p : M α} (hp : Uses l p) (h : ∀ {β} {o : Op β}, o.tag ∉ bad → S.Mild o)
    (hl : ∀ t ∈ l, t ∉ bad) : S.Proper p :=
  Spec.proper_of_all (Prog.All.mono (fun _ ho => h (hl _ ho)) hp)

end Spec

theorem forall_except {p : Except ε α → Prop} :
    (∀ r, p r) ↔ (∀ e, p (.error e)) ∧ ∀ a, p (.ok a) :=
  ⟨fun h => ⟨fun _ => h _, fun _ => h _⟩, fun h => Except.rec h.1 h.2⟩

def doneSteps : List Tag := [.release, .cancelStream]

theorem markStreamDone_uses (x : Nat) : Uses doneSteps (markStreamDone x) := by
  simp +decide [markStreamDone]

def writeSteps (t : Written) : List Tag := [.isClosed, .lockW, .write t, .unlockW]

theorem writeLocked_uses {f : Outbound} {t : Written} (h : f.tag = t) :
    Uses (writeSteps t) (writeLocked f) := by
  simp [writeLocked, writeSteps, h]

theorem writeUnlessClosed_uses {f : Outbound} {t : Written} (h : f.tag = t) :
    Uses (writeSteps t) (writeUnlessClosed f) := by
  have hlocked := writeLocked_uses h
  have hclosed : .isClosed ∈ writeSteps t := by simp [writeSteps]
  simp [writeUnlessClosed, hlocked, hclosed]

def rstSteps : List Tag := .advance { reset := true } :: writeSteps .rstStream ++ doneSteps

theorem writeServerRSTStream_uses (x : Nat) (code : ErrCode) :
    Uses rstSteps (writeServerRSTStream x code) := by
  have hdone := (markStreamDone_uses x).mono (m := rstSteps) (by decide)
  simp +decide [writeServerRSTStream, Uses.bind, hdone]

def rstIDSteps : List Tag := .lookup :: rstSteps

theorem writeRSTStreamID_uses (x : Nat) (code : ErrCode) :
    Uses rstIDSteps (writeRSTStreamID x code) := by
  have hdone := (markStreamDone_uses x).mono (m := rstIDSteps) (by decide)
  have hlocked := (writeLocked_uses (f := .rstStream x code) (t := .rstStream) rfl).mono
    (m := rstIDSteps) (by decide)
  simp +decide [writeRSTStreamID, Uses.bind, hdone, hlocked]

def pushSteps (q : Queued) : List Tag := .trySend q :: .trySend .reset :: rstSteps

theorem push_uses {e : StreamEvent} {q : Queued} (h : e.tag = q) (x : Nat) :
    Uses (pushSteps q) (push x e) := by
  have hrst := (writeServerRSTStream_uses x .internalError).mono (m := pushSteps q) fun _ ht =>
    .tail _ (.tail _ ht)
  have hsteps : .trySend q ∈ pushSteps q ∧ .trySend .reset ∈ pushSteps q ∧
      .advance { reset := true } ∈ pushSteps q := by
    simp [pushSteps, rstSteps]
  simp [push, Uses.bind, hrst, h, hsteps]

def writeHeadersSteps : List Tag :=
  [.state, .peerSettings, .encodeBlock, .priority] ++ writeSteps .headers

theorem maxWritableFrame_uses (env : Env) : Uses [.peerSettings] (maxWritableFrame env) := by
  simp [maxWritableFrame]

theorem writeServerHeaders_uses (env : Env) (x : Nat) (fields : List HeaderField)
    (endStream : Bool) (prio : Option Priority) :
    Uses writeHeadersSteps (writeServerHeaders env x fields endStream prio) := by
  have hmax := (maxWritableFrame_uses env).mono (m := writeHeadersSteps) (by decide)
  have hlocked (prio) :
      Uses writeHeadersSteps (writeHeadersLocked env x fields endStream prio) := by
    simp +decide [writeHeadersLocked, Uses.bind, hmax]
  simp +decide [writeServerHeaders, Uses.bind, hlocked]

def endLocalSteps : List Tag := .advance { sentEnded := true } :: doneSteps

theorem endLocal_uses (x : Nat) (endStream : Bool) : Uses endLocalSteps (endLocal x endStream) := by
  have hdone := (markStreamDone_uses x).mono (m := endLocalSteps) (by decide)
  simp +decide [endLocal, markLocalEnd, hdone]

def sendHeadersSteps : List Tag :=
  .advance { sentFields := true } :: writeHeadersSteps ++ endLocalSteps

theorem sendHeaders_uses (env : Env) (x : Nat) (fields : List HeaderField) (endStream : Bool)
    (prio : Option Priority) : Uses sendHeadersSteps (sendHeaders env x fields endStream prio) := by
  have hwrite := (writeServerHeaders_uses env x fields endStream prio).mono
    (m := sendHeadersSteps) (by decide)
  have hend := (endLocal_uses x endStream).mono (m := sendHeadersSteps) (by decide)
  simp +decide [sendHeaders, Uses.bind, forall_except, hwrite, hend]

def acquireSteps : List Tag :=
  [.lockFc, .unlockFc, .isClosed, .ctxErr, .takeSendCredits, .newWaiter, .sampleNeedConn, .fcPark,
    .fcUnpark, .awaitReady, .drainReady]

theorem acquireSendCredits_uses (x want : Nat) (ctx : Ctx) :
    Uses acquireSteps (acquireSendCredits x want ctx) := by
  have hloop : Uses acquireSteps (parkLoop x want ctx) := by
    simp +decide [parkLoop, Option.forall]
  simp +decide [acquireSendCredits, parkForSendCredits, Uses.bind, Option.forall, hloop]

def refundSteps : List Tag :=
  [.lockFc, .unlockFc, .refundConn, .refundStream, .fcWakeStream, .fcWakeConn]

theorem releaseSendCredits_uses (x n : Nat) : Uses refundSteps (releaseSendCredits x n) := by
  simp +decide [releaseSendCredits]

def writeDataSteps : List Tag :=
  [.state, .peerSettings] ++ acquireSteps ++ refundSteps ++ writeSteps .data

theorem writeChunk_uses (x maxFrame : Nat) (endStream : Bool) (ctx : Ctx) (p : Bytes) :
    Uses writeDataSteps (writeChunk x maxFrame endStream ctx p) := by
  have hacquire (n) := (acquireSendCredits_uses x n ctx).mono (m := writeDataSteps) (by decide)
  have hrefund (n) := (releaseSendCredits_uses x n).mono (m := writeDataSteps) (by decide)
  simp +decide [writeChunk, Uses.bind, forall_except, hacquire, hrefund]

theorem writeServerData_uses (env : Env) (x : Nat) (p : Bytes) (endStream : Bool) (ctx : Ctx) :
    Uses writeDataSteps (writeServerData env x p endStream ctx) := by
  have hmax := (maxWritableFrame_uses env).mono (m := writeDataSteps) (by decide)
  simp +decide [writeServerData, writeServerDataChunks, writeEndLocked, Uses.bind, hmax,
    writeChunk_uses]

def sendDataSteps : List Tag := writeDataSteps ++ endLocalSteps

theorem sendData_uses (env : Env) (x : Nat) (p : Bytes) (endStream : Bool) (ctx : Ctx) :
    Uses sendDataSteps (sendData env x p endStream ctx) := by
  have hwrite := (writeServerData_uses env x p endStream ctx).mono (m := sendDataSteps) (by decide)
  have hend := (endLocal_uses x endStream).mono (m := sendDataSteps) (by decide)
  simp +decide [sendData, Uses.bind, forall_except, hwrite, hend]

theorem closeStream_uses (x : Nat) : Uses rstSteps (closeStream x) := by
  have hrst := writeServerRSTStream_uses x .cancel
  simp +decide [closeStream, hrst]

def recvSteps (t : Written) : List Tag :=
  [.tryRecv, .awaitRecv, .creditRecv, .state, .recvReturn] ++ writeSteps t

theorem recv_uses {x : Nat} {t : Written} (h : (Outbound.windowUpdate x 0).tag = t) (ctx : Ctx) :
    Uses (recvSteps t) (recv x ctx) := by
  have hwrite (n) : Uses (recvSteps t) (writeWindowUpdate x n) :=
    (writeUnlessClosed_uses (f := .windowUpdate x n) h).mono (List.subset_append_right _ _)
  have hsteps : .tryRecv ∈ recvSteps t ∧ .awaitRecv ∈ recvSteps t ∧ .creditRecv ∈ recvSteps t ∧
      .state ∈ recvSteps t ∧ .recvReturn ∈ recvSteps t := by
    simp [recvSteps]
  have hcredit (e) : Uses (recvSteps t) (creditConsumed x e) := by
    cases e <;> simp [creditConsumed, Uses.bind, hwrite, hsteps]
  have hreceived (e) : Uses (recvSteps t) (received x e) := by
    cases e <;> simp [received, Uses.bind, hcredit, hsteps]
  simp [recv, Option.forall, forall_except, hreceived, hsteps]

def pushPromiseSteps : List Tag :=
  [.peerSettings, .hasPeerGoAway, .state, .lookup, .reservePush, .encodeBlock, .setPriority] ++
    writeSteps .pushPromise ++ doneSteps

theorem pushWithPriority_uses (env : Env) (x : Nat) (fields : List HeaderField)
    (prio : Option Priority) : Uses pushPromiseSteps (pushWithPriority env x fields prio) := by
  have hmax := (maxWritableFrame_uses env).mono (m := pushPromiseSteps) (by decide)
  have hlocked : Uses pushPromiseSteps (writePushPromiseLocked env x fields) := by
    simp +decide [writePushPromiseLocked, Uses.bind, Option.forall, hmax]
  have hpush : Uses pushPromiseSteps (pushPromise env x fields) := by
    simp +decide [pushPromise, writePushPromise, Uses.bind, hlocked]
  simp +decide [pushWithPriority, Uses.bind, forall_except, hpush]

def initialWindowSteps : List Tag :=
  [.lockTable, .publishSettings, .liveStreams, .adjustWindow, .unlockTable]

theorem adjustAll_uses (delta : Int) (xs : List Nat) :
    Uses [.adjustWindow] (adjustAll delta xs) := by
  induction xs with
  | nil => simp [adjustAll]
  | cons x xs ih => simp [adjustAll, Uses.bind, ih]

theorem applyInitialWindow_uses (s : SettingsParams) :
    Uses initialWindowSteps (applyInitialWindow s) := by
  have hall (delta) (xs) := (adjustAll_uses delta xs).mono (m := initialWindowSteps) (by decide)
  simp +decide [applyInitialWindow, Uses.bind, hall]

theorem resizeEncoder_uses (s : SettingsParams) :
    Uses [.setMaxDynamicTableSize] (resizeEncoder s) := by
  fun_induction resizeEncoder s with
  | case1 => simp
  | case2 v s ih => simp [ih]
  | case3 _ s _ ih => exact ih

def settingsSteps : List Tag :=
  [.lockW, .setMaxDynamicTableSize, .unlockW, .lockFc, .fcWakeAll, .unlockFc] ++ initialWindowSteps

theorem applyPeerSettings_uses (s : SettingsParams) : Uses settingsSteps (applyPeerSettings s) := by
  have hencoder := (resizeEncoder_uses s).mono (m := settingsSteps) (by decide)
  have hwindow := (applyInitialWindow_uses s).mono (m := settingsSteps) (by decide)
  unfold applyPeerSettings
  split
  · simp
  · simp only [Prog.bind_eq, Prog.lift_bind, uses_op]
    refine ⟨by decide, fun _ => .bind hencoder fun _ => ⟨by decide, fun _ => .bind hwindow fun r => ?_⟩⟩
    split <;> simp +decide

def onWindowUpdateSteps : List Tag :=
  [.lockFc, .growConn, .fcWakeConn, .unlockFc, .idle, .lookup, .growStream, .fcWakeStream] ++
    pushSteps .reset

theorem onWindowUpdate_uses (x increment : Nat) :
    Uses onWindowUpdateSteps (onWindowUpdate x increment) := by
  have hconn : Uses onWindowUpdateSteps (onConnWindowUpdate increment) := by
    simp +decide [onConnWindowUpdate]
  have hpush := (push_uses (e := .reset .flowControlError) (q := .reset) rfl x).mono
    (m := onWindowUpdateSteps) (by decide)
  have hrst := (writeServerRSTStream_uses x .flowControlError).mono (m := onWindowUpdateSteps)
    (by decide)
  simp +decide [onWindowUpdate, Uses.bind, hconn, hpush, hrst]

def onDataReceivedSteps : List Tag := [.debitRecv, .debitConnRecv] ++ writeSteps .connUpdate

theorem onDataReceived_uses (s : Option Nat) (length : Nat) :
    Uses onDataReceivedSteps (onDataReceived s length) := by
  have hwrite (n) : Uses onDataReceivedSteps (writeWindowUpdate 0 n) :=
    (writeUnlessClosed_uses (t := .connUpdate) rfl).mono (by decide)
  have hconn : Uses onDataReceivedSteps (onConnDataReceived length) := by
    simp +decide [onConnDataReceived, Option.forall, hwrite]
  cases s <;> simp +decide [onDataReceived, hconn]

theorem onClientRSTStream_uses (env : Env) (rapid : Bool) :
    Uses [.addRapidReset] (onClientRSTStream env rapid) := by
  simp [onClientRSTStream]

def registerSteps : List Tag := [.admitClient, .tryEnqueue] ++ rstSteps

theorem registerStream_uses (x : Nat) (prio : Option Priority) :
    Uses registerSteps (registerStream x prio) := by
  have hrst := (writeServerRSTStream_uses x .refusedStream).mono (m := registerSteps) (by decide)
  simp +decide [registerStream, Uses.bind, hrst]

theorem guardHeaderBlock_uses {k : M (Except GoErr Unit)} (h : .loadHandler ∈ l) (hk : Uses l k) :
    Uses l (guardHeaderBlock k) := by
  simp [guardHeaderBlock, hk, h]

theorem respondFieldsTooLarge_uses (env : Env) (x : Nat) :
    Uses sendHeadersSteps (respondFieldsTooLarge env x) := by
  have hsend := sendHeaders_uses env x status431Fields true none
  have hdone := (markStreamDone_uses x).mono (m := sendHeadersSteps) (by decide)
  simp [respondFieldsTooLarge, Uses.bind, hsend, hdone]

def deliverSteps (q : Queued) : List Tag := .advance { recvEnded := true } :: pushSteps q

theorem deliverEvent_uses {e : StreamEvent} {q : Queued} (h : e.tag = q) (x : Nat)
    (endStream : Bool) : Uses (deliverSteps q) (deliverEvent x endStream e) := by
  have hpush := (push_uses h x).mono (m := deliverSteps q) fun _ ht => .tail _ ht
  have hdone := (markStreamDone_uses x).mono (m := deliverSteps q) (by
    simp [doneSteps, deliverSteps, pushSteps, rstSteps])
  have hend : .advance { recvEnded := true } ∈ deliverSteps q := .head _
  cases endStream <;> simp [deliverEvent, markRemoteEnd, Uses.bind, hdone, hpush, hend]

def onStreamDataSteps : List Tag := .state :: deliverSteps .data

theorem onStreamData_uses (x : Nat) (endStream : Bool) (p : Bytes) :
    Uses onStreamDataSteps (onStreamData x endStream p) := by
  have hdeliver := (deliverEvent_uses (e := .data p endStream) (q := .data) rfl x endStream).mono
    (m := onStreamDataSteps) (by decide)
  have hrst := (writeServerRSTStream_uses x .streamClosed).mono (m := onStreamDataSteps) (by decide)
  simp +decide [onStreamData, Uses.bind, hdeliver, hrst]

def onDataSteps : List Tag :=
  [.loadHandler, .idle, .lookup] ++ onDataReceivedSteps ++ onStreamDataSteps

theorem onData_uses (x : Nat) (endStream : Bool) (length : Nat) (p : Bytes) :
    Uses onDataSteps (onData x endStream length p) := by
  have hrecv (s) := (onDataReceived_uses s length).mono (m := onDataSteps) (by decide)
  have hdata := (onStreamData_uses x endStream p).mono (m := onDataSteps) (by decide)
  refine guardHeaderBlock_uses (by decide) ?_
  simp +decide [Uses.bind, forall_except, hrecv, hdata]

def emitFieldsSteps : List Tag := .trySend .headers :: sendHeadersSteps ++ deliverSteps .trailers

theorem emitFields_uses (env : Env) (x : Nat) (fields : List HeaderField)
    (endStream isTrailer : Bool) :
    Uses emitFieldsSteps (emitFields env x fields endStream isTrailer) := by
  have hheaders := (deliverEvent_uses (e := .headers (ownedCopy fields) endStream) (q := .headers)
    rfl x endStream).mono (m := emitFieldsSteps) (by decide)
  have htrailers := (deliverEvent_uses (e := .trailers (ownedCopy fields) endStream)
    (q := .trailers) rfl x endStream).mono (m := emitFieldsSteps) (by decide)
  have hrst (code) := (writeServerRSTStream_uses x code).mono (m := emitFieldsSteps) (by decide)
  have hlarge := (respondFieldsTooLarge_uses env x).mono (m := emitFieldsSteps) (by decide)
  cases isTrailer <;> simp +decide [emitFields, Uses.bind, hheaders, htrailers, hrst, hlarge]

def discardSteps : List Tag := [.loadHandler, .storeHandler, .decodeBlock]

theorem discardHeaderBlock_uses (hb : Bytes) : Uses discardSteps (discardHeaderBlock hb) := by
  simp +decide [discardHeaderBlock, forall_except]

def emitSteps : List Tag := discardSteps ++ emitFieldsSteps

theorem emitHeaderBlock_uses (env : Env) (x : Nat) (hb : Bytes) (endStream isTrailer : Bool) :
    Uses emitSteps (emitHeaderBlock env x hb endStream isTrailer) := by
  have hfields (fields) := (emitFields_uses env x fields endStream isTrailer).mono
    (m := emitSteps) (by decide)
  simp +decide [emitHeaderBlock, forall_except, hfields]

def blockSteps : List Tag := .advance { recvFields := true } :: .lookup :: emitSteps

theorem onStreamHeaders_uses (env : Env) (x : Nat) (endStream endHeaders : Bool) (hb : Bytes)
    (isNew refused : Bool) :
    Uses blockSteps (onStreamHeaders env x endStream endHeaders hb isNew refused) := by
  have hlarge := (respondFieldsTooLarge_uses env x).mono (m := blockSteps) (by decide)
  have hdiscard := (discardHeaderBlock_uses hb).mono (m := blockSteps) (by decide)
  have hemit (isTrailer) := (emitHeaderBlock_uses env x hb endStream isTrailer).mono
    (m := blockSteps) (by decide)
  simp +decide [onStreamHeaders, Uses.bind, hlarge, hdiscard, hemit]

def onHeadersSteps : List Tag := .validateClientID :: registerSteps ++ blockSteps

theorem onHeaders_uses (env : Env) (x : Nat) (endStream endHeaders : Bool) (hb : Bytes)
    (prio : Option Priority) :
    Uses onHeadersSteps (onHeaders env x endStream endHeaders hb prio) := by
  have hregister := (registerStream_uses x prio).mono (m := onHeadersSteps) (by decide)
  have hstream (isNew refused) := (onStreamHeaders_uses env x endStream endHeaders hb isNew
    refused).mono (m := onHeadersSteps) (by decide)
  refine guardHeaderBlock_uses (by decide) ?_
  simp +decide [Uses.bind, forall_except, hregister, hstream]

theorem onContinuation_uses (env : Env) (x : Nat) (endHeaders : Bool) (hb : Bytes) :
    Uses blockSteps (onContinuation env x endHeaders hb) := by
  have hlarge := (respondFieldsTooLarge_uses env x).mono (m := blockSteps) (by decide)
  have hcomplete (hd buf) : Uses blockSteps (onBlockComplete env x hd buf) := by
    have hdiscard := (discardHeaderBlock_uses buf).mono (m := blockSteps) (by decide)
    have hemit (endStream isTrailer) := (emitHeaderBlock_uses env x buf endStream isTrailer).mono
      (m := blockSteps) (by decide)
    simp +decide [onBlockComplete, hdiscard, hemit]
  simp +decide [onContinuation, Uses.bind, hlarge, hcomplete]

def onRSTStreamSteps : List Tag :=
  [.loadHandler, .idle, .lookup, .advance { recvEnded := true, reset := true }, .addRapidReset] ++
    pushSteps .reset

theorem onRSTStream_uses (env : Env) (x : Nat) (code : ErrCode) :
    Uses onRSTStreamSteps (onRSTStream env x code) := by
  have hdone := (markStreamDone_uses x).mono (m := onRSTStreamSteps) (by decide)
  have hpush := (push_uses (e := .reset code) (q := .reset) rfl x).mono (m := onRSTStreamSteps)
    (by decide)
  have hrapid (rapid) := (onClientRSTStream_uses env rapid).mono (m := onRSTStreamSteps) (by decide)
  refine guardHeaderBlock_uses (by decide) ?_
  simp +decide [markRemoteEndReset, Uses.bind, hdone, hpush, hrapid]

def onSettingsSteps : List Tag := .loadHandler :: settingsSteps ++ writeSteps .settingsAck

theorem onSettings_uses (ack : Bool) (params : SettingsParams) :
    Uses onSettingsSteps (onSettings ack params) := by
  have happly := (applyPeerSettings_uses params).mono (m := onSettingsSteps) (by decide)
  have hack := (writeUnlessClosed_uses (f := .settingsAck) (t := .settingsAck) rfl).mono
    (m := onSettingsSteps) (by decide)
  refine guardHeaderBlock_uses (by decide) ?_
  simp [writeSettingsAck, Uses.bind, forall_except, happly, hack]

def onPingSteps : List Tag := .loadHandler :: writeSteps .ping

theorem onPing_uses (ack : Bool) (payload : Bytes) : Uses onPingSteps (onPing ack payload) := by
  have hwrite := (writeUnlessClosed_uses (f := .ping true payload) (t := .ping) rfl).mono
    (m := onPingSteps) (by decide)
  refine guardHeaderBlock_uses (by decide) ?_
  simp [writePingAck, hwrite]

def otherFrameSteps : List Tag := .notePeerGoAway :: onDataSteps ++ onRSTStreamSteps ++
  onSettingsSteps ++ onPingSteps ++ onWindowUpdateSteps

theorem dispatch_uses (env : Env) {f : Inbound}
    (hf : ∀ x es eh hb prio, f ≠ .headers x es eh hb prio)
    (hf' : ∀ x eh hb, f ≠ .continuation x eh hb) : Uses otherFrameSteps (dispatch env f) := by
  cases f with
  | headers => exact absurd rfl (hf _ _ _ _ _)
  | continuation => exact absurd rfl (hf' _ _ _)
  | data => exact (onData_uses ..).mono (by decide)
  | priority | altSvc | origin => exact guardHeaderBlock_uses (by decide) (by simp)
  | rstStream => exact (onRSTStream_uses ..).mono (by decide)
  | settings => exact (onSettings_uses ..).mono (by decide)
  | pushPromise | unknown | rejected => exact uses_ret _
  | ping => exact (onPing_uses ..).mono (by decide)
  | goAway => exact guardHeaderBlock_uses (by decide) (by simp +decide)
  | windowUpdate =>
    exact guardHeaderBlock_uses (by decide) ((onWindowUpdate_uses ..).mono (by decide))

def goAwaySteps : List Tag :=
  [.requestGoAway, .lastPeerID, .clampGoAwayID] ++ writeSteps .goAway

theorem sendGoAway_uses (code : ErrCode) : Uses goAwaySteps (sendGoAway code) := by
  simp +decide [sendGoAway, writeGoAway]

def shutdownEachSteps : List Tag := [.trySend .reset, .closeEvents, .cancelStream]

def shutdownSteps : List Tag := .drain :: shutdownEachSteps

theorem shutdownEach_uses (xs : List Nat) : Uses shutdownEachSteps (shutdownEach xs) := by
  induction xs with
  | nil => simp [shutdownEach]
  | cons x xs ih => simp +decide [shutdownEach, ih]

theorem shutdownStreams_uses : Uses shutdownSteps shutdownStreams := by
  have heach (xs) := (shutdownEach_uses xs).mono (m := shutdownSteps) (by decide)
  simp +decide [shutdownStreams, heach]

def initialSteps : List Tag := .connRecvWindow :: writeSteps .connUpdate

theorem sendInitialConnWindowUpdate_uses : Uses initialSteps sendInitialConnWindowUpdate := by
  have hwrite (n) : Uses initialSteps (writeWindowUpdate 0 n) :=
    (writeUnlessClosed_uses (t := .connUpdate) rfl).mono (by decide)
  simp +decide [sendInitialConnWindowUpdate, hwrite]

def recorderSteps : List Tag :=
  [.loadRecorder, .storeRecorder, .write .settingsAck] ++ settingsSteps

theorem recorderSettings_uses (ack : Bool) (params : SettingsParams) :
    Uses recorderSteps (recorderSettings ack params) := by
  have happly (s) := (applyPeerSettings_uses s).mono (m := recorderSteps) (by decide)
  simp +decide [recorderSettings, Uses.bind, forall_except, happly]

def seedSteps : List Tag :=
  [.admitClient, .tryEnqueue, .advance { recvFields := true }, .advance { recvEnded := true }] ++
    pushSteps .headers

theorem seed_uses (env : Env) : Uses seedSteps (seed env) := by
  have hregister := (registerStream_uses 1 none).mono (m := seedSteps) (by decide)
  have hpush (fields) := (push_uses (e := .headers fields true) (q := .headers) rfl 1).mono
    (m := seedSteps) (by decide)
  unfold seed
  split
  · simp +decide [seedUpgradedStream, markRemoteEnd, Uses.bind, hregister, hpush]
  · exact uses_ret _

def acceptSteps : List Tag := [.isClosed, .tryAccept, .awaitAccept, .deliver]

theorem acceptStream_uses (ctx : Ctx) : Uses acceptSteps (acceptStream ctx) := by
  simp +decide [acceptStream, acceptOne, Option.forall, forall_except]

def closeConnSteps : List Tag :=
  [.close, .cancelConn, .lockFc, .fcWakeAll, .unlockFc, .lockW, .lastPeerID, .clampGoAwayID,
    .write .goAway, .goAwayDone, .unlockW, .closeTransport, .awaitReaderDone]

theorem closeConn_uses : Uses closeConnSteps closeConn := by
  simp +decide [closeConn, writeGoAway]

theorem goAwayWith_uses {last : M Nat} (hlast : Uses goAwaySteps last) (code : ErrCode) :
    Uses goAwaySteps (goAwayWith last code) := by
  simp +decide [goAwayWith, writeGoAway, Uses.bind, hlast]

theorem discard_uses {p : M α} (h : Uses l p) : Uses l (discard p) :=
  .bind h (by simp)

def callbackSteps : List Tag := onHeadersSteps ++ otherFrameSteps

theorem dispatch_callback_uses (env : Env) (f : Inbound) : Uses callbackSteps (dispatch env f) := by
  cases f with
  | headers => exact (onHeaders_uses ..).mono (by decide)
  | continuation => exact (onContinuation_uses ..).mono (by decide)
  | _ => exact (dispatch_uses env (by simp) (by simp)).mono (by decide)

def Call.steps : Call → List Tag
  | .frame _ => []
  | .sendHeaders .. => sendHeadersSteps
  | .sendData .. => sendDataSteps
  | .push .. => pushPromiseSteps
  | .close _ => rstSteps
  | .recv x _ => recvSteps (Outbound.windowUpdate x 0).tag
  | .accept _ => acceptSteps
  | .closeConn => closeConnSteps
  | .goAwayGraceful | .goAway _ => goAwaySteps
  | .cancelRequest _ => [.cancelRequest]
  | .failTransport => [.closeTransport]

theorem Call.body_uses (env : Env) {q : Call} (hq : ∀ f, q ≠ .frame f) :
    Uses q.steps (q.body env) := by
  cases q with
  | frame f => exact absurd rfl (hq f)
  | sendHeaders => exact discard_uses (sendHeaders_uses ..)
  | sendData => exact discard_uses (sendData_uses ..)
  | push => exact discard_uses (pushWithPriority_uses ..)
  | close => exact discard_uses (closeStream_uses _)
  | recv x ctx => exact discard_uses (recv_uses rfl ctx)
  | accept => exact discard_uses (acceptStream_uses _)
  | closeConn => exact closeConn_uses
  | goAwayGraceful => exact discard_uses (goAwayWith_uses (by simp) _)
  | goAway => exact discard_uses (goAwayWith_uses (by simp +decide) _)
  | cancelRequest | failTransport => simp [body, steps]

end PoseidonServer.Conn
