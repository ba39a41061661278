import PoseidonServer.Concurrent.Discipline
import PoseidonServer.Conn.Frame

/-! Who may do what: the reader's own data is touched by the goroutine that reads, the stream
table is walked under `t.mu`, frames are written under `wmu` and send credit moves under
`fcOutMu`. Every method keeps to this, so it may be assumed of every run. -/

namespace PoseidonServer.Conn

open Concurrent

inductive Lock
  | reader | table | write | credit

def Lock.owner (w : World) : Lock → Option Nat
  | .reader => w.reader
  | .table => w.tmu
  | .write => w.wmu
  | .credit => w.fcOutMu

/-- The operations that take the lock or give it back. -/
def Lock.kind : Lock → Kind
  | .reader => .reader
  | .table => .lockTable
  | .write => .lockW
  | .credit => .lockFc

/-- What a goroutine holds: the reader's turn and the locks. -/
structure Held where
  reader : Bool := false
  table : Bool := false
  write : Bool := false
  credit : Bool := false

namespace Held

def has (h : Held) : Lock → Bool
  | .reader => h.reader
  | .table => h.table
  | .write => h.write
  | .credit => h.credit

def Of (i : Nat) (w : World) (h : Held) : Prop :=
  (h.reader → w.reader = some i) ∧ (h.table → w.tmu = some i) ∧ (h.write → w.wmu = some i) ∧
    (h.credit → w.fcOutMu = some i)

/-- What an operation asks for; the values it is given are also as the source checks them. -/
@[simp] def Allows (h : Held) : Op β → Prop
  | .readFrame f => f.WellFormed
  | .frameDone | .stopReader | .storeHandler _ | .decodeBlock _ | .storeRecorder _ | .establish
  | .addRapidReset | .notePeerGoAway | .drain | .lockTable | .trySend .. | .closeEvents _
  | .debitRecv .. | .debitConnRecv _ | .tryEnqueue _ => h.reader
  | .admitClient x _ => h.reader ∧ x % 2 = 1
  | .unlockTable | .adjustWindow .. => h.reader ∧ h.table
  | .publishSettings s => h.reader ∧ h.table ∧ validatePeerSettings s = .ok ()
  | .advance _ delta => delta.recvFields || delta.recvEnded → h.reader
  | .reservePush _ | .unlockW | .encodeBlock _ | .setMaxDynamicTableSize _
  | .clampGoAwayID _ => h.write
  | .write f => f = .settingsAck ∨ h.write
  | .growStream _ n => h.reader ∧ (n : Int) ≤ maxWindow
  | .growConn n => h.reader ∧ h.credit ∧ (n : Int) ≤ maxWindow
  | .takeSendCredits _ want => h.credit ∧ 0 < want ∧ (want : Int) ≤ maxWindow
  | .refundConn _ | .refundStream .. | .sampleNeedConn | .fcPark | .fcUnpark | .drainReady
  | .fcWakeStream _ | .fcWakeConn | .fcWakeAll | .unlockFc => h.credit
  | _ => True

@[simp] def after (h : Held) : Op β → Held
  | .readFrame _ => { h with reader := true }
  | .frameDone | .stopReader => { h with reader := false }
  | .lockTable => { h with table := true }
  | .unlockTable => { h with table := false }
  | .lockW => { h with write := true }
  | .unlockW => { h with write := false }
  | .lockFc => { h with credit := true }
  | .unlockFc => { h with credit := false }
  | _ => h

theorem reader_of_allows {h : Held} {o : Op β} (hk : o.kind ∈ [.reader, .handler])
    (ho : o.tag ≠ .readFrame) (hok : h.Allows o) : h.reader := by
  cases o <;> simp only [Op.kind, List.mem_pair, or_self, reduceCtorEq] at hk
  case readFrame => exact absurd rfl ho
  case advance delta => exact absurd (List.mem_pair.2 hk) (delta.kind_notMem (by simp))
  case write f => exact absurd (List.mem_pair.2 hk) (f.kind_notMem (by simp))
  all_goals exact hok

end Held

def discipline : Discipline Op Held where
  start := {}
  ok h _ o := h.Allows o
  after h _ o := h.after o

@[simp] theorem discipline_start : discipline.start = {} := rfl

@[simp] theorem discipline_ok (h : Held) (o : Op β) : discipline.ok h o ↔ h.Allows o := Iff.rfl

@[simp] theorem discipline_after (h : Held) (o : Op β) : discipline.after h o = h.after o := rfl

section Realizes

variable {env : Env} {i j : Nat} {w w' : World} {h h' : Held} {o : Op β} {b : β}

theorem mem_whenFree {owner : Option Nat} {u : Unit} (hb : (u, w') ∈ Op.whenFree owner w) :
    owner = none ∧ w' = w := by
  unfold Op.whenFree at hb
  split at hb
  · cases List.mem_singleton.1 hb
    exact ⟨‹_›, rfl⟩
  · cases hb

theorem Held.of_iff : h.Of i w ↔ ∀ L : Lock, h.has L → L.owner w = some i := by
  constructor
  · rintro ⟨hreader, htable, hwrite, hcredit⟩ L
    cases L
    exacts [hreader, htable, hwrite, hcredit]
  · exact fun hh => ⟨hh .reader, hh .table, hh .write, hh .credit⟩

theorem Held.owner_of_exec {L : Lock} (hk : o.kind ≠ L.kind) (hb : (b, w') ∈ o.exec env i w) :
    (h.after o).has L = h.has L ∧ L.owner w' = L.owner w := by
  have hframe := frame_of_exec hb
  constructor
  · cases L <;> cases o <;> first | rfl | exact absurd rfl hk
  · cases L with
    | reader => exact congrArg Prod.fst (hframe.turn hk)
    | table => exact hframe.tmu hk
    | write => exact hframe.wmu hk
    | credit => exact hframe.fcOutMu hk

/-- A lock stays with its owner, or is taken while it is free, or is given back by who holds it. -/
theorem Held.moves_of_exec (hok : h.Allows o) (hb : (b, w') ∈ o.exec env i w) (L : Lock) :
    (h.after o).has L = h.has L ∧ L.owner w' = L.owner w ∨
    (h.after o).has L = true ∧ L.owner w = none ∧ L.owner w' = some i ∨
    (h.after o).has L = false ∧ h.has L = true ∧ L.owner w' = none := by
  by_cases hk : o.kind = L.kind
  · cases L <;> cases o <;> simp only [Op.kind, Lock.kind, reduceCtorEq] at hk
    case readFrame =>
      obtain ⟨hfree, -, hturn⟩ := readFrame_exec hb
      exact .inr (.inl ⟨rfl, hfree, congrArg Prod.fst hturn⟩)
    case lockTable | lockFc | lockW =>
      obtain ⟨hfree, rfl⟩ := mem_whenFree hb
      exact .inr (.inl ⟨rfl, hfree, rfl⟩)
    case frameDone | stopReader | unlockFc | unlockW =>
      cases List.mem_singleton.1 hb
      exact .inr (.inr ⟨rfl, hok, rfl⟩)
    case unlockTable =>
      cases List.mem_singleton.1 hb
      exact .inr (.inr ⟨rfl, hok.2, rfl⟩)
    all_goals first
      | exact absurd hk (StreamState.kind_ne _ (by simp))
      | exact absurd hk (Outbound.kind_ne _ (by simp))
  · exact .inl (owner_of_exec hk hb)

theorem Held.owner_other (hj : j ≠ i) (hh : h.Of i w) (hok : h.Allows o)
    (hb : (b, w') ∈ o.exec env i w) (L : Lock) (hr : L.owner w = some j) : L.owner w' = some j := by
  obtain ⟨-, howner⟩ | ⟨-, hfree, -⟩ | ⟨-, hhas, -⟩ := moves_of_exec hok hb L
  · rw [howner, hr]
  · simp [hfree] at hr
  · exact absurd (hr.symm.trans (of_iff.1 hh L hhas)) (by simpa using hj)

theorem Held.reader_other (hj : j ≠ i) (hh : h.Of i w) (hok : h.Allows o)
    (hb : (b, w') ∈ o.exec env i w) (hr : w.reader = some j) : w'.reader = some j :=
  owner_other hj hh hok hb .reader hr

theorem Held.write_other (hj : j ≠ i) (hh : h.Of i w) (hok : h.Allows o)
    (hb : (b, w') ∈ o.exec env i w) (hr : w.wmu = some j) : w'.wmu = some j :=
  owner_other hj hh hok hb .write hr

theorem realizes (env : Env) (G : Guard Op World Call) :
    Realizes (machine env) G discipline Held.Of where
  start i w := by simp [Held.Of]
  own hh hok hb := by
    refine Held.of_iff.2 fun L hL => ?_
    obtain ⟨hhas, howner⟩ | ⟨-, -, howner⟩ | ⟨hhas, -⟩ := Held.moves_of_exec hok hb L
    · rw [howner]
      exact Held.of_iff.1 hh L (hhas ▸ hL)
    · exact howner
    · cases hhas.symm.trans hL
  other hj hh hok hb hh' :=
    Held.of_iff.2 fun L hL => Held.owner_other hj hh hok hb L (Held.of_iff.1 hh' L hL)

end Realizes

section Methods

open Discipline

variable {h : Held} {r : Bool}

theorem markStreamDone_keeps (x : Nat) : discipline.Keeps h (markStreamDone x) := by
  simp [markStreamDone, Keeps]

theorem writeLocked_keeps (f : Outbound) : discipline.Keeps { reader := r } (writeLocked f) := by
  simp [writeLocked, Keeps]

theorem writeUnlessClosed_keeps (f : Outbound) :
    discipline.Keeps { reader := r } (writeUnlessClosed f) := by
  have hlocked := writeLocked_keeps (r := r) f
  simp only [Keeps] at hlocked ⊢
  simp [writeUnlessClosed, hlocked]

theorem writeServerRSTStream_keeps (x : Nat) (code : ErrCode) :
    discipline.Keeps { reader := r } (writeServerRSTStream x code) := by
  simp [writeServerRSTStream, Keeps, (markStreamDone_keeps _).bind]

theorem writeRSTStreamID_keeps (x : Nat) (code : ErrCode) :
    discipline.Keeps { reader := r } (writeRSTStreamID x code) := by
  have hlocked := writeLocked_keeps (r := r) (.rstStream x code)
  simp only [Keeps] at hlocked ⊢
  simp [writeRSTStreamID, (markStreamDone_keeps _).bind, hlocked]

theorem push_keeps (x : Nat) (e : StreamEvent) :
    discipline.Keeps { reader := true } (push x e) := by
  have hrst := writeServerRSTStream_keeps (r := false) x .internalError
  simp [push, Keeps, hrst.bind]

theorem maxWritableFrame_follows (env : Env) :
    discipline.Follows h (maxWritableFrame env) fun n h' => (n : Int) ≤ maxWindow ∧ h' = h := by
  have hmax : env.cfg.advertisedSettings.maxFrameSize ≤ 16777215 := by
    simp only [Env.cfg, ServerConnOptions.defaulted, AdvertisedSettings.defaulted]
    split
    · omega
    split <;> omega
  simp only [maxWritableFrame, Prog.bind_eq, Prog.lift_bind, follows_op]
  exact ⟨trivial, fun ps => ⟨by unfold maxWindow; omega, rfl⟩⟩

theorem writeServerHeaders_keeps (env : Env) (x : Nat) (fields : List HeaderField)
    (endStream : Bool) (prio : Option Priority) :
    discipline.Keeps { reader := r } (writeServerHeaders env x fields endStream prio) := by
  have hlocked (prio) : discipline.Keeps { reader := r, write := true }
      (writeHeadersLocked env x fields endStream prio) := by
    have hmax := (maxWritableFrame_follows (h := { reader := r, write := true }) env).mono
      fun _ _ h => h.2
    simp [writeHeadersLocked, Keeps, Keeps.bind hmax]
  simp [writeServerHeaders, Keeps, (hlocked _).bind]

theorem endLocal_keeps (x : Nat) (endStream : Bool) :
    discipline.Keeps h (endLocal x endStream) := by
  have hdone := markStreamDone_keeps (h := h) x
  simp only [Keeps] at hdone ⊢
  simp [endLocal, markLocalEnd, hdone]

theorem sendHeaders_keeps (env : Env) (x : Nat) (fields : List HeaderField) (endStream : Bool)
    (prio : Option Priority) :
    discipline.Keeps { reader := r } (sendHeaders env x fields endStream prio) := by
  have hwrite := writeServerHeaders_keeps (r := r) env x fields endStream prio
  have hend := endLocal_keeps (h := { reader := r }) x endStream
  simp [sendHeaders, Keeps, hwrite.bind, hend.bind, forall_except]

theorem parkForSendCredits_keeps (x : Nat) {want : Nat} (hwant : 0 < want ∧ (want : Int) ≤ maxWindow)
    (ctx : Ctx) : discipline.Keeps { reader := r } (parkForSendCredits x want ctx) := by
  have hloop : discipline.Keeps { reader := r, credit := true } (parkLoop x want ctx) := by
    simp [parkLoop, Prog.forever, Keeps, Option.forall, hwant]
  simp [parkForSendCredits, Keeps, hloop.bind]

theorem acquireSendCredits_keeps (x : Nat) {want : Nat} (hwant : (want : Int) ≤ maxWindow) (ctx : Ctx) :
    discipline.Keeps { reader := r } (acquireSendCredits x want ctx) := by
  by_cases h₀ : want = 0
  · simp [acquireSendCredits, Keeps, h₀]
  · have hwant : 0 < want ∧ (want : Int) ≤ maxWindow := ⟨by omega, hwant⟩
    have hpark := parkForSendCredits_keeps (r := r) x hwant ctx
    simp only [Keeps] at hpark ⊢
    simp [acquireSendCredits, Option.forall, h₀, hwant, hpark]

theorem releaseSendCredits_keeps (x n : Nat) :
    discipline.Keeps { reader := r } (releaseSendCredits x n) := by
  simp [releaseSendCredits, Keeps]

theorem writeChunk_keeps (x : Nat) {maxFrame : Nat} (hmax : (maxFrame : Int) ≤ maxWindow) (endStream : Bool)
    (ctx : Ctx) (p : Bytes) :
    discipline.Keeps { reader := r } (writeChunk x maxFrame endStream ctx p) := by
  have hwant : ((min p.length maxFrame : Nat) : Int) ≤ maxWindow := by omega
  have hacquire := acquireSendCredits_keeps (r := r) x hwant ctx
  have hrelease := releaseSendCredits_keeps (r := r) x
  simp [writeChunk, Keeps, hacquire.bind, (hrelease _).bind, forall_except]

theorem writeServerData_keeps (env : Env) (x : Nat) (p : Bytes) (endStream : Bool) (ctx : Ctx) :
    discipline.Keeps { reader := r } (writeServerData env x p endStream ctx) := by
  have hend : discipline.Keeps { reader := r, write := true } (writeEndLocked x) := by
    simp [writeEndLocked, Keeps]
  have hchunks {maxFrame : Nat} (hmax : (maxFrame : Int) ≤ maxWindow) :
      discipline.Keeps { reader := r } (writeServerDataChunks x maxFrame p endStream ctx) :=
    ⟨fun p => writeChunk_keeps x hmax endStream ctx p, fun _ => rfl⟩
  simp only [writeServerData, Prog.bind_eq, Prog.lift_bind, Keeps]
  refine ⟨trivial, fun closed => ?_⟩
  cases closed with
  | true => rfl
  | false =>
    simp only [Bool.false_eq_true, if_false]
    refine (maxWritableFrame_follows env).bind ?_
    rintro n _ ⟨hn, rfl⟩
    have hmax : ((if n ≤ 0 then 16384 else n : Nat) : Int) ≤ maxWindow := by
      split
      · simp [maxWindow]
      · exact hn
    rw [follows_ite]
    exact ⟨fun _ => by simp [hend.bind], fun _ => hchunks hmax⟩

theorem sendData_keeps (env : Env) (x : Nat) (p : Bytes) (endStream : Bool) (ctx : Ctx) :
    discipline.Keeps { reader := r } (sendData env x p endStream ctx) := by
  have hwrite := writeServerData_keeps (r := r) env x p endStream ctx
  have hend := endLocal_keeps (h := { reader := r }) x endStream
  simp [sendData, Keeps, hwrite.bind, hend.bind, forall_except]

theorem closeStream_keeps (x : Nat) : discipline.Keeps { reader := r } (closeStream x) := by
  have hrst := writeServerRSTStream_keeps (r := r) x .cancel
  simp only [Keeps] at hrst ⊢
  simp [closeStream, hrst]

theorem received_keeps (x : Nat) (e : Option StreamEvent) :
    discipline.Keeps { reader := r } (received x e) := by
  have hupdate := fun n => writeUnlessClosed_keeps (r := r) (.windowUpdate x n)
  have hcredit (e) : discipline.Keeps { reader := r } (creditConsumed x e) := by
    cases e <;> simp [creditConsumed, Keeps, writeWindowUpdate, (hupdate _).bind]
  cases e <;> simp [received, Keeps, (hcredit _).bind]

theorem recv_keeps (x : Nat) (ctx : Ctx) : discipline.Keeps { reader := r } (recv x ctx) := by
  have hreceived := received_keeps (r := r) x
  simp only [Keeps] at hreceived ⊢
  simp [recv, Option.forall, forall_except, hreceived]

theorem pushWithPriority_keeps (env : Env) (x : Nat) (fields : List HeaderField)
    (prio : Option Priority) :
    discipline.Keeps { reader := r } (pushWithPriority env x fields prio) := by
  have hmax := (maxWritableFrame_follows (h := { reader := r, write := true }) env).mono
    fun _ _ h => h.2
  have hlocked : discipline.Keeps { reader := r, write := true }
      (writePushPromiseLocked env x fields) := by
    simp [writePushPromiseLocked, Keeps, Keeps.bind hmax, Option.forall]
  have hwrite : discipline.Keeps { reader := r } (writePushPromise env x fields) := by
    simp [writePushPromise, Keeps, hlocked.bind]
  have hpush : discipline.Keeps { reader := r } (pushPromise env x fields) := by
    simp only [Keeps] at hwrite ⊢
    simp [pushPromise, hwrite]
  simp [pushWithPriority, Keeps, hpush.bind, forall_except]

theorem adjustAll_keeps (delta : Int) (xs : List Nat) :
    discipline.Keeps { reader := true, table := true } (adjustAll delta xs) := by
  induction xs with
  | nil => simp [adjustAll, Keeps]
  | cons x xs ih => simp [adjustAll, Keeps, ih.bind]

theorem resizeEncoder_keeps (s : SettingsParams) :
    discipline.Keeps { reader := r, write := true } (resizeEncoder s) := by
  fun_induction resizeEncoder s with
  | case1 => simp [Keeps]
  | case2 v s ih =>
    simp only [Keeps] at ih ⊢
    simp [ih]
  | case3 _ s _ ih => exact ih

theorem applyPeerSettings_keeps (s : SettingsParams) :
    discipline.Keeps { reader := true } (applyPeerSettings s) := by
  unfold applyPeerSettings
  split
  · simp [Keeps]
  · rename_i hvalid
    have hwindow : discipline.Keeps { reader := true } (applyInitialWindow s) := by
      simp [applyInitialWindow, Keeps, hvalid, (adjustAll_keeps _ _).bind]
    simp only [Prog.bind_eq, Prog.lift_bind, Keeps]
    refine ⟨trivial, fun _ => (resizeEncoder_keeps s).bind fun _ => ?_⟩
    refine ⟨rfl, fun _ => hwindow.bind fun b => ?_⟩
    split <;> simp

theorem onWindowUpdate_keeps (x : Nat) {increment : Nat} (hn : increment < 2 ^ 31) :
    discipline.Keeps { reader := true } (onWindowUpdate x increment) := by
  have hn : (increment : Int) ≤ maxWindow := by unfold maxWindow; omega
  have hconn : discipline.Keeps { reader := true } (onConnWindowUpdate increment) := by
    simp [onConnWindowUpdate, Keeps, hn]
  have hpush := push_keeps x (.reset .flowControlError)
  have hrst := writeServerRSTStream_keeps (r := true) x .flowControlError
  simp only [Keeps] at hconn ⊢
  simp [onWindowUpdate, hn, hconn, hpush.bind, hrst.bind]

theorem onDataReceived_keeps (s : Option Nat) (length : Nat) :
    discipline.Keeps { reader := true } (onDataReceived s length) := by
  have hupdate := fun n => writeUnlessClosed_keeps (r := true) (.windowUpdate 0 n)
  have hconn : discipline.Keeps { reader := true } (onConnDataReceived length) := by
    simp only [Keeps] at hupdate ⊢
    simp [onConnDataReceived, writeWindowUpdate, Option.forall, hupdate]
  simp only [Keeps] at hconn ⊢
  cases s <;> simp [onDataReceived, hconn]

theorem onClientRSTStream_keeps (env : Env) (rapid : Bool) :
    discipline.Keeps { reader := true } (onClientRSTStream env rapid) := by
  simp [onClientRSTStream, Keeps]

theorem registerStream_keeps {x : Nat} (hx : x % 2 = 1) (prio : Option Priority) :
    discipline.Keeps { reader := true } (registerStream x prio) := by
  have hrst := writeServerRSTStream_keeps (r := true) x .refusedStream
  simp [registerStream, Keeps, hx, hrst.bind]

theorem guardHeaderBlock_keeps {k : M (Except GoErr Unit)} (hk : discipline.Keeps h k) :
    discipline.Keeps h (guardHeaderBlock k) := by
  simp only [Keeps] at hk ⊢
  simp [guardHeaderBlock, hk]

theorem respondFieldsTooLarge_keeps (env : Env) (x : Nat) :
    discipline.Keeps { reader := r } (respondFieldsTooLarge env x) := by
  have hdone := markStreamDone_keeps (h := { reader := r }) x
  have hsend := sendHeaders_keeps (r := r) env x status431Fields true none
  exact hsend.bind fun _ => hdone

theorem deliverEvent_keeps (x : Nat) (endStream : Bool) (e : StreamEvent) :
    discipline.Keeps { reader := true } (deliverEvent x endStream e) := by
  have hdone := markStreamDone_keeps (h := { reader := true }) x
  have hpush := push_keeps x
  cases endStream <;> simp [deliverEvent, markRemoteEnd, Keeps, hdone.bind, (hpush _).bind]

theorem onData_keeps (x : Nat) (endStream : Bool) (length : Nat) (p : Bytes) :
    discipline.Keeps { reader := true } (onData x endStream length p) := by
  have hdeliver := deliverEvent_keeps x endStream (.data p endStream)
  have hrst := writeServerRSTStream_keeps (r := true) x .streamClosed
  have hdata : discipline.Keeps { reader := true } (onStreamData x endStream p) := by
    simp only [Keeps] at hdeliver ⊢
    simp [onStreamData, hdeliver, hrst.bind]
  refine guardHeaderBlock_keeps ?_
  simp only [Keeps] at hdata ⊢
  simp [(onDataReceived_keeps _ _).bind, forall_except, hdata]

theorem discardHeaderBlock_keeps (hb : Bytes) :
    discipline.Keeps { reader := true } (discardHeaderBlock hb) := by
  simp [discardHeaderBlock, Keeps, forall_except]

theorem emitHeaderBlock_keeps (env : Env) (x : Nat) (hb : Bytes) (endStream isTrailer : Bool) :
    discipline.Keeps { reader := true } (emitHeaderBlock env x hb endStream isTrailer) := by
  have hdeliver := deliverEvent_keeps x endStream
  have hrst := writeServerRSTStream_keeps (r := true) x
  have hlarge := respondFieldsTooLarge_keeps (r := true) env x
  have hfields (fields) :
      discipline.Keeps { reader := true } (emitFields env x fields endStream isTrailer) := by
    simp only [Keeps] at hdeliver ⊢
    simp [emitFields, hdeliver, (hrst _).bind, hlarge.bind]
  simp only [Keeps] at hfields ⊢
  simp [emitHeaderBlock, forall_except, hfields]

theorem onHeaders_keeps (env : Env) (x : Nat) (endStream endHeaders : Bool) (hb : Bytes)
    (prio : Option Priority) :
    discipline.Keeps { reader := true } (onHeaders env x endStream endHeaders hb prio) := by
  have hlarge := respondFieldsTooLarge_keeps (r := true) env x
  have hdiscard := discardHeaderBlock_keeps hb
  have hemit := emitHeaderBlock_keeps env x hb endStream
  have hstream (isNew refused) : discipline.Keeps { reader := true }
      (onStreamHeaders env x endStream endHeaders hb isNew refused) := by
    simp only [Keeps] at hdiscard hemit ⊢
    simp [onStreamHeaders, hlarge.bind, hdiscard, hemit]
  refine guardHeaderBlock_keeps ?_
  by_cases hx : x % 2 = 1
  · have hregister := registerStream_keeps hx prio
    simp only [Keeps] at hstream ⊢
    simp [forall_except, hregister.bind, hstream, hx]
  · simp [Keeps, show x % 2 = 0 by omega]

theorem onContinuation_keeps (env : Env) (x : Nat) (endHeaders : Bool) (hb : Bytes) :
    discipline.Keeps { reader := true } (onContinuation env x endHeaders hb) := by
  have hlarge := respondFieldsTooLarge_keeps (r := true) env x
  have hcomplete (hd buf) : discipline.Keeps { reader := true } (onBlockComplete env x hd buf) := by
    have hdiscard := discardHeaderBlock_keeps buf
    have hemit := emitHeaderBlock_keeps env x buf
    simp only [Keeps] at hdiscard hemit ⊢
    simp [onBlockComplete, hdiscard, hemit]
  simp only [Keeps] at hcomplete ⊢
  simp [onContinuation, hlarge.bind, hcomplete]

theorem onRSTStream_keeps (env : Env) (x : Nat) (code : ErrCode) :
    discipline.Keeps { reader := true } (onRSTStream env x code) := by
  have hdone := markStreamDone_keeps (h := { reader := true }) x
  have hpush := push_keeps x (.reset code)
  have hrapid := onClientRSTStream_keeps env
  refine guardHeaderBlock_keeps ?_
  simp only [Keeps] at hrapid ⊢
  simp [markRemoteEndReset, hpush.bind, hdone.bind, hrapid]

theorem onSettings_keeps (ack : Bool) (params : SettingsParams) :
    discipline.Keeps { reader := true } (onSettings ack params) := by
  have happly := applyPeerSettings_keeps params
  have hack := writeUnlessClosed_keeps (r := true) .settingsAck
  refine guardHeaderBlock_keeps ?_
  simp only [Keeps] at hack ⊢
  simp [writeSettingsAck, happly.bind, forall_except, hack]

theorem dispatch_keeps (env : Env) {f : Inbound} (hf : f.WellFormed) :
    discipline.Keeps { reader := true } (dispatch env f) := by
  have hping := fun payload => writeUnlessClosed_keeps (r := true) (.ping true payload)
  cases f with
  | data => exact onData_keeps ..
  | headers => exact onHeaders_keeps ..
  | priority | altSvc | origin => exact guardHeaderBlock_keeps rfl
  | rstStream => exact onRSTStream_keeps ..
  | settings => exact onSettings_keeps ..
  | pushPromise | unknown | rejected => exact rfl
  | ping ack payload =>
    refine guardHeaderBlock_keeps ?_
    split
    · rfl
    · exact hping payload
  | goAway => exact guardHeaderBlock_keeps (by simp [Keeps])
  | windowUpdate => exact guardHeaderBlock_keeps (onWindowUpdate_keeps _ hf.2)
  | continuation => exact onContinuation_keeps ..

theorem sendGoAway_keeps (code : ErrCode) :
    discipline.Keeps { reader := r } (sendGoAway code) := by
  simp [sendGoAway, writeGoAway, Keeps]

theorem shutdownStreams_keeps : discipline.Keeps { reader := true } shutdownStreams := by
  have heach (xs) : discipline.Keeps { reader := true } (shutdownEach xs) := by
    induction xs with
    | nil => rfl
    | cons x xs ih =>
      simp only [Keeps] at ih ⊢
      simp [shutdownEach, ih]
  simp only [Keeps] at heach ⊢
  simp [shutdownStreams, heach]

def Ends (p : M Unit) : Prop := discipline.Follows { reader := true } p fun _ h => h = {}

theorem teardown_ends (code : Option ErrCode) : Ends (teardown code) := by
  have hannounce : discipline.Keeps { reader := true } (announce code) := by
    cases code <;> simp [announce, Keeps, (sendGoAway_keeps _).bind]
  exact hannounce.bind fun _ => shutdownStreams_keeps.bind fun _ => by simp

theorem readerError_ends (f : Inbound) (pending : Nat) (e : GoErr) :
    Ends (readerError f pending e) := by
  have htear := teardown_ends
  have hrst := writeRSTStreamID_keeps (r := true) f.streamID
  simp only [Ends] at htear ⊢
  simp only [readerError, Prog.bind_eq, Prog.lift_bind, follows_ite, follows_op]
  refine ⟨fun _ => htear _, fun _ => ⟨fun _ => ⟨trivial, fun idle => ?_⟩, fun _ => htear _⟩⟩
  refine ⟨fun _ => htear _, fun _ => ?_⟩
  split
  · exact (hrst _).bind fun _ => by simp
  · exact htear _

theorem abortHandshake_ends : Ends abortHandshake :=
  shutdownStreams_keeps.bind fun _ => by simp

theorem finishHandshake_ends (env : Env) : Ends (finishHandshake env) := by
  have hupdate := fun n => writeUnlessClosed_keeps (r := true) (.windowUpdate 0 n)
  have hinitial : discipline.Keeps { reader := true } sendInitialConnWindowUpdate := by
    simp only [Keeps] at hupdate ⊢
    simp [sendInitialConnWindowUpdate, writeWindowUpdate, hupdate]
  have hseed : discipline.Keeps { reader := true } (seed env) := by
    unfold seed
    split
    · have hpush := push_keeps 1
      simp [seedUpgradedStream, markRemoteEnd, Keeps, (registerStream_keeps _ _).bind,
        (hpush _).bind]
    · rfl
  refine hinitial.bind fun e => ?_
  cases e with
  | error e => exact abortHandshake_ends
  | ok _ => exact hseed.bind fun _ => by simp

theorem serveFrame_keeps (env : Env) {f : Inbound} (hf : f.WellFormed) :
    discipline.Keeps {} (serveFrame env f) := by
  have hdispatch := dispatch_keeps env hf
  have hreader : Ends (readerStep env f) := by
    have herror := readerError_ends f
    simp only [Ends] at herror ⊢
    refine hdispatch.bind fun e => ?_
    cases e <;> simp [herror]
  have hrecorder : discipline.Keeps { reader := true } (recorderDispatch env f) := by
    unfold recorderDispatch
    split
    · simp [recorderSettings, Keeps, (applyPeerSettings_keeps _).bind, forall_except]
    · exact hdispatch
  have hhandshake : Ends (handshakeStep env f) := by
    have hfinish := finishHandshake_ends env
    refine hrecorder.bind fun e => ?_
    cases e with
    | error e =>
      have hgoAway : discipline.Keeps { reader := true } (handshakeGoAway e) := by
        unfold handshakeGoAway
        split
        · exact sendGoAway_keeps _
        · rfl
      exact hgoAway.bind fun _ => abortHandshake_ends
    | ok _ =>
      simp only [Ends] at hfinish ⊢
      simp [hfinish]
  simp only [Keeps, Ends] at hreader hhandshake ⊢
  simp [serveFrame, hf, hreader, hhandshake]

theorem discard_keeps {p : M α} (hp : discipline.Keeps h p) : discipline.Keeps h (discard p) :=
  hp.bind fun _ => rfl

theorem Call.body_keeps (env : Env) {q : Call} {w : World} (hq : q.available w) :
    discipline.Keeps {} (q.body env) := by
  have hgoAway {last : M Nat} (hlast : discipline.Keeps { write := true } last) (code : ErrCode) :
      discipline.Keeps {} (goAwayWith last code) := by
    simp [goAwayWith, writeGoAway, Keeps, hlast.bind]
  cases q with
  | frame f => exact serveFrame_keeps env (by simpa [available] using hq)
  | sendHeaders => exact discard_keeps (sendHeaders_keeps ..)
  | sendData => exact discard_keeps (sendData_keeps ..)
  | push => exact discard_keeps (pushWithPriority_keeps ..)
  | close => exact discard_keeps (closeStream_keeps _)
  | recv => exact discard_keeps (recv_keeps ..)
  | accept =>
    refine discard_keeps ?_
    simp [acceptStream, acceptOne, Prog.forever, Keeps, Option.forall, forall_except]
  | closeConn => simp [body, Conn.closeConn, writeGoAway, Keeps]
  | goAwayGraceful => exact discard_keeps (hgoAway (by simp [Keeps]) _)
  | goAway => exact discard_keeps (hgoAway (by simp [Keeps]) _)
  | cancelRequest => simp [body, Keeps]
  | failTransport => simp [body, Keeps]

end Methods

abbrev owned (G : Guard Op World Call) : Guard Op World Call := discipline.guard G Held.Of

theorem reach_owned {env : Env} {G : Guard Op World Call} (hG : ∀ w q, G.callOk w q → q.available w)
    {c : Config Op World} (hc : Reach env G c) : Reach env (owned G) c :=
  Discipline.reachable_guard (realizes env G) (fun q w hq => Call.body_keeps env (hG w q hq)) hc

theorem enabled_owned {env : Env} {G : Guard Op World Call}
    (hG : ∀ w q, G.callOk w q → q.available w) {c : Config Op World} {e : Event Call}
    (hc : Reach env G c) (he : G.Enabled c e) : (owned G).Enabled c e :=
  Discipline.enabled (realizes env G) (fun q w hq => Call.body_keeps env (hG w q hq)) hc he

theorem runs_owned {env : Env} {G : Guard Op World Call} (hG : ∀ w q, G.callOk w q → q.available w)
    {c c' : Config Op World} (hc : Reach env G c)
    (h : Running env G c c') : Running env (owned G) c c' := by
  induction h with
  | refl => exact .refl
  | next h he hn ih => exact ih.next (enabled_owned hG (hc.runs h) he) hn

theorem step_owned {env : Env} {G : Guard Op World Call} (hG : ∀ w q, G.callOk w q → q.available w)
    {c c' : Config Op World} {e : Event Call} (h : Step env G c e c') : Step env (owned G) c e c' :=
  Discipline.taken_guard (realizes env G) (fun q w hq => Call.body_keeps env (hG w q hq)) h

namespace Held

/-- `Of` says that what is held is owned, and this also that there is nothing else. -/
def Exactly (i : Nat) (w : World) (h : Held) : Prop := ∀ L : Lock, h.has L ↔ L.owner w = some i

variable {env : Env} {i j : Nat} {w w' : World} {h h' : Held} {o : Op β} {b : β}

theorem Exactly.own (hh : Exactly i w h) (hok : h.Allows o) (hb : (b, w') ∈ o.exec env i w) :
    Exactly i w' (h.after o) := by
  intro L
  obtain ⟨hhas, howner⟩ | ⟨hhas, -, howner⟩ | ⟨hhas, -, howner⟩ := moves_of_exec hok hb L
  · rw [hhas, howner, hh L]
  · rw [hhas, howner, eq_self_iff_true, eq_self_iff_true]
  · rw [hhas, howner]
    simp

theorem Exactly.other (hj : j ≠ i) (hh : Exactly i w h) (hok : h.Allows o)
    (hb : (b, w') ∈ o.exec env i w) (hh' : Exactly j w h') : Exactly j w' h' := by
  intro L
  rw [hh' L]
  obtain ⟨-, howner⟩ | ⟨-, hfree, howner⟩ | ⟨-, hhas, howner⟩ := moves_of_exec hok hb L
  · rw [howner]
  · simp [hfree, howner, hj.symm]
  · simp [(hh L).1 hhas, howner, hj.symm]

end Held

/-- In any interleaving the owner of a lock is a goroutine that has not returned, and every goroutine
owns what its next operation asks for. -/
theorem locks_are_owned (env : Env) (c : Config Op World) (hc : Reach env anyCall c) :
    (∀ (L : Lock) i, L.owner c.shared = some i → ∃ p, c.threads[i]? = some p ∧ p ≠ .ret ()) ∧
    ∀ i β (o : Op β) k, c.threads[i]? = some (.op o k) →
      ∃ h : Held, (∀ L : Lock, h.has L ↔ L.owner c.shared = some i) ∧ h.Allows o := by
  have hrest : ∀ i, ∃ h, Held.Exactly i c.shared h ∧
      discipline.Follows h (Discipline.rest c.threads i) fun _ h' => h' = {} :=
    Discipline.follows_rest (fun _ _ hq => Call.body_keeps env hq)
      (fun i L => by cases L <;> simp [Held.has, Lock.owner, World.init])
      Held.Exactly.own Held.Exactly.other hc
  refine ⟨fun L i howner => ?_, fun i β o k hi => ?_⟩
  · obtain ⟨h, hh, hf⟩ := hrest i
    have hret : Discipline.rest c.threads i ≠ .ret () := by
      intro hret
      rw [hret] at hf
      cases hf
      cases L <;> cases (hh _).2 howner
    unfold Discipline.rest at hret
    cases hi : c.threads[i]? with
    | none => simp [hi] at hret
    | some p => exact ⟨p, rfl, by simpa [hi] using hret⟩
  · obtain ⟨h, hh, hf⟩ := hrest i
    rw [Discipline.rest_of_getElem? hi] at hf
    exact ⟨h, hh, hf.1⟩

theorem locks_are_owned_by_writer : ∃ c, Reach getRequests anyCall c ∧
    c.shared.wmu = some 2 ∧ ∃ p, c.threads[2]? = some p ∧ p ≠ .ret () := by
  obtain ⟨c, hc, h⟩ := exists_reach_of_run getRequests
    (Config.inTurn 0 (handshake ++ [(.goAway .noError, 2)])) (p := fun c => c.shared.wmu = some 2)
    (by decide +kernel)
  have howner := of_decide_eq_true h
  exact ⟨c, hc, howner, (locks_are_owned _ c hc).1 .write 2 howner⟩

end PoseidonServer.Conn
