import PoseidonServer.Conn.Lifecycle.Callbacks

/-! A proof rule for what is said about RST_STREAM: the reader's callbacks are followed down to
the methods that write it, with the stream that each of them is about. -/

namespace PoseidonServer.Conn

open Concurrent

def Uncoded (r : Except GoErr α) : Prop := ∀ e, r = .error e → e.streamCode = none

@[simp] theorem uncoded_ok (a : α) : Uncoded (.ok a : Except GoErr α) := fun _ h => by cases h

@[simp] theorem uncoded_error (e : GoErr) :
    Uncoded (.error e : Except GoErr α) ↔ e.streamCode = none :=
  ⟨fun h => h e rfl, fun h _ he => by cases he; exact h⟩

/-- What the table may say about an identifier that is new to it. -/
def Answers : {β : Type} → Op β → β → Prop
  | _, .validateClientID _, r => Uncoded r
  | _, _, _ => True

theorem answers_of_exec {env : Env} {i : Nat} {w w' : World} {o : Op β} {b : β}
    (hb : (b, w') ∈ o.exec env i w) : Answers o b := by
  cases o
  case validateClientID x =>
    simp only [Op.exec, Op.underTable] at hb
    split at hb
    · cases List.mem_singleton.1 hb
      unfold World.validateClientID
      split
      · exact (uncoded_error _).2 rfl
      · split
        · exact (uncoded_error _).2 rfl
        · exact uncoded_ok _
    · cases hb
  all_goals trivial

section Returns

abbrev Sober (p : M (Except GoErr α)) : Prop := p.Returns Answers Uncoded

theorem sober_ite {c : Prop} [Decidable c] {p q : M (Except GoErr α)} (hp : Sober p) (hq : Sober q) :
    Sober (if c then p else q) := by
  split <;> assumption

theorem writeLocked_sober (f : Outbound) : Sober (writeLocked f) := by
  intro _ _ ok _ _ _
  cases ok <;> simp [GoErr.streamCode]

theorem writeUnlessClosed_sober (f : Outbound) : Sober (writeUnlessClosed f) :=
  fun _ _ => sober_ite (by simp [GoErr.streamCode]) (writeLocked_sober f)

theorem guardHeaderBlock_sober {k : M (Except GoErr Unit)} (hk : Sober k) :
    Sober (guardHeaderBlock k) :=
  fun _ _ => sober_ite (by simp [protocolError, GoErr.streamCode]) hk

theorem deliverEvent_sober (x : Nat) (endStream : Bool) (e : StreamEvent) :
    Sober (deliverEvent x endStream e) := by
  simp only [deliverEvent, Prog.bind_eq, Prog.pure_eq]
  cases endStream <;> refine Prog.returns_bind _ fun _ => Prog.returns_bind _ fun _ => ?_ <;>
    exact sober_ite (Prog.returns_bind _ fun _ => by simp) (by simp)

theorem onDataReceived_sober (s : Option Nat) (length : Nat) : Sober (onDataReceived s length) := by
  have hconn : Sober (onConnDataReceived length) := by
    intro r _
    cases r with
    | none => simp [GoErr.streamCode]
    | some refund => exact sober_ite (writeUnlessClosed_sober _) (by simp)
  cases s with
  | none => exact hconn
  | some x => exact fun ok _ => sober_ite hconn (by simp [GoErr.streamCode])

theorem onData_sober (x : Nat) (endStream : Bool) (length : Nat) (p : Bytes) :
    Sober (onData x endStream length p) := by
  refine guardHeaderBlock_sober (sober_ite (by simp [protocolError, GoErr.streamCode]) ?_)
  refine fun idle _ => sober_ite (by simp [protocolError, GoErr.streamCode]) fun live _ => ?_
  refine (onDataReceived_sober _ _).bind fun r hr => ?_
  cases r with
  | error e => exact hr
  | ok _ =>
    refine sober_ite (fun st _ => ?_) (by simp)
    exact sober_ite (Prog.returns_bind _ fun _ => by simp) (deliverEvent_sober _ _ _)

theorem discardHeaderBlock_sober (hb : Bytes) : Sober (discardHeaderBlock hb) := by
  intro _ _ _ _ r _
  cases r <;> simp [compressionError, GoErr.streamCode]

theorem emitHeaderBlock_sober (env : Env) (x : Nat) (hb : Bytes) (endStream isTrailer : Bool) :
    Sober (emitHeaderBlock env x hb endStream isTrailer) := by
  intro _ _ _ _ r _
  cases r with
  | error msg => simp [compressionError, GoErr.streamCode]
  | ok fields =>
    refine sober_ite (Prog.returns_bind _ fun _ => by simp) fun st _ => ?_
    refine sober_ite (Prog.returns_bind _ fun _ => by simp) ?_
    exact sober_ite (Prog.returns_bind _ fun _ => by simp) (deliverEvent_sober _ _ _)

theorem onStreamHeaders_sober (env : Env) (x : Nat) (endStream endHeaders : Bool) (hb : Bytes)
    (isNew refused : Bool) : Sober (onStreamHeaders env x endStream endHeaders hb isNew refused) := by
  refine sober_ite (sober_ite ?_ fun _ _ _ _ => by simp) (sober_ite (discardHeaderBlock_sober hb) ?_)
  · exact Prog.returns_bind _ fun _ => by simp [headerBlockTooLarge, GoErr.streamCode]
  · exact fun st _ => sober_ite (fun _ _ => emitHeaderBlock_sober ..) (emitHeaderBlock_sober ..)

theorem onHeaders_sober (env : Env) (x : Nat) (endStream endHeaders : Bool) (hb : Bytes)
    (prio : Option Priority) : Sober (onHeaders env x endStream endHeaders hb prio) := by
  refine guardHeaderBlock_sober (sober_ite (by simp [protocolError, GoErr.streamCode]) ?_)
  refine fun live _ => sober_ite (onStreamHeaders_sober ..) fun r hr => ?_
  cases r with
  | error e => exact hr
  | ok _ => exact Prog.returns_bind (registerStream x prio) fun ok => onStreamHeaders_sober ..

theorem onContinuation_sober (env : Env) (x : Nat) (endHeaders : Bool) (hb : Bytes) :
    Sober (onContinuation env x endHeaders hb) := by
  refine fun h _ => sober_ite (by simp [protocolError, GoErr.streamCode]) ?_
  refine sober_ite (by simp [protocolError, GoErr.streamCode]) (sober_ite ?_ fun _ _ => ?_)
  · intro live _
    have hlarge : Sober (.ret headerBlockTooLarge) := by simp [headerBlockTooLarge, GoErr.streamCode]
    exact sober_ite (Prog.returns_bind _ fun _ => hlarge) hlarge
  · refine sober_ite (by simp) (sober_ite (discardHeaderBlock_sober _) fun live _ => ?_)
    refine sober_ite (discardHeaderBlock_sober _) ?_
    exact sober_ite (fun _ _ => emitHeaderBlock_sober ..) (emitHeaderBlock_sober ..)

theorem onClientRSTStream_sober (env : Env) (rapid : Bool) : Sober (onClientRSTStream env rapid) := by
  refine sober_ite (by simp) (sober_ite (by simp) fun n _ => ?_)
  exact sober_ite (by simp [GoErr.streamCode]) (by simp)

theorem onRSTStream_sober (env : Env) (x : Nat) (code : ErrCode) : Sober (onRSTStream env x code) := by
  refine guardHeaderBlock_sober fun idle _ => sober_ite (by simp [protocolError, GoErr.streamCode]) ?_
  refine fun live _ => sober_ite (onClientRSTStream_sober ..) ?_
  refine Prog.returns_bind _ fun rapid => Prog.returns_bind _ fun _ => Prog.returns_bind _ fun _ => ?_
  exact onClientRSTStream_sober ..

theorem onWindowUpdate_sober (x increment : Nat) : Sober (onWindowUpdate x increment) := by
  refine sober_ite (fun _ _ grown _ => ?_) fun idle _ => ?_
  · exact sober_ite (fun _ _ _ _ => by simp) fun _ _ => by simp [GoErr.streamCode]
  refine sober_ite (by simp [GoErr.streamCode]) fun live _ => sober_ite (by simp) fun grown _ => ?_
  refine sober_ite (fun _ _ _ _ _ _ => by simp) fun _ _ => ?_
  refine Prog.returns_bind (push x _) fun _ => ?_
  exact Prog.returns_bind (writeServerRSTStream x _) fun _ => by simp

theorem dispatch_sober (env : Env) {f : Inbound} (hf : f.streamID ≠ 0)
    (hr : ∀ ty x err, f ≠ .rejected ty x err) : Sober (dispatch env f) := by
  cases f with
  | data => exact onData_sober ..
  | headers => exact onHeaders_sober ..
  | rstStream => exact onRSTStream_sober ..
  | windowUpdate => exact guardHeaderBlock_sober (onWindowUpdate_sober ..)
  | continuation => exact onContinuation_sober ..
  | priority | altSvc | origin => exact guardHeaderBlock_sober (by simp)
  | goAway => exact guardHeaderBlock_sober fun _ _ => by simp
  | settings | ping => exact absurd rfl hf
  | pushPromise => simp [dispatch, protocolError, GoErr.streamCode]
  | unknown => simp [dispatch]
  | rejected => exact absurd rfl (hr _ _ _)

end Returns

def readerEnd (f : Inbound) (r : Except GoErr Unit) : M Unit := do
  let h ← .lift .loadHandler
  match r with
  | .ok () =>
    if h.pendingStreamID ≠ 0 && undispatchedFrameType f.type then
      readerError f h.pendingStreamID
        (.connError .protocolError "extension frame inside an open field block")
    else .lift .frameDone
  | .error e => readerError f h.pendingStreamID e

def handshakeEnd (env : Env) : Except GoErr Unit → M Unit
  | .error e => handshakeError e
  | .ok () => do
    let r ← .lift .loadRecorder
    if r.peerSeen && r.ackSeen then finishHandshake env else .lift .frameDone

def turnEnd (env : Env) (established : Bool) (f : Inbound) (r : Except GoErr Unit) : M Unit :=
  if established then readerEnd f r else handshakeEnd env r

theorem readerStep_eq (env : Env) (f : Inbound) :
    readerStep env f = (dispatch env f).bind (turnEnd env true f) := rfl

theorem handshakeStep_eq (env : Env) (f : Inbound) :
    handshakeStep env f = (recorderDispatch env f).bind (turnEnd env false f) := rfl

def resetSteps : List Tag := [.readFrame, .frameDone, .stopReader, .write .rstStream]

variable {env : Env} {G : Guard Op World Call} {γ : Type} [AddCommMonoid γ]

/-- What the end of the connection is proved from, where the reader still keeps `P`. -/
structure Ending (S : Spec (machine env) G γ) (i : Nat) (P : World → Prop) : Prop where
  rely : ∀ {w w'}, S.rely i w w' → P w → P w'
  step : ∀ {β} {o : Op β}, o.tag ∉ resetSteps → S.Under i P o ∧ S.Mild o
  stopReader : ∀ {w}, P w → S.Safe i (.lift .stopReader) 0 (S.Done i) w

namespace Ending

variable {S : Spec (machine env) G γ} {i : Nat} {P : World → Prop} {w : World} (E : Ending S i P)

include E

theorem uses {l : List Tag} {p : M α} (hp : Uses l p) (hl : ∀ t ∈ l, t ∉ resetSteps) :
    S.Keeps i P p :=
  Spec.keeps_of_all E.rely (Prog.All.mono (fun _ ho => E.step (hl _ ho)) hp)

theorem shutdown {p : M Unit} (hp : ∀ w, P w → S.Safe i p 0 (S.Done i) w) (h : P w) :
    S.Safe i (shutdownStreams.bind fun _ => p) 0 (S.Done i) w := by
  refine Spec.Safe.bind ((E.uses shutdownStreams_uses (by decide) w h).mono ?_)
  rintro _ _ w' ⟨rfl, h'⟩
  exact hp w' h'

theorem teardown (code : Option ErrCode) (h : P w) : S.Safe i (teardown code) 0 (S.Done i) w := by
  have hstop (w) (h : P w) := E.shutdown (p := .lift .stopReader) (fun _ h => E.stopReader h) h
  cases code with
  | none => exact hstop w h
  | some code =>
    refine Spec.Safe.bind (Spec.Safe.bind ((E.uses (sendGoAway_uses code) (by decide) w h).mono ?_))
    rintro _ _ w₁ ⟨rfl, h₁⟩
    refine (E.step (by simp [resetSteps])).1.safe_op E.rely h₁ fun _ _ w₂ _ _ _ _ h₂ => ?_
    exact fun w₃ hw => hstop w₃ (E.rely hw h₂)

theorem readerError {f : Inbound} (pending : Nat) {e : GoErr} (he : e.streamCode = none) (h : P w) :
    S.Safe i (readerError f pending e) 0 (S.Done i) w := by
  simp only [Conn.readerError, he, Prog.bind_eq, Prog.lift_bind]
  split
  · exact E.teardown _ h
  split
  · refine (E.step (by simp [resetSteps])).1.safe_op E.rely h fun _ idle w₂ _ _ _ _ h₂ => ?_
    split <;> exact E.teardown _ h₂
  · exact E.teardown _ h

theorem abortHandshake (h : P w) : S.Safe i abortHandshake 0 (S.Done i) w := by
  refine E.shutdown (fun w₁ h₁ => ?_) h
  refine (E.step (by simp [resetSteps])).1.safe_op E.rely h₁ fun _ _ w₂ _ _ _ _ h₂ => ?_
  refine (E.step (by simp [resetSteps])).1.safe_op E.rely h₂ fun _ _ w₃ _ _ _ _ h₃ => ?_
  exact E.stopReader h₃

theorem handshakeError (e : GoErr) (h : P w) : S.Safe i (handshakeError e) 0 (S.Done i) w := by
  have hgoAway : S.Keeps i P (handshakeGoAway e) := by
    unfold handshakeGoAway
    split
    · exact E.uses (sendGoAway_uses _) (by decide)
    · exact Spec.keeps_ret E.rely _
  refine Spec.Safe.bind ((hgoAway w h).mono ?_)
  rintro _ _ w₁ ⟨rfl, h₁⟩
  exact E.abortHandshake h₁

theorem turnEnd {f : Inbound} (established : Bool) {e : GoErr} (he : e.streamCode = none) (h : P w) :
    S.Safe i (turnEnd env established f (.error e)) 0 (S.Done i) w := by
  cases established with
  | true =>
    exact (E.step (by simp [resetSteps])).1.safe_op E.rely h fun _ hd w₁ _ _ _ _ h₁ =>
      E.readerError _ he h₁
  | false => exact E.handshakeError e h

end Ending

/-- What a round of the reader is proved from when only RST_STREAM needs care: the reader keeps
`K none`, and `K (some x)` once it has found or registered the stream `x`. -/
structure Resetting (S : Spec (machine env) G γ) (i : Nat) (K : Option Nat → World → Prop) :
    Prop where
  rely : ∀ {s w w'}, S.rely i w w' → K s w → K s w'
  weaken : ∀ {x w}, K (some x) w → K none w
  step : ∀ {s β} {o : Op β}, o.tag ∉ resetSteps → S.Under i (K s) o ∧ S.Mild o
  found : ∀ {x w}, G.opOk i w (.lookup x) → x ∈ w.live → K none w → K (some x) w
  admitted : ∀ {x prio b w w'}, G.opOk i w (.admitClient x prio) →
    (b, w') ∈ Op.exec env i w (.admitClient x prio) → K none w → K none w' → K (some x) w'
  rst : ∀ x code, S.Keeps i (K (some x)) (writeServerRSTStream x code)
  push : ∀ x e, S.Keeps i (K (some x)) (push x e)
  frameDone : ∀ {w}, K none w → S.Safe i (.lift .frameDone) 0 (S.Done i) w
  stopReader : ∀ {w}, K none w → S.Safe i (.lift .stopReader) 0 (S.Done i) w

namespace Resetting

variable {S : Spec (machine env) G γ} {i : Nat} {K : Option Nat → World → Prop} {s : Option Nat}
  {x : Nat} {w : World}

variable (S i K) in
def Leads (s : Option Nat) (p : M α) : Prop :=
  ∀ w, K s w → S.Safe i p 0 (fun _ g w => g = 0 ∧ K none w) w

section Leads

variable (R : Resetting S i K)

include R

theorem weaken_all (h : K s w) : K none w := by
  cases s with
  | none => exact h
  | some x => exact R.weaken h

theorem uses {l : List Tag} {p : M α} (hp : Uses l p) (hl : ∀ t ∈ l, t ∉ resetSteps) :
    S.Keeps i (K s) p :=
  Spec.keeps_of_all R.rely (Prog.All.mono (fun _ ho => R.step (hl _ ho)) hp)

theorem leads_ret (a : α) : Leads S i K s (.ret a) :=
  fun _ h _ hw => ⟨rfl, R.weaken_all (R.rely hw h)⟩

theorem leads_op {o : Op β} {k : β → M α} (ho : o.tag ∉ resetSteps)
    (hk : ∀ b, Leads S i K s (k b)) : Leads S i K s (.op o k) :=
  fun _ h => (R.step ho).1.safe_op R.rely h fun _ b w₂ _ _ _ _ h₂ => hk b w₂ h₂

omit R in
theorem leads_bind {p : M α} {f : α → M β} (hp : S.Keeps i (K s) p)
    (hf : ∀ a, Leads S i K s (f a)) : Leads S i K s (p.bind f) := by
  refine fun w h => Spec.Safe.bind ((hp w h).mono ?_)
  rintro a _ w' ⟨rfl, h'⟩
  exact hf a w' h'

theorem leads_keeps {p : M α} (hp : S.Keeps i (K s) p) : Leads S i K s p :=
  fun w h => (hp w h).mono fun _ _ _ h => ⟨h.1, R.weaken_all h.2⟩

theorem leads_uses {l : List Tag} {p : M α} (hp : Uses l p) (hl : ∀ t ∈ l, t ∉ resetSteps) :
    Leads S i K s p := R.leads_keeps (R.uses hp hl)

theorem leads_lookup {k : Bool → M α} (hlive : Leads S i K (some x) (k true))
    (hgone : Leads S i K none (k false)) : Leads S i K none (.op (.lookup x) k) := by
  intro w h
  refine (R.step (by simp [resetSteps])).1.safe_op R.rely h fun w₁ b w₂ _ h₁ hok hb h₂ => ?_
  change (b, w₂) ∈ Op.exec env i w₁ (.lookup x) at hb
  obtain ⟨rfl, rfl⟩ := Lifecycle.lookup_exec hb
  by_cases hx : x ∈ w₂.live
  · simpa [hx] using hlive w₂ (R.found hok hx h₂)
  · simpa [hx] using hgone w₂ h₂

theorem leads_guard {k : M (Except GoErr Unit)} (hk : Leads S i K none k) :
    Leads S i K none (guardHeaderBlock k) := by
  refine R.leads_op (by simp [resetSteps]) fun h => ?_
  dsimp only [Prog.ret_bind]
  split
  · exact R.leads_ret _
  · exact hk

end Leads

section Callbacks

variable (R : Resetting S i K)

include R

theorem deliverEvent (x : Nat) (endStream : Bool) (e : StreamEvent) :
    Leads S i K (some x) (deliverEvent x endStream e) := by
  have hend (fullyClosed : Bool) : Leads S i K (some x) ((Conn.push x e).bind fun _ =>
      if fullyClosed then (markStreamDone x).bind fun _ => .ret (.ok () : Except GoErr Unit)
      else .ret (.ok ())) := by
    refine leads_bind (R.push x e) fun _ => ?_
    split
    · exact leads_bind (R.uses (markStreamDone_uses x) (by decide)) fun _ => R.leads_ret _
    · exact R.leads_ret _
  simp only [Conn.deliverEvent, markRemoteEnd, Prog.bind_eq, Prog.lift_bind, Prog.pure_eq]
  cases endStream with
  | false => exact hend false
  | true => exact R.leads_op (by simp [resetSteps]) fun before => hend _

theorem resetWith (x : Nat) (code : ErrCode) : Leads S i K (some x)
    ((writeServerRSTStream x code).bind fun _ => .ret (.ok () : Except GoErr Unit)) :=
  leads_bind (R.rst x code) fun _ => R.leads_ret _

theorem onData (x : Nat) (endStream : Bool) (length : Nat) (p : Bytes) :
    Leads S i K none (onData x endStream length p) := by
  have hreceived (s s' : Option Nat) : S.Keeps i (K s) (onDataReceived s' length) :=
    R.uses (onDataReceived_uses s' length) (by decide)
  have hstream : Leads S i K (some x) (onStreamData x endStream p) := by
    refine R.leads_op (by simp [resetSteps]) fun st => ?_
    dsimp only [Prog.ret_bind]
    split
    · exact R.resetWith x _
    · exact R.deliverEvent _ _ _
  simp only [Conn.onData, Prog.bind_eq, Prog.lift_bind, Prog.pure_eq]
  refine R.leads_guard ?_
  split
  · exact R.leads_ret _
  refine R.leads_op (by simp [resetSteps]) fun idle => ?_
  split
  · exact R.leads_ret _
  refine R.leads_lookup (leads_bind (hreceived _ _) fun r => ?_) (leads_bind (hreceived _ _) fun r => ?_)
  · cases r with
    | error e => exact R.leads_ret _
    | ok _ => exact hstream
  · cases r <;> exact R.leads_ret _

theorem respondFieldsTooLarge (x : Nat) : S.Keeps i (K s) (respondFieldsTooLarge env x) :=
  R.uses (respondFieldsTooLarge_uses env x) (by decide)

theorem emitHeaderBlock (x : Nat) (hb : Bytes) (endStream isTrailer : Bool) :
    Leads S i K (some x) (emitHeaderBlock env x hb endStream isTrailer) := by
  have hfields (fields) : Leads S i K (some x) (emitFields env x fields endStream isTrailer) := by
    unfold emitFields
    split
    · exact leads_bind (R.respondFieldsTooLarge x) fun _ => R.leads_ret _
    refine R.leads_op (by simp [resetSteps]) fun st => ?_
    dsimp only [Prog.ret_bind]
    split
    · exact R.resetWith x _
    split
    · exact R.resetWith x _
    · exact R.deliverEvent _ _ _
  refine R.leads_op (by simp [resetSteps]) fun h => R.leads_op (by simp [resetSteps]) fun _ =>
    R.leads_op (by simp [resetSteps]) fun r => ?_
  cases r with
  | error msg => exact R.leads_ret _
  | ok fields => exact hfields fields

theorem discardHeaderBlock (hb : Bytes) : Leads S i K s (discardHeaderBlock hb) :=
  R.leads_uses (discardHeaderBlock_uses hb) (by decide)

theorem onStreamHeaders (x : Nat) (endStream endHeaders : Bool) (hb : Bytes) (isNew refused : Bool) :
    Leads S i K (some x) (onStreamHeaders env x endStream endHeaders hb isNew refused) := by
  simp only [Conn.onStreamHeaders, Prog.bind_eq, Prog.lift_bind, Prog.pure_eq]
  split
  · split
    · exact leads_bind (R.respondFieldsTooLarge x) fun _ => R.leads_ret _
    · exact R.leads_op (by simp [resetSteps]) fun _ => R.leads_op (by simp [resetSteps]) fun _ =>
        R.leads_ret _
  split
  · exact R.discardHeaderBlock hb
  refine R.leads_op (by simp [resetSteps]) fun st => ?_
  split
  · exact R.leads_op (by simp [resetSteps]) fun _ => R.emitHeaderBlock _ _ _ _
  · exact R.emitHeaderBlock _ _ _ _

theorem registerStream (x : Nat) (prio : Option Priority) (h : K none w) :
    S.Safe i (registerStream x prio) 0 (fun _ g w => g = 0 ∧ K (some x) w) w := by
  have hrefuse : S.Keeps i (K (some x)) ((writeServerRSTStream x .refusedStream).bind fun _ =>
      .op (.cancelStream x) fun _ => .ret false) :=
    .bind (R.rst x _) fun _ => (R.step (by simp [resetSteps])).1.keeps R.rely fun _ =>
      Spec.keeps_ret R.rely _
  simp only [Conn.registerStream, Prog.bind_eq, Prog.lift_bind, Prog.pure_eq]
  refine (R.step (by simp [resetSteps])).1.safe_op R.rely h fun w₁ ok w₂ _ h₁ hok hb h₂ => ?_
  have h₂ := R.admitted hok hb h₁ h₂
  split
  · exact hrefuse w₂ h₂
  · refine (R.step (by simp [resetSteps])).1.safe_op R.rely h₂ fun _ queued w₃ _ _ _ _ h₃ => ?_
    split
    · exact Spec.keeps_ret R.rely _ w₃ h₃
    · exact hrefuse w₃ h₃

theorem onHeaders (x : Nat) (endStream endHeaders : Bool) (hb : Bytes) (prio : Option Priority) :
    Leads S i K none (onHeaders env x endStream endHeaders hb prio) := by
  simp only [Conn.onHeaders, Prog.bind_eq, Prog.lift_bind, Prog.pure_eq]
  refine R.leads_guard ?_
  split
  · exact R.leads_ret _
  refine R.leads_lookup (R.onStreamHeaders _ _ _ _ _ _) (R.leads_op (by simp [resetSteps]) fun r => ?_)
  cases r with
  | error e => exact R.leads_ret _
  | ok _ =>
    refine fun w h => Spec.Safe.bind ((R.registerStream x prio h).mono ?_)
    rintro ok _ w' ⟨rfl, h'⟩
    exact R.onStreamHeaders _ _ _ _ _ _ w' h'

theorem onContinuation (x : Nat) (endHeaders : Bool) (hb : Bytes) :
    Leads S i K none (onContinuation env x endHeaders hb) := by
  have hcomplete (h : Handler) (buf : Bytes) : Leads S i K none (onBlockComplete env x h buf) := by
    simp only [onBlockComplete, Prog.bind_eq, Prog.lift_bind]
    split
    · exact R.discardHeaderBlock buf
    refine R.leads_lookup ?_ (R.discardHeaderBlock buf)
    simp only [Bool.not_true, Bool.false_eq_true, if_false]
    split
    · exact R.leads_op (by simp [resetSteps]) fun _ => R.emitHeaderBlock _ _ _ _
    · exact R.emitHeaderBlock _ _ _ _
  simp only [Conn.onContinuation, Prog.bind_eq, Prog.lift_bind, Prog.pure_eq]
  refine R.leads_op (by simp [resetSteps]) fun h => ?_
  split
  · exact R.leads_ret _
  split
  · exact R.leads_ret _
  split
  · refine R.leads_op (by simp [resetSteps]) fun live => ?_
    split
    · exact leads_bind (R.respondFieldsTooLarge x) fun _ => R.leads_ret _
    · exact R.leads_ret _
  · refine R.leads_op (by simp [resetSteps]) fun _ => ?_
    split
    · exact R.leads_ret _
    · exact hcomplete _ _

theorem onClientRSTStream (rapid : Bool) : Leads S i K s (onClientRSTStream env rapid) :=
  R.leads_uses (onClientRSTStream_uses env rapid) (by decide)

theorem onRSTStream (x : Nat) (code : ErrCode) : Leads S i K none (onRSTStream env x code) := by
  simp only [Conn.onRSTStream, markRemoteEndReset, Prog.bind_eq, Prog.lift_bind, Prog.op_bind,
    Prog.pure_eq, Prog.ret_bind]
  refine R.leads_guard (R.leads_op (by simp [resetSteps]) fun idle => ?_)
  split
  · exact R.leads_ret _
  refine R.leads_lookup ?_ (R.onClientRSTStream _)
  refine R.leads_op (by simp [resetSteps]) fun before => leads_bind (R.push x _) fun _ => ?_
  exact leads_bind (R.uses (markStreamDone_uses x) (by decide)) fun _ => R.onClientRSTStream _

theorem onWindowUpdate (x increment : Nat) : Leads S i K none (onWindowUpdate x increment) := by
  simp only [Conn.onWindowUpdate, Prog.bind_eq, Prog.lift_bind, Prog.pure_eq]
  split
  · refine R.leads_uses (l := [.lockFc, .growConn, .fcWakeConn, .unlockFc]) ?_ (by decide)
    simp [onConnWindowUpdate]
  refine R.leads_op (by simp [resetSteps]) fun idle => ?_
  split
  · exact R.leads_ret _
  refine R.leads_lookup (R.leads_op (by simp [resetSteps]) fun grown => ?_) (R.leads_ret _)
  split
  · refine R.leads_uses (l := [.lockFc, .fcWakeStream, .unlockFc]) ?_ (by decide)
    simp
  · refine R.leads_op (by simp [resetSteps]) fun _ => leads_bind (R.push x _) fun _ => ?_
    exact R.resetWith x _

theorem dispatch (f : Inbound) : Leads S i K none (dispatch env f) := by
  cases f with
  | data => exact R.onData _ _ _ _
  | headers => exact R.onHeaders _ _ _ _ _
  | rstStream => exact R.onRSTStream _ _
  | windowUpdate => exact R.leads_guard (R.onWindowUpdate _ _)
  | continuation => exact R.onContinuation _ _ _
  | settings ack params => exact R.leads_uses (onSettings_uses ack params) (by decide)
  | ping ack payload => exact R.leads_uses (onPing_uses ack payload) (by decide)
  | priority | altSvc | origin => exact R.leads_guard (R.leads_ret _)
  | goAway => exact R.leads_guard (R.leads_op (by simp [resetSteps]) fun _ => R.leads_ret _)
  | pushPromise | unknown | rejected => exact R.leads_ret _

theorem seed : Leads S i K none (seed env) := by
  unfold Conn.seed
  split
  · refine fun w h => Spec.Safe.bind ((R.registerStream 1 none h).mono ?_)
    rintro ok _ w' ⟨rfl, h'⟩
    split
    · refine R.leads_op (by simp [resetSteps]) (fun _ => leads_bind (R.push 1 _) fun _ => ?_) w' h'
      exact R.leads_op (by simp [resetSteps]) fun _ => R.leads_ret _
    · exact R.leads_ret _ w' h'
  · exact R.leads_ret _

end Callbacks

section Round

variable (R : Resetting S i K)

include R

theorem ending : Ending S i (K none) where
  rely := R.rely
  step := R.step
  stopReader := R.stopReader

def Answered (S : Spec (machine env) G γ) (i : Nat) (K : Option Nat → World → Prop) (f : Inbound) :
    Prop :=
  ∀ ty x err code w, f = .rejected ty x err → (GoErr.codec err).streamCode = some code →
    K none w → w.idle x = false →
    S.Safe i (writeRSTStreamID x code) 0 (fun _ g w => g = 0 ∧ K none w) w

def Blameless (f : Inbound) (e : GoErr) : Prop :=
  f.streamID ≠ 0 → e.streamCode ≠ none → ∃ ty err, f = .rejected ty f.streamID err ∧ e = .codec err

theorem readerError {f : Inbound} (hf : Answered S i K f) (pending : Nat) {e : GoErr}
    (he : Blameless f e) (h : K none w) : S.Safe i (readerError f pending e) 0 (S.Done i) w := by
  simp only [Conn.readerError, Prog.bind_eq, Prog.lift_bind]
  split
  · exact R.ending.teardown _ h
  split
  · rename_i hpending
    refine (R.step (by simp [resetSteps])).1.safe_op R.rely h fun w₁ idle w₂ _ _ _ hb h₂ => ?_
    split
    · exact R.ending.teardown _ h₂
    split
    · rename_i hidle _ code hcode
      have hidle : w₂.idle f.streamID = false := by
        simp only [Op.exec, Op.underTable] at hb
        split at hb
        · cases List.mem_singleton.1 hb
          simpa using hidle
        · cases hb
      have hid : f.streamID ≠ 0 := by
        simp only [Bool.and_eq_true, bne_iff_ne] at hpending
        exact hpending.2
      obtain ⟨ty, err, hty, rfl⟩ := he hid (by simp [hcode])
      refine Spec.Safe.bind ((hf ty f.streamID err code w₂ hty hcode h₂ hidle).mono ?_)
      rintro _ _ w₃ ⟨rfl, h₃⟩
      exact R.frameDone h₃
    · exact R.ending.teardown _ h₂
  · exact R.ending.teardown _ h

theorem readerEnd {f : Inbound} (hf : Answered S i K f) {r : Except GoErr Unit}
    (hr : ∀ e, r = .error e → Blameless f e) (h : K none w) :
    S.Safe i (readerEnd f r) 0 (S.Done i) w := by
  refine (R.step (by simp [resetSteps])).1.safe_op R.rely h fun _ hd w₁ _ _ _ _ h₁ => ?_
  cases r with
  | ok _ =>
    dsimp only [Prog.ret_bind]
    split
    · exact R.readerError hf _ (fun _ he => absurd rfl he) h₁
    · exact R.frameDone h₁
  | error e => exact R.readerError hf _ (hr e rfl) h₁

theorem handshakeEnd (r : Except GoErr Unit) (h : K none w) :
    S.Safe i (handshakeEnd env r) 0 (S.Done i) w := by
  cases r with
  | error e => exact R.ending.handshakeError e h
  | ok _ =>
    refine (R.step (by simp [resetSteps])).1.safe_op R.rely h fun _ rec w₁ _ _ _ _ h₁ => ?_
    dsimp only [Prog.ret_bind]
    split
    · refine Spec.Safe.bind ((R.uses sendInitialConnWindowUpdate_uses (by decide) w₁ h₁).mono ?_)
      rintro r _ w₂ ⟨rfl, h₂⟩
      cases r with
      | error e => exact R.ending.abortHandshake h₂
      | ok _ =>
        refine Spec.Safe.bind ((R.seed w₂ h₂).mono ?_)
        rintro _ _ w₃ ⟨rfl, h₃⟩
        refine (R.step (by simp [resetSteps])).1.safe_op R.rely h₃ fun _ _ w₄ _ _ _ _ h₄ => ?_
        exact R.frameDone h₄
    · exact R.frameDone h₁

theorem turnEnd {f : Inbound} (hf : Answered S i K f) (established : Bool)
    {r : Except GoErr Unit} (hr : ∀ e, r = .error e → Blameless f e) (h : K none w) :
    S.Safe i (turnEnd env established f r) 0 (S.Done i) w := by
  cases established with
  | true => exact R.readerEnd hf hr h
  | false => exact R.handshakeEnd r h

theorem dispatch_blameless (f : Inbound) (h : K none w) : S.Safe i (Conn.dispatch env f) 0
    (fun r g w => (g = 0 ∧ K none w) ∧ ∀ e, r = .error e → Blameless f e) w := by
  have hsafe := R.dispatch f w h
  by_cases hrej : ∃ ty x err, f = .rejected ty x err
  · obtain ⟨ty, x, err, rfl⟩ := hrej
    refine fun w' hw => ⟨⟨rfl, R.rely hw h⟩, fun e he _ _ => ?_⟩
    cases he
    exact ⟨ty, err, rfl, rfl⟩
  by_cases hid : f.streamID = 0
  · exact hsafe.mono fun _ _ _ h => ⟨h, fun _ _ hne => absurd hid hne⟩
  · have hsober := dispatch_sober env hid fun ty x err h => hrej ⟨ty, x, err, h⟩
    refine (hsafe.returns answers_of_exec hsober).mono fun r _ _ h => ⟨h.1, fun e he _ hcode => ?_⟩
    exact absurd (h.2 e he) hcode

theorem round {f : Inbound} (hf : Answered S i K f) (h : K none w) :
    S.Safe i (.op .isEstablished fun established =>
      if established then readerStep env f else handshakeStep env f) 0 (S.Done i) w := by
  refine (R.step (by simp [resetSteps])).1.safe_op R.rely h fun _ established w₁ _ _ _ _ h₁ => ?_
  split
  · rw [readerStep_eq]
    refine Spec.Safe.bind ((R.dispatch_blameless f h₁).mono ?_)
    rintro r _ w₂ ⟨⟨rfl, h₂⟩, hr⟩
    exact R.turnEnd hf true hr h₂
  · have hdispatch : Leads S i K none (recorderDispatch env f) := by
      unfold recorderDispatch
      split
      · exact R.leads_uses (recorderSettings_uses _ _) (by decide)
      · exact R.dispatch f
    rw [handshakeStep_eq]
    refine Spec.Safe.bind ((hdispatch w₁ h₁).mono ?_)
    rintro r _ w₂ ⟨rfl, h₂⟩
    exact R.handshakeEnd r h₂

end Round

end Resetting

end PoseidonServer.Conn
