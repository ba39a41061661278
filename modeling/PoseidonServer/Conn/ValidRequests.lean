import PoseidonServer.Conn.Frame
import PoseidonServer.HttpFields.Sections

/-! Whatever a client sends, the field sections that reach the application have the form of a
request, or of the trailers that end one. -/

namespace PoseidonServer.Conn

open Concurrent HttpFields

/-- The request of an h2c upgrade was checked when it was HTTP/1.1. -/
def EventForm (env : Env) (x : Nat) : StreamEvent → Prop
  | .headers fields _ => RequestSection fields ∨ (x = 1 ∧ env.cfg.upgradedRequest = some fields)
  | .trailers fields endStream => endStream = true ∧ TrailerSection fields
  | .data .. | .reset _ => True

@[simp] def Op.form (env : Env) : Op β → Prop
  | .trySend x e => EventForm env x e
  | _ => True

def Forms (env : Env) (p : M α) : Prop := p.All fun o => o.form env

variable {env : Env} {x : Nat} {e : StreamEvent} {fields : List HeaderField}

@[simp] theorem forms_ret (a : α) : Forms env (.ret a) := trivial

@[simp] theorem forms_op (o : Op α) (k : α → M β) :
    Forms env (.op o k) ↔ o.form env ∧ ∀ a, Forms env (k a) := Iff.rfl

@[simp] theorem forms_lift (o : Op α) : Forms env (.lift o) ↔ o.form env := by
  simp [Forms]

@[simp] theorem forms_fork (p : M Unit) (k : M α) :
    Forms env (.fork p k) ↔ Forms env p ∧ Forms env k := Iff.rfl

@[simp] theorem forms_ite (c : Prop) [Decidable c] (p q : M α) :
    Forms env (if c then p else q) ↔ (c → Forms env p) ∧ (¬c → Forms env q) := by
  split <;> simp [*]

theorem Forms.bind {p : M α} {f : α → M β} (hp : Forms env p) (hf : ∀ a, Forms env (f a)) :
    Forms env (p.bind f) := Prog.All.bind hp hf

theorem forms_of_within {p : M α} (hp : Within (· ≠ .queue) p) : Forms env p := by
  refine Prog.All.mono (fun o ho => ?_) hp
  cases o <;> first
    | exact absurd rfl ho
    | trivial

theorem ownedCopy_owned (fields : List HeaderField) : Owned (ownedCopy fields) := by
  simp [Owned, ownedCopy, HeaderField.val]

theorem forall_ownedCopy {p : Bytes → Bytes → Prop} :
    (∀ f ∈ ownedCopy fields, p f.name f.val) ↔ ∀ f ∈ fields, p f.name f.val := by
  simp [ownedCopy, HeaderField.val]

theorem request_of_not_malformed {endStream : Bool}
    (h : malformedSection fields endStream false = false) : RequestSection (ownedCopy fields) := by
  rw [← requestSection_iff (ownedCopy_owned fields),
    forall_ownedCopy (p := fun n v => prohibited n v false = false)]
  simpa [malformedSection] using h

theorem trailers_of_not_malformed {endStream : Bool}
    (h : malformedSection fields endStream true = false) :
    endStream = true ∧ TrailerSection (ownedCopy fields) := by
  rw [← trailerSection_iff, forall_ownedCopy (p := fun n v => prohibited n v true = false)]
  simpa [malformedSection, and_comm] using h

theorem push_forms (h : EventForm env x e) : Forms env (push x e) := by
  have hrst : Forms env (writeServerRSTStream x .internalError) :=
    forms_of_within ((writeServerRSTStream_uses _ _).within (by decide))
  have hreset : EventForm env x (.reset .internalError) := trivial
  simp [push, Forms.bind, hrst, h, hreset]

theorem deliverEvent_forms {endStream : Bool} (h : EventForm env x e) :
    Forms env (deliverEvent x endStream e) := by
  have hdone : Forms env (markStreamDone x) := forms_of_within ((markStreamDone_uses x).within (by decide))
  cases endStream <;> simp [deliverEvent, markRemoteEnd, Forms.bind, push_forms h, hdone]

theorem onData_forms {endStream : Bool} {length : Nat} {p : Bytes} :
    Forms env (onData x endStream length p) := by
  have hrecv (s) : Forms env (onDataReceived s length) :=
    forms_of_within ((onDataReceived_uses ..).within (by decide))
  have hrst : Forms env (writeServerRSTStream x .streamClosed) :=
    forms_of_within ((writeServerRSTStream_uses _ _).within (by decide))
  have hdeliver : Forms env (deliverEvent x endStream (.data p endStream)) := deliverEvent_forms trivial
  simp [onData, guardHeaderBlock, onStreamData, Forms.bind, forall_except, hrecv, hrst, hdeliver]

theorem emitFields_forms (fields : List HeaderField) (endStream isTrailer : Bool) :
    Forms env (emitFields env x fields endStream isTrailer) := by
  have hrst (code) : Forms env (writeServerRSTStream x code) :=
    forms_of_within ((writeServerRSTStream_uses _ _).within (by decide))
  have hlarge : Forms env (respondFieldsTooLarge env x) :=
    forms_of_within ((respondFieldsTooLarge_uses ..).within (by decide))
  simp only [emitFields, Prog.bind_eq, Prog.lift_bind, Prog.pure_eq, forms_ite, forms_op]
  refine ⟨fun _ => hlarge.bind (by simp), fun _ => ⟨by simp, fun st => ?_⟩⟩
  refine ⟨fun _ => (hrst _).bind (by simp), fun _ => ⟨fun _ => (hrst _).bind (by simp), fun hm => ?_⟩⟩
  refine deliverEvent_forms ?_
  cases isTrailer with
  | false => exact .inl (request_of_not_malformed (by simpa using hm))
  | true => exact trailers_of_not_malformed (by simpa using hm)

theorem emitHeaderBlock_forms (hb : Bytes) (endStream isTrailer : Bool) :
    Forms env (emitHeaderBlock env x hb endStream isTrailer) := by
  simp [emitHeaderBlock, forall_except, emitFields_forms]

theorem discardHeaderBlock_forms (hb : Bytes) : Forms env (discardHeaderBlock hb) :=
  forms_of_within ((discardHeaderBlock_uses hb).within (by decide))

theorem onStreamHeaders_forms (endStream endHeaders : Bool) (hb : Bytes) (isNew refused : Bool) :
    Forms env (onStreamHeaders env x endStream endHeaders hb isNew refused) := by
  have hlarge : Forms env (respondFieldsTooLarge env x) :=
    forms_of_within ((respondFieldsTooLarge_uses ..).within (by decide))
  simp [onStreamHeaders, Forms.bind, hlarge, discardHeaderBlock_forms, emitHeaderBlock_forms]

theorem onHeaders_forms (endStream endHeaders : Bool) (hb : Bytes) (prio : Option Priority) :
    Forms env (onHeaders env x endStream endHeaders hb prio) := by
  have hregister : Forms env (registerStream x prio) :=
    forms_of_within ((registerStream_uses ..).within (by decide))
  simp [onHeaders, guardHeaderBlock, Forms.bind, forall_except, hregister, onStreamHeaders_forms]

theorem onContinuation_forms (endHeaders : Bool) (hb : Bytes) :
    Forms env (onContinuation env x endHeaders hb) := by
  have hlarge : Forms env (respondFieldsTooLarge env x) :=
    forms_of_within ((respondFieldsTooLarge_uses ..).within (by decide))
  simp [onContinuation, onBlockComplete, Forms.bind, hlarge, discardHeaderBlock_forms,
    emitHeaderBlock_forms]

theorem onRSTStream_forms (code : ErrCode) : Forms env (onRSTStream env x code) := by
  have hpush : Forms env (push x (.reset code)) := push_forms trivial
  have hdone : Forms env (markStreamDone x) := forms_of_within ((markStreamDone_uses x).within (by decide))
  have hrapid (rapid) : Forms env (onClientRSTStream env rapid) :=
    forms_of_within ((onClientRSTStream_uses ..).within (by decide))
  simp [onRSTStream, guardHeaderBlock, markRemoteEndReset, Forms.bind, hpush, hdone, hrapid]

theorem onWindowUpdate_forms (increment : Nat) : Forms env (onWindowUpdate x increment) := by
  have hpush : Forms env (push x (.reset .flowControlError)) := push_forms trivial
  have hrst : Forms env (writeServerRSTStream x .flowControlError) :=
    forms_of_within ((writeServerRSTStream_uses _ _).within (by decide))
  simp [onWindowUpdate, onConnWindowUpdate, Forms.bind, hpush, hrst]

theorem dispatch_forms (f : Inbound) : Forms env (dispatch env f) := by
  cases f with
  | data => exact onData_forms
  | headers => exact onHeaders_forms ..
  | continuation => exact onContinuation_forms ..
  | rstStream => exact onRSTStream_forms _
  | windowUpdate => simp [dispatch, guardHeaderBlock, onWindowUpdate_forms]
  | settings => exact forms_of_within ((onSettings_uses ..).within (by decide))
  | ping => exact forms_of_within ((onPing_uses ..).within (by decide))
  | priority | altSvc | origin | pushPromise | goAway | unknown | rejected =>
    simp [dispatch, guardHeaderBlock]

theorem shutdownStreams_forms : Forms env shutdownStreams := by
  have heach (xs) : Forms env (shutdownEach xs) := by
    induction xs with
    | nil => simp [shutdownEach]
    | cons x xs ih => simp [shutdownEach, EventForm, ih]
  simp [shutdownStreams, heach]

theorem teardown_forms (code : Option ErrCode) : Forms env (teardown code) := by
  have hannounce : Forms env (announce code) := forms_of_within (announce_within (by simp) code)
  simp [teardown, Forms.bind, hannounce, shutdownStreams_forms]

theorem readerStep_forms (f : Inbound) : Forms env (readerStep env f) := by
  have herror (pending e) : Forms env (readerError f pending e) := by
    have hrst (code) : Forms env (writeRSTStreamID f.streamID code) :=
      forms_of_within ((writeRSTStreamID_uses ..).within (by decide))
    cases hcode : e.streamCode <;> simp [readerError, Forms.bind, teardown_forms, hrst, hcode]
  simp [readerStep, Forms.bind, forall_except, dispatch_forms, herror]

theorem abortHandshake_forms : Forms env abortHandshake := by
  simp [abortHandshake, Forms.bind, shutdownStreams_forms]

theorem finishHandshake_forms : Forms env (finishHandshake env) := by
  have hwindow : Forms env sendInitialConnWindowUpdate :=
    forms_of_within (sendInitialConnWindowUpdate_uses.within (by decide))
  have hseed : Forms env (seed env) := by
    have hregister : Forms env (registerStream 1 none) :=
      forms_of_within ((registerStream_uses ..).within (by decide))
    unfold seed
    split
    · rename_i headers hup
      have hpush : Forms env (push 1 (.headers headers true)) := push_forms (.inr ⟨rfl, hup⟩)
      simp [seedUpgradedStream, markRemoteEnd, Forms.bind, hregister, hpush]
    · simp
  simp [finishHandshake, Forms.bind, forall_except, hwindow, hseed, abortHandshake_forms]

theorem handshakeStep_forms (f : Inbound) : Forms env (handshakeStep env f) := by
  have hrecorder : Forms env (recorderDispatch env f) := by
    unfold recorderDispatch
    split
    · exact forms_of_within ((recorderSettings_uses ..).within (by decide))
    · exact dispatch_forms _
  have hgoaway (e) : Forms env (handshakeGoAway e) := by
    have hsend (code) : Forms env (sendGoAway code) :=
      forms_of_within ((sendGoAway_uses code).within (by decide))
    cases e <;> simp [handshakeGoAway, hsend]
  simp [handshakeStep, handshakeError, Forms.bind, forall_except, hrecorder, hgoaway,
    abortHandshake_forms, finishHandshake_forms]

theorem Call.body_forms (q : Call) : Forms env (q.body env) := by
  by_cases hq : ∃ f, q = .frame f
  · obtain ⟨f, rfl⟩ := hq
    simp [body, serveFrame, readerStep_forms, handshakeStep_forms]
  · exact forms_of_within (body_within (by decide) env (fun f h => hq ⟨f, h⟩) (.inl (by decide)))

def World.pushed (w : World) (x : Nat) (e : StreamEvent) : Prop :=
  ∃ s, w.str x = some s ∧ (e ∈ s.events ∨ e ∈ s.recvd)

variable {i : Nat} {w w' : World}

theorem pushed_setStr {y : Nat} {s : Stream} (h : (w.setStr x s).pushed y e) :
    w.pushed y e ∨ y = x ∧ (e ∈ s.events ∨ e ∈ s.recvd) := by
  obtain ⟨t, ht, he⟩ := h
  by_cases hy : y = x
  · subst hy
    simp only [World.setStr, Function.update_self, Option.some.injEq] at ht
    subst ht
    exact .inr ⟨rfl, he⟩
  · simp only [World.setStr, Function.update_of_ne hy] at ht
    exact .inl ⟨t, ht, he⟩

theorem pushed_upd {y : Nat} {g : Stream → Stream} (h : (w.upd x g).pushed y e)
    (hg : ∀ s, (g s).events = s.events ∧ (g s).recvd = s.recvd) : w.pushed y e := by
  unfold World.upd at h
  split at h
  · rename_i s hs
    obtain h | ⟨rfl, he⟩ := pushed_setStr h
    · exact h
    · rw [(hg s).1, (hg s).2] at he
      exact ⟨s, hs, he⟩
  · exact h

theorem pushed_dequeue {y : Nat} {e' : StreamEvent} (hd : w.dequeue i x = some (e', w'))
    (h : w'.pushed y e) : w.pushed y e := by
  unfold World.dequeue at hd
  split at hd
  · cases hd
  rename_i s hs
  split at hd <;> cases hd
  rename_i es hes
  obtain h | ⟨rfl, he⟩ := pushed_setStr (w := w) h
  · exact h
  · refine ⟨s, hs, ?_⟩
    simp only [List.mem_append, hes, List.mem_cons] at he ⊢
    tauto

theorem pushed_exec {o : Op β} {b : β} (hb : (b, w') ∈ o.exec env i w) (h : w'.pushed x e) :
    w.pushed x e ∨ (o.form env → EventForm env x e) := by
  by_cases hk : o.kind ∉ [.register, .reserve, .queue, .recv]
  · have hq := (frame_of_exec hb).queue hk x
    obtain ⟨s', hs', he⟩ := h
    rw [hs'] at hq
    obtain ⟨s, hs, hv⟩ := Option.map_eq_some_iff.1 hq.symm
    simp only [Stream.queueView, Prod.mk.injEq] at hv
    refine .inl ⟨s, hs, ?_⟩
    rwa [hv.1, hv.2.2.2.1]
  · cases o
    case advance delta => exact absurd (delta.kind_notMem (by simp)) hk
    case write f => exact absurd (f.kind_notMem (by simp)) hk
    case admitClient y prio =>
      simp only [Op.exec, Op.underTable, World.admitClient] at hb
      split at hb
      · split at hb <;> cases List.mem_singleton.1 hb <;>
          exact (pushed_setStr (w := w) h).imp_right fun he => by simp at he
      · cases hb
    case reservePush limit =>
      simp only [Op.exec, Op.underTable, World.reservePush] at hb
      split at hb
      · split at hb <;> cases List.mem_singleton.1 hb
        · exact .inl h
        · exact (pushed_setStr (w := w) h).imp_right fun he => by simp at he
      · cases hb
    case trySend y e' =>
      cases hs : w.str y with
      | none =>
        simp only [Op.exec, World.trySend, hs, List.mem_singleton] at hb
        cases hb
        exact .inl h
      | some s =>
        simp only [Op.exec, World.trySend, hs, List.mem_singleton] at hb
        split at hb <;> cases hb <;> obtain h | ⟨rfl, he⟩ := pushed_setStr (w := w) h
        · exact .inl h
        · simp only [List.mem_append, List.mem_singleton] at he
          obtain (he | rfl) | he := he
          · exact .inl ⟨s, hs, .inl he⟩
          · exact .inr id
          · exact .inl ⟨s, hs, .inr he⟩
        · exact .inl h
        · exact .inl ⟨s, hs, he⟩
    case closeEvents y =>
      cases List.mem_singleton.1 hb
      exact .inl (pushed_upd h fun _ => ⟨rfl, rfl⟩)
    case recvReturn y =>
      cases List.mem_singleton.1 hb
      exact .inl (pushed_upd h fun _ => ⟨rfl, rfl⟩)
    case tryRecv y =>
      simp only [Op.exec] at hb
      split at hb <;> cases List.mem_singleton.1 hb
      · exact .inl (pushed_dequeue ‹_› h)
      · exact .inl h
    case awaitRecv y ctx =>
      simp only [Op.exec, List.mem_append] at hb
      obtain hb | hb := hb <;> split at hb
      · cases List.mem_singleton.1 hb
        exact .inl (pushed_dequeue ‹_› h)
      · split at hb
        · cases List.mem_singleton.1 hb
          exact .inl h
        · cases hb
      · cases List.mem_singleton.1 hb
        exact .inl h
      · cases hb
    case creditRecv y n =>
      cases hs : w.str y with
      | none =>
        simp only [Op.exec, World.creditRecv, hs, List.mem_singleton] at hb
        cases hb
        exact .inl h
      | some s =>
        simp only [Op.exec, World.creditRecv, hs, List.mem_singleton] at hb
        split at hb <;> cases hb <;> obtain h | ⟨rfl, he⟩ := pushed_setStr (w := w.handOn i y n) h <;>
          first
          | exact .inl h
          | exact .inl ⟨s, hs, he⟩
    all_goals exact absurd (by simp) hk

namespace ValidRequests

def spec (env : Env) : Spec (machine env) anyCall PUnit where
  inv w _ := ∀ x e, w.pushed x e → EventForm env x e
  rely _ _ _ := True
  rely_refl _ _ := trivial
  rely_trans _ _ := trivial

theorem harmless {o : Op β} (ho : o.form env) : (spec env).Harmless o := by
  refine fun i w r hinv _ => ⟨trivial, fun b w' hb => ⟨fun x e h => ?_, fun _ => trivial⟩⟩
  exact (pushed_exec hb h).elim (hinv x e) fun h => h ho

theorem verifies : (spec env).Verifies (Call.body env) := by
  intro q i w _ _ _
  refine Spec.safe_of_all ?_ fun _ _ _ => ⟨rfl, trivial⟩
  exact Prog.All.mono (fun o ho => harmless ho) q.body_forms

end ValidRequests

/-- Every field section that is queued for the application or has been received by it is a
well-formed request, or well-formed trailers that end the stream. -/
theorem pushed_sections_are_valid {c : Config Op World} (hc : Reach env anyCall c)
    (hx : c.shared.pushed x e) : EventForm env x e := by
  have hinit : (ValidRequests.spec env).inv (World.init env) 0 := by
    rintro x e ⟨s, hs, -⟩
    cases hs
  obtain ⟨_, hinv⟩ := Spec.inv_of_reachable hinit (fun _ => trivial) ValidRequests.verifies hc
  exact hinv x e hx

def oneRequest : List (Event Call) :=
  Config.inTurn 0 (handshake ++ [(.frame (.headers 1 true true [1] none), 16)])

def targetFields (method scheme path : String) : List HeaderField :=
  [⟨ascii ":method", some (ascii method), .incremental⟩,
    ⟨ascii ":scheme", some (ascii scheme), .incremental⟩,
    ⟨ascii ":path", some (ascii path), .incremental⟩]

def requestsWith (method scheme path : String) : Env where
  opts := {}
  decode _ _ := .ok (targetFields method scheme path)

theorem pushed_of_run {env : Env} {fields : List HeaderField}
    (h : (anyRun.run (machine env) (Call.body env) ⟨World.init env, []⟩ oneRequest).any (fun c =>
      (c.shared.str 1).any fun s => s.events = [.headers fields true]) = true) :
    ∃ c, Reach env anyCall c ∧ c.shared.pushed 1 (.headers fields true) := by
  obtain ⟨c, hc, h⟩ := exists_reach_of_run env oneRequest h
  obtain ⟨s, hs, h⟩ := (Option.any_eq_true _ _).1 h
  exact ⟨c, hc, s, hs, .inl (of_decide_eq_true h ▸ List.mem_singleton_self _)⟩

theorem pushed_sections_are_valid_of_oneRequest :
    ∃ c, Reach (requestsWith "GET" "https" "/") anyCall c ∧
      c.shared.pushed 1 (.headers (targetFields "GET" "https" "/") true) ∧
      RequestSection (targetFields "GET" "https" "/") := by
  obtain ⟨c, hc, hpushed⟩ : ∃ c, Reach (requestsWith "GET" "https" "/") anyCall c ∧
      c.shared.pushed 1 (.headers (targetFields "GET" "https" "/") true) :=
    pushed_of_run (by decide +kernel)
  refine ⟨c, hc, hpushed, (pushed_sections_are_valid hc hpushed).resolve_right ?_⟩
  rintro ⟨-, hup⟩
  cases hup

/-- Method and scheme may be empty, and a CONNECT request may have a scheme and a path. -/
theorem pushed_with_empty_method :
    (∃ c, Reach (requestsWith "" "" "") anyCall c ∧
      c.shared.pushed 1 (.headers (targetFields "" "" "") true)) ∧
    ∃ c, Reach (requestsWith "CONNECT" "https" "/") anyCall c ∧
      c.shared.pushed 1 (.headers (targetFields "CONNECT" "https" "/") true) :=
  ⟨pushed_of_run (by decide +kernel), pushed_of_run (by decide +kernel)⟩

end PoseidonServer.Conn
