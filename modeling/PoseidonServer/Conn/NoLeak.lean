import Mathlib.Algebra.Group.Pi.Basic
import PoseidonServer.Conn.Table

/-! Whoever closes a stream releases it: the goroutine whose step makes a stream terminal owes
its release, and nobody returns while owing one. -/

namespace PoseidonServer.Conn

open Concurrent

namespace NoLeak

def spec (env : Env) (G : Guard Op World Call) : Spec (machine env) (tabled env G) (Nat → Nat) where
  inv w g := ∀ x ∈ w.live, (w.state x).terminal = true → 0 < g x
  rely _ _ _ := True
  rely_refl _ _ := trivial
  rely_trans _ _ := trivial

variable {env : Env} {G : Guard Op World Call} {i : Nat} {w w' : World}

def Only (x : Nat) (g : Nat → Nat) : Prop := ∀ y, y ≠ x → g y = 0

theorem Only.zero (x : Nat) : Only x 0 := fun _ _ => rfl

theorem Only.add {x : Nat} {g g' : Nat → Nat} (h : Only x g) (h' : Only x g') :
    Only x (g + g') := fun y hy => by simp [h y hy, h' y hy]

theorem terminal_of_exec {o : Op β} {b : β} (ho : o.kind ∉ [.advance, .advanceRecv])
    (hb : (b, w') ∈ o.exec env i w) {x : Nat} (hx : x ∈ w'.live)
    (ht : (w'.state x).terminal = true) : x ∈ w.live ∧ (w.state x).terminal = true := by
  have hf := frame_of_exec hb
  have hsame (hk : o.kind ∉ [.register, .reserve, .release, .drain]) :
      x ∈ w.live ∧ (w.state x).terminal = true := by
    generalize o.kind = k at hf ho hk
    have hlive := hf.table hk
    simp only [World.tableView, Prod.mk.injEq] at hlive
    rw [hlive.1] at hx
    rw [hf.state_eq (by simp_all)] at ht
    exact ⟨hx, ht⟩
  cases o
  case advance x delta => exact absurd delta.kind_mem ho
  case write f => exact hsame (f.kind_notMem (by simp))
  case admitClient y prio =>
    simp only [Op.exec, Op.underTable, World.admitClient] at hb
    split at hb
    · split at hb <;> cases List.mem_singleton.1 hb
      · by_cases hy : x = y
        · subst hy
          simp [World.state, World.setStr, StreamState.terminal] at ht
        · simp_all [World.state, World.setStr]
      · by_cases hy : x = y
        · subst hy
          simp [World.state, World.setStr, StreamState.terminal] at ht
        · simp_all [World.state, World.setStr]
    · cases hb
  case reservePush limit =>
    simp only [Op.exec, Op.underTable, World.reservePush] at hb
    split at hb
    · split at hb <;> cases List.mem_singleton.1 hb
      · exact ⟨hx, ht⟩
      · by_cases hy : x = w.nextPush
        · subst hy
          simp [World.state, World.setStr, StreamState.terminal] at ht
        · simp_all [World.state, World.setStr]
    · cases hb
  case release y =>
    rw [hf.state_eq (by simp)] at ht
    simp only [Op.exec, Op.underTable, World.release] at hb
    split at hb
    · split at hb <;> cases List.mem_singleton.1 hb
      · exact ⟨List.mem_of_mem_erase hx, ht⟩
      · exact ⟨hx, ht⟩
    · cases hb
  case drain =>
    simp only [Op.exec] at hb
    split at hb
    · obtain ⟨l, -, hl⟩ := List.mem_map.1 hb
      cases hl
      cases hx
    · cases hb
  all_goals exact hsame (by simp)

theorem harmless {o : Op β} (ho : o.kind ∉ [.advance, .advanceRecv]) :
    (spec env G).Harmless o := by
  refine fun i w r h _ => ⟨trivial, fun b w' hb => ⟨fun x hx ht => ?_, fun _ => trivial⟩⟩
  obtain ⟨hx, ht⟩ := terminal_of_exec ho hb hx ht
  exact h x hx ht

def Paid (_ : α) (g : Nat → Nat) (_ : World) : Prop := g = 0

section Ops

variable {Q : α → (Nat → Nat) → World → Prop} {g : Nat → Nat}

theorem safe_op {o : Op β} {k : β → M α} (ho : o.kind ∉ [.advance, .advanceRecv])
    (hk : ∀ b w', (spec env G).Safe i (k b) g Q w') : (spec env G).Safe i (.op o k) g Q w :=
  (harmless ho).safe_op fun _ b w' _ _ _ _ _ => hk b w'

theorem safe_within {p : M α} (hp : Within (· ∉ [.advance, .advanceRecv]) p)
    (hQ : ∀ a w', Q a g w') : (spec env G).Safe i p g Q w :=
  Spec.safe_of_all (hp.mono fun _ ho => harmless ho) fun a w' _ => hQ a w'

theorem safe_advance {x : Nat} {delta : StreamState} {k : StreamState → M α}
    (hk : ∀ before d w', Only x d →
      (d ≠ 0 → before.terminal = false ∧ (before.union delta).terminal = true) →
      (spec env G).Safe i (k before) (d + g) Q w') :
    (spec env G).Safe i (.op (.advance x delta) k) g Q w := by
  refine fun w₁ _ _ _ => ⟨trivial, fun before w₂ hb => ?_⟩
  cases List.mem_singleton.1 hb
  have hlive : (w₁.upd x fun s => { s with st := s.st.union delta }).live = w₁.live := by
    rw [World.upd_eq]
  by_cases hnew : (w₁.state x).terminal = false ∧ ((w₁.state x).union delta).terminal = true
  · refine ⟨Pi.single x 1 + g, fun r h y hy ht => ?_, fun _ _ => trivial, hk _ _ _ ?_ fun _ => hnew⟩
    · by_cases hyx : y = x
      · subst hyx
        simp only [Pi.add_apply, Pi.single_eq_same]
        omega
      · rw [hlive] at hy
        simp only [state_advance, hyx, false_and, if_false] at ht
        simpa [hyx] using h y hy ht
    · exact fun y hy => Pi.single_eq_of_ne hy 1
  · refine ⟨g, fun r h y hy ht => ?_, fun _ _ => trivial, ?_⟩
    · rw [hlive] at hy
      rw [state_advance] at ht
      split at ht
      · rename_i hyx
        obtain ⟨rfl, -⟩ := hyx
        refine h y hy ?_
        by_contra hterm
        exact hnew ⟨by simpa using hterm, ht⟩
      · exact h y hy ht
    · simpa using hk _ 0 _ (.zero x) (fun h => absurd rfl h)

theorem markStreamDone_safe {x : Nat} (hg : Only x g) :
    (spec env G).Safe i (markStreamDone x) g Paid w := by
  refine fun w₁ _ _ hok => ⟨trivial, fun b w₂ hb => ⟨0, fun r h y hy ht => ?_, fun _ _ => trivial, ?_⟩⟩
  · change (b, w₂) ∈ Op.exec env i w₁ (.release x) at hb
    have hyx : y ≠ x := by
      rintro rfl
      simp only [Op.exec, Op.underTable, World.release] at hb
      split at hb
      · split at hb <;> cases List.mem_singleton.1 hb
        · exact (tabled_table hok).nodup.not_mem_erase hy
        · exact absurd hy ‹_›
      · cases hb
    obtain ⟨hy, ht⟩ := terminal_of_exec (by simp) hb hy ht
    simpa [hg y hyx] using h y hy ht
  · cases b with
    | true => exact safe_op (by simp) fun _ _ _ _ => rfl
    | false => exact fun _ _ => rfl

theorem safe_paid {p : M β} {k : β → M α} (hp : (spec env G).Safe i p g Paid w)
    (hk : ∀ b w', (spec env G).Safe i (k b) 0 Q w') : (spec env G).Safe i (p.bind k) g Q w := by
  refine Spec.Safe.bind (hp.mono ?_)
  rintro b _ w' rfl
  exact hk b w'

end Ops

theorem writeServerRSTStream_safe {x : Nat} {g : Nat → Nat} (hg : Only x g) (code : ErrCode) :
    (spec env G).Safe i (writeServerRSTStream x code) g Paid w := by
  simp only [writeServerRSTStream, Prog.bind_eq, Prog.lift_bind, Prog.pure_eq]
  refine safe_advance fun before d w₁ hd _ => ?_
  refine safe_op (by simp) fun closed w₂ => ?_
  split
  · exact safe_paid (markStreamDone_safe (hd.add hg)) fun _ _ _ _ => rfl
  · refine safe_op (by simp) fun _ w₃ => safe_op (by simp) fun ok w₄ => ?_
    refine safe_paid (markStreamDone_safe (hd.add hg)) fun _ w₅ => ?_
    exact safe_op (by simp) fun _ w₆ _ _ => rfl

theorem push_safe {g : Nat → Nat} (x : Nat) (e : StreamEvent) :
    (spec env G).Safe i (push x e) g (fun _ g' _ => g' = g) w := by
  simp only [push, Prog.bind_eq, Prog.lift_bind, Prog.pure_eq]
  refine safe_op (by simp) fun sent w₁ => ?_
  split
  · exact fun _ _ => rfl
  refine safe_advance fun before d w₂ hd hnew => ?_
  split
  · rename_i hreset
    have hd : d = 0 := by
      by_contra hne
      simpa [StreamState.terminal, hreset] using (hnew hne).1
    subst hd
    exact fun _ _ => zero_add g
  · refine ⟨d, g, rfl, fun j w₃ _ _ => ?_, ?_⟩
    · refine safe_paid (writeServerRSTStream_safe hd _) fun _ w₄ _ _ => ⟨rfl, trivial⟩
    · exact safe_op (by simp) fun _ w₃ _ _ => rfl

theorem endLocal_safe (x : Nat) (endStream : Bool) :
    (spec env G).Safe i (endLocal x endStream) 0 Paid w := by
  cases endStream with
  | false => exact fun _ _ => rfl
  | true =>
    simp only [endLocal, markLocalEnd, if_true, Prog.bind_eq, Prog.lift_bind, Prog.op_bind,
      Prog.pure_eq, Prog.ret_bind]
    refine safe_advance fun before d w₁ hd hnew => ?_
    rw [add_zero]
    split
    · exact markStreamDone_safe hd
    · rename_i hended
      refine fun _ _ => by_contra fun hne => hended ?_
      have := hnew hne
      simp_all [StreamState.terminal, StreamState.union]

theorem sendHeaders_safe (x : Nat) (fields : List HeaderField) (endStream : Bool)
    (prio : Option Priority) :
    (spec env G).Safe i (sendHeaders env x fields endStream prio) 0 Paid w := by
  simp only [sendHeaders, Prog.bind_eq, Prog.lift_bind, Prog.pure_eq]
  refine safe_op (by simp) fun st w₁ => ?_
  split
  · exact fun _ _ => rfl
  refine Spec.Safe.bind (safe_within ((writeServerHeaders_uses ..).within (by decide)) fun r w₂ => ?_)
  cases r with
  | error e => exact fun _ _ => rfl
  | ok _ =>
    refine safe_advance fun before d w₃ hd hnew => ?_
    have hd : d = 0 := by
      by_contra hne
      have := hnew hne
      simp_all [StreamState.terminal, StreamState.union]
    subst hd
    exact safe_paid (endLocal_safe x endStream) fun _ _ _ _ => rfl

theorem sendData_safe (x : Nat) (p : Bytes) (endStream : Bool) (ctx : Ctx) :
    (spec env G).Safe i (sendData env x p endStream ctx) 0 Paid w := by
  simp only [sendData, Prog.bind_eq, Prog.lift_bind, Prog.pure_eq]
  refine safe_op (by simp) fun st w₁ => ?_
  split
  · exact fun _ _ => rfl
  refine Spec.Safe.bind (safe_within ((writeServerData_uses ..).within (by decide)) fun r w₂ => ?_)
  cases r with
  | error e => exact fun _ _ => rfl
  | ok _ => exact safe_paid (endLocal_safe x endStream) fun _ _ _ _ => rfl

theorem closeStream_safe (x : Nat) : (spec env G).Safe i (closeStream x) 0 Paid w := by
  refine safe_advance fun before d w₁ hd hnew => ?_
  rw [add_zero]
  dsimp only [Prog.ret_bind]
  split
  · rename_i hterm
    exact fun _ _ => by_contra fun hne => by simp [(hnew hne).1] at hterm
  · exact writeServerRSTStream_safe hd _

theorem respondFieldsTooLarge_safe (x : Nat) :
    (spec env G).Safe i (respondFieldsTooLarge env x) 0 Paid w :=
  safe_paid (sendHeaders_safe ..) fun _ _ => markStreamDone_safe (.zero x)

theorem deliverEvent_safe (x : Nat) (endStream : Bool) (e : StreamEvent) :
    (spec env G).Safe i (deliverEvent x endStream e) 0 Paid w := by
  have hend {d : Nat → Nat} (hd : Only x d) {fullyClosed : Bool}
      (hclosed : d ≠ 0 → fullyClosed = true) (w : World) :
      (spec env G).Safe i ((push x e).bind fun _ => if fullyClosed then
        (markStreamDone x).bind fun _ => .ret (.ok () : Except GoErr Unit) else .ret (.ok ()))
        d Paid w := by
    refine Spec.Safe.bind ((push_safe x e).mono ?_)
    rintro _ _ w₁ rfl
    cases fullyClosed with
    | true => exact safe_paid (markStreamDone_safe hd) fun _ _ _ _ => rfl
    | false => exact fun _ _ => by_contra fun hne => by simpa using hclosed hne
  simp only [deliverEvent, markRemoteEnd, Prog.bind_eq, Prog.lift_bind, Prog.pure_eq]
  cases endStream with
  | false => exact hend (.zero x) (fun h => absurd rfl h) w
  | true =>
    refine safe_advance fun before d w₂ hd hnew => ?_
    rw [add_zero]
    refine hend hd (fun hne => ?_) w₂
    have := hnew hne
    simp_all [StreamState.terminal, StreamState.union]

theorem onStreamData_safe (x : Nat) (endStream : Bool) (p : Bytes) :
    (spec env G).Safe i (onStreamData x endStream p) 0 Paid w := by
  simp only [onStreamData, Prog.bind_eq, Prog.lift_bind, Prog.pure_eq]
  refine safe_op (by simp) fun st w₁ => ?_
  split
  · exact safe_paid (writeServerRSTStream_safe (.zero x) _) fun _ _ _ _ => rfl
  exact deliverEvent_safe ..

theorem onData_safe (x : Nat) (endStream : Bool) (length : Nat) (p : Bytes) :
    (spec env G).Safe i (onData x endStream length p) 0 Paid w := by
  simp only [onData, guardHeaderBlock, Prog.bind_eq, Prog.lift_bind, Prog.pure_eq]
  refine safe_op (by simp) fun hd w₁ => ?_
  split
  · exact fun _ _ => rfl
  split
  · exact fun _ _ => rfl
  refine safe_op (by simp) fun idle w₂ => ?_
  split
  · exact fun _ _ => rfl
  refine safe_op (by simp) fun live w₃ => ?_
  refine Spec.Safe.bind (safe_within ((onDataReceived_uses ..).within (by decide)) fun r w₄ => ?_)
  cases r with
  | error e => exact fun _ _ => rfl
  | ok _ =>
    dsimp only
    split
    · exact onStreamData_safe ..
    · exact fun _ _ => rfl

theorem emitFields_safe (x : Nat) (fields : List HeaderField) (endStream isTrailer : Bool) :
    (spec env G).Safe i (emitFields env x fields endStream isTrailer) 0 Paid w := by
  simp only [emitFields, Prog.bind_eq, Prog.lift_bind, Prog.pure_eq]
  split
  · exact safe_paid (respondFieldsTooLarge_safe x) fun _ _ _ _ => rfl
  refine safe_op (by simp) fun st w₁ => ?_
  split
  · exact safe_paid (writeServerRSTStream_safe (.zero x) _) fun _ _ _ _ => rfl
  split
  · exact safe_paid (writeServerRSTStream_safe (.zero x) _) fun _ _ _ _ => rfl
  exact deliverEvent_safe ..

theorem emitHeaderBlock_safe (x : Nat) (hb : Bytes) (endStream isTrailer : Bool) :
    (spec env G).Safe i (emitHeaderBlock env x hb endStream isTrailer) 0 Paid w := by
  refine safe_op (by simp) fun h w₁ => safe_op (by simp) fun _ w₂ => ?_
  refine safe_op (by simp) fun r w₃ => ?_
  cases r with
  | error msg => exact fun _ _ => rfl
  | ok fields => exact emitFields_safe ..

theorem safe_recvFields {x : Nat} {k : M α} {Q : α → (Nat → Nat) → World → Prop}
    (hk : ∀ w', (spec env G).Safe i k 0 Q w') :
    (spec env G).Safe i (.op (.advance x { recvFields := true }) fun _ => k) 0 Q w := by
  refine safe_advance fun before d w₁ hd hnew => ?_
  have hd : d = 0 := by
    by_contra hne
    have := hnew hne
    simp_all [StreamState.terminal, StreamState.union]
  subst hd
  exact hk w₁

theorem onStreamHeaders_safe (x : Nat) (endStream endHeaders : Bool) (hb : Bytes)
    (isNew refused : Bool) : (spec env G).Safe i
      (onStreamHeaders env x endStream endHeaders hb isNew refused) 0 Paid w := by
  simp only [onStreamHeaders, Prog.bind_eq, Prog.lift_bind, Prog.pure_eq]
  split
  · split
    · exact safe_paid (respondFieldsTooLarge_safe x) fun _ _ _ _ => rfl
    · exact safe_op (by simp) fun _ _ => safe_op (by simp) fun _ _ _ _ => rfl
  split
  · exact safe_within ((discardHeaderBlock_uses hb).within (by decide)) fun _ _ => rfl
  refine safe_op (by simp) fun st w₁ => ?_
  split
  · exact safe_recvFields fun _ => emitHeaderBlock_safe ..
  · exact emitHeaderBlock_safe ..

theorem registerStream_safe (x : Nat) (prio : Option Priority) :
    (spec env G).Safe i (registerStream x prio) 0 Paid w := by
  have hrefuse (w) : (spec env G).Safe i ((writeServerRSTStream x .refusedStream).bind fun _ =>
      .op (.cancelStream x) fun _ => .ret false) 0 Paid w :=
    safe_paid (writeServerRSTStream_safe (.zero x) _) fun _ _ => safe_op (by simp) fun _ _ _ _ => rfl
  simp only [registerStream, Prog.bind_eq, Prog.lift_bind, Prog.pure_eq]
  refine safe_op (by simp) fun admitted w₁ => ?_
  split
  · exact hrefuse w₁
  refine safe_op (by simp) fun queued w₂ => ?_
  split
  · exact fun _ _ => rfl
  · exact hrefuse w₂

theorem onHeaders_safe (x : Nat) (endStream endHeaders : Bool) (hb : Bytes)
    (prio : Option Priority) :
    (spec env G).Safe i (onHeaders env x endStream endHeaders hb prio) 0 Paid w := by
  simp only [onHeaders, guardHeaderBlock, Prog.bind_eq, Prog.lift_bind, Prog.pure_eq]
  refine safe_op (by simp) fun h w₁ => ?_
  split
  · exact fun _ _ => rfl
  split
  · exact fun _ _ => rfl
  refine safe_op (by simp) fun live w₂ => ?_
  split
  · exact onStreamHeaders_safe ..
  refine safe_op (by simp) fun r w₃ => ?_
  cases r with
  | error e => exact fun _ _ => rfl
  | ok _ => exact safe_paid (registerStream_safe x prio) fun _ _ => onStreamHeaders_safe ..

theorem onBlockComplete_safe (x : Nat) (h : Handler) (buf : Bytes) :
    (spec env G).Safe i (onBlockComplete env x h buf) 0 Paid w := by
  have hdiscard (w) : (spec env G).Safe i (discardHeaderBlock buf) 0 Paid w :=
    safe_within ((discardHeaderBlock_uses buf).within (by decide)) fun _ _ => rfl
  simp only [onBlockComplete, Prog.bind_eq, Prog.lift_bind]
  split
  · exact hdiscard w
  refine safe_op (by simp) fun live w₁ => ?_
  split
  · exact hdiscard w₁
  split
  · exact safe_recvFields fun _ => emitHeaderBlock_safe ..
  · exact emitHeaderBlock_safe ..

theorem onContinuation_safe (x : Nat) (endHeaders : Bool) (hb : Bytes) :
    (spec env G).Safe i (onContinuation env x endHeaders hb) 0 Paid w := by
  simp only [onContinuation, Prog.bind_eq, Prog.lift_bind, Prog.pure_eq]
  refine safe_op (by simp) fun h w₁ => ?_
  split
  · exact fun _ _ => rfl
  split
  · exact fun _ _ => rfl
  split
  · refine safe_op (by simp) fun live w₂ => ?_
    split
    · exact safe_paid (respondFieldsTooLarge_safe x) fun _ _ _ _ => rfl
    · exact fun _ _ => rfl
  refine safe_op (by simp) fun _ w₂ => ?_
  split
  · exact fun _ _ => rfl
  · exact onBlockComplete_safe ..

theorem onRSTStream_safe (x : Nat) (code : ErrCode) :
    (spec env G).Safe i (onRSTStream env x code) 0 Paid w := by
  have hrapid (rapid) (w) : (spec env G).Safe i (onClientRSTStream env rapid) 0 Paid w :=
    safe_within ((onClientRSTStream_uses env rapid).within (by decide)) fun _ _ => rfl
  simp only [onRSTStream, guardHeaderBlock, markRemoteEndReset, Prog.bind_eq, Prog.lift_bind,
    Prog.pure_eq]
  refine safe_op (by simp) fun h w₁ => ?_
  split
  · exact fun _ _ => rfl
  refine safe_op (by simp) fun idle w₂ => ?_
  split
  · exact fun _ _ => rfl
  refine safe_op (by simp) fun live w₃ => ?_
  split
  · exact hrapid _ w₃
  refine safe_advance fun before d w₄ hd _ => ?_
  rw [add_zero]
  dsimp only [Prog.ret_bind]
  refine Spec.Safe.bind ((push_safe x _).mono ?_)
  rintro _ _ w₅ rfl
  exact safe_paid (markStreamDone_safe hd) fun _ w₆ => hrapid _ w₆

theorem onWindowUpdate_safe (x increment : Nat) :
    (spec env G).Safe i (onWindowUpdate x increment) 0 Paid w := by
  simp only [onWindowUpdate, Prog.bind_eq, Prog.lift_bind, Prog.pure_eq]
  split
  · exact safe_within (by simp [onConnWindowUpdate]) fun _ _ => rfl
  refine safe_op (by simp) fun idle w₁ => ?_
  split
  · exact fun _ _ => rfl
  refine safe_op (by simp) fun live w₂ => ?_
  split
  · exact fun _ _ => rfl
  refine safe_op (by simp) fun grown w₃ => ?_
  split
  · exact safe_within (by simp) fun _ _ => rfl
  refine safe_advance fun before d w₄ hd _ => ?_
  rw [add_zero]
  refine Spec.Safe.bind ((push_safe x _).mono ?_)
  rintro _ _ w₅ rfl
  exact safe_paid (writeServerRSTStream_safe hd _) fun _ _ _ _ => rfl

theorem writeRSTStreamID_safe (x : Nat) (code : ErrCode) :
    (spec env G).Safe i (writeRSTStreamID x code) 0 Paid w := by
  simp only [writeRSTStreamID, Prog.bind_eq, Prog.lift_bind, Prog.pure_eq]
  refine safe_op (by simp) fun closed w₁ => ?_
  split
  · exact fun _ _ => rfl
  refine safe_op (by simp) fun live w₂ => ?_
  split
  · refine safe_advance fun before d w₃ hd _ => ?_
    rw [add_zero]
    refine safe_op (by simp) fun _ w₄ => safe_op (by simp) fun ok w₅ => ?_
    exact safe_paid (markStreamDone_safe hd) fun _ _ => safe_op (by simp) fun _ _ _ _ => rfl
  · exact safe_within (writeLocked_within (by simp)) fun _ _ => rfl

theorem dispatch_safe (f : Inbound) : (spec env G).Safe i (dispatch env f) 0 Paid w := by
  have hguard {k : M (Except GoErr Unit)} (hk : ∀ w, (spec env G).Safe i k 0 Paid w) :
      (spec env G).Safe i (guardHeaderBlock k) 0 Paid w := by
    refine safe_op (by simp) fun h w₁ => ?_
    dsimp only [Prog.ret_bind]
    split
    · exact fun _ _ => rfl
    · exact hk w₁
  cases f with
  | data => exact onData_safe ..
  | headers => exact onHeaders_safe ..
  | continuation => exact onContinuation_safe ..
  | rstStream => exact onRSTStream_safe ..
  | windowUpdate => exact hguard fun _ => onWindowUpdate_safe ..
  | settings => exact safe_within ((onSettings_uses ..).within (by decide)) fun _ _ => rfl
  | ping => exact safe_within ((onPing_uses ..).within (by decide)) fun _ _ => rfl
  | priority | altSvc | origin | goAway =>
    exact safe_within (guardHeaderBlock_within (by simp) (by simp)) fun _ _ => rfl
  | pushPromise | unknown | rejected => exact fun _ _ => rfl

theorem round (hup : env.cfg.upgradedRequest = none) {f : Inbound} :
    Round (spec env G) i f (fun _ => True) (fun _ => True) where
  quiet ho := harmless (by rw [ho]; simp)
  kept_rely _ h := h
  broken_rely _ h := h
  broken h := h
  answer code _ _ := (writeRSTStreamID_safe ..).mono fun _ _ _ h => ⟨h, trivial⟩
  frameDone _ := safe_op (by simp) fun _ _ _ _ => ⟨rfl, trivial⟩
  announce code _ := safe_within ((sendGoAway_uses code).within (by decide)) fun _ _ => ⟨rfl, trivial⟩
  closeTransport _ := safe_op (by simp) fun _ _ _ _ => ⟨rfl, trivial⟩
  shutdown _ := safe_within (shutdownStreams_uses.within (by decide)) fun _ _ => ⟨rfl, trivial⟩
  stop _ := safe_op (by simp) fun _ _ _ _ => ⟨rfl, trivial⟩
  initial _ := safe_within (sendInitialConnWindowUpdate_uses.within (by decide)) fun _ _ => ⟨rfl, trivial⟩
  seed _ := by
    rw [seed, hup]
    exact fun _ _ => ⟨rfl, trivial⟩

theorem verifies (hup : env.cfg.upgradedRequest = none) :
    (spec env G).Verifies (Call.body env) := by
  intro q i w _ _ _
  have hdiscard {α : Type} {p : M α} (hp : (spec env G).Safe i p 0 Paid w) :
      (spec env G).Safe i (discard p) 0 ((spec env G).Done i) w :=
    safe_paid hp fun _ _ _ _ => ⟨rfl, trivial⟩
  have hwithin {p : M Unit} (hp : Within (· ∉ [.advance, .advanceRecv]) p) :
      (spec env G).Safe i p 0 ((spec env G).Done i) w :=
    safe_within hp fun _ _ => ⟨rfl, trivial⟩
  cases q with
  | frame f =>
    refine safe_op (by simp) fun _ w₁ => ?_
    refine (round hup).serveSafe (fun _ => True) (fun _ h => h) (fun w _ _ => ?_) ?_ trivial
    · exact (dispatch_safe f).mono fun _ _ _ h => ⟨h, .inl trivial⟩
    · intro w ack params _ _ _
      exact safe_within ((recorderSettings_uses ..).within (by decide)) fun _ _ => ⟨rfl, .inl trivial⟩
  | sendHeaders => exact hdiscard (sendHeaders_safe ..)
  | sendData => exact hdiscard (sendData_safe ..)
  | close => exact hdiscard (closeStream_safe _)
  | push => exact hwithin ((discard_uses (pushWithPriority_uses ..)).within (by decide))
  | recv x ctx =>
    refine hwithin ((discard_uses (recv_uses rfl ctx)).within ?_)
    cases (Outbound.windowUpdate x 0).tag <;> decide
  | accept => exact hwithin ((discard_uses (acceptStream_uses _)).within (by decide))
  | closeConn => exact hwithin (closeConn_uses.within (by decide))
  | goAwayGraceful => exact hwithin ((discard_uses (goAwayWith_uses (by simp) _)).within (by decide))
  | goAway => exact hwithin ((discard_uses (goAwayWith_uses (by simp +decide) _)).within (by decide))
  | cancelRequest | failTransport => exact hwithin (by simp [Call.body])

end NoLeak

/-- Once every call and every reset goroutine has returned, no registered stream is closed; and
at all times the two counters count the registered streams, so that each registration is counted
up once and counted down once. -/
theorem no_leaked_stream {env : Env} (hup : env.cfg.upgradedRequest = none)
    {c : Config Op World} (hc : Reach env anyCall c) :
    (c.Quiet → ∀ x ∈ c.shared.live, (c.shared.state x).terminal = false) ∧
    c.shared.live.Nodup ∧
    c.shared.nClient = c.shared.live.countP (· % 2 = 1) ∧
    c.shared.nPush = c.shared.live.countP (· % 2 = 0) := by
  have hG : Fresh env anyCall := ⟨fun _ _ h => h, .inl hup⟩
  have htable := table_of_reach hG hc
  refine ⟨fun hquiet x hx => ?_, htable.nodup, htable.nClient, htable.nPush⟩
  have hinit : (NoLeak.spec env anyCall).inv (World.init env) 0 := fun x hx => by cases hx
  have hinv := Spec.inv_of_quiet hinit (fun _ => trivial) (NoLeak.verifies hup)
    (reach_tabled hG hc) hquiet x hx
  simpa using hinv

def racingEnds : List (Event Call) :=
  Config.inTurn 0 (handshake ++
    [(.frame (.headers 1 false true [1] none), 16), (.accept .background, 4)]) ++
  [.call (.frame (.data 1 true 1 [7])), .call (.sendHeaders 1 [] true none)] ++
  (List.replicate 12 [.step 4 0, .step 5 0]).flatten ++ [.step 5 0] ++
  Config.inTurn 6 [(.frame (.headers 3 false true [1] none), 16)]

theorem no_leaked_stream_of_racingEnds : ∃ c, Reach getRequests anyCall c ∧ c.Quiet ∧
    (c.shared.state 1).terminal = true ∧ c.shared.live = [3] ∧
    (c.shared.state 3).terminal = false ∧ c.shared.nClient = 1 := by
  obtain ⟨c, hc, h⟩ := exists_reach_of_run getRequests racingEnds
    (p := fun c => c.threads.all Prog.returned ∧ (c.shared.state 1).terminal ∧ c.shared.live = [3])
    (by decide +kernel)
  simp only [decide_eq_true_eq] at h
  obtain ⟨hquiet, hterm, hlive⟩ := h
  have hquiet := Config.quiet_of_returned hquiet
  obtain ⟨hopen, -, hclient, -⟩ := no_leaked_stream rfl hc
  refine ⟨c, hc, hquiet, hterm, hlive, hopen hquiet 3 (by simp [hlive]), ?_⟩
  simp [hclient, hlive]

end PoseidonServer.Conn
