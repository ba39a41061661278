import PoseidonServer.Conn.Reader

/-! A proof rule for invariants that only the registration and the delivery of streams can
touch: every call is safe once those are. -/

namespace PoseidonServer.Conn

open Concurrent

variable {env : Env} {G : Guard Op World Call} {γ : Type} [AddCommMonoid γ]

/-- `Kept` is what the reader keeps from one step of its round to the next. -/
structure Layer (S : Spec (machine env) G γ) (Kept : Nat → World → Prop) : Prop where
  fin : ∀ i w, S.fin i w
  harmless : ∀ {β} {o : Op β}, o.kind ∉ [.reader, .register, .accept] → S.Harmless o
  rely : ∀ {i w w'}, S.rely i w w' → Kept i w → Kept i w'
  read : ∀ {i w f} {k : Unit → M Unit}, (∀ w', Kept i w' → S.Safe i (k ()) 0 (S.Done i) w') →
    S.Safe i (.op (.readFrame f) k) 0 (S.Done i) w
  register : ∀ {i w x} prio, Kept i w → x % 2 = 1 →
    (env.cfg.upgradedRequest = none → w.idle x = true) →
    S.Safe i (registerStream x prio) 0 (fun _ g w => g = 0 ∧ Kept i w) w
  frameDone : ∀ {i w}, Kept i w → S.Safe i (.lift .frameDone) 0 (S.Done i) w
  stopReader : ∀ {i w}, Kept i w → S.Safe i (.lift .stopReader) 0 (S.Done i) w
  accept : ∀ {i w} ctx, S.Safe i (acceptStream ctx) 0 (fun _ g _ => g = 0) w

theorem acceptStream_safe {S : Spec (machine env) G γ} {i : Nat} {w : World}
    (Good : World → Nat → Prop) (hrely : ∀ {w w' x}, S.rely i w w' → Good w x → Good w' x)
    (hlook : ∀ {β} {o : Op β}, o.tag ∈ [.isClosed, .tryAccept, .awaitAccept] → S.Harmless o)
    (hqueue : ∀ {w r x β} {o : Op β}, S.inv w r → G.opOk i w o → x ∈ w.acceptCh → Good w x)
    (hdeliver : ∀ {w x}, Good w x → S.Safe i (.lift (.deliver x)) 0 (fun _ g _ => g = 0) w)
    (ctx : Ctx) : S.Safe i (acceptStream ctx) 0 (fun _ g _ => g = 0) w := by
  have hone {w : World} {x : Nat} (h : Good w x) : S.Safe i (acceptOne x) 0 (fun r g w => Sum.elim
      (fun _ => g = 0) (fun _ => ∀ w', S.rely i w w' → g = 0) r) w := by
    refine Spec.Safe.bind (p := Prog.lift (Op.deliver x)) ((hdeliver h).mono ?_)
    rintro (_ | _) g w rfl <;> exact fun _ _ => by simp
  -- whatever comes out of the queue was good while it was in it
  have hpop {w₁ w₂ : World} {β : Type} {o : Op β} {x : Nat} (hr : ∃ r, S.inv w₁ r)
      (hok : G.opOk i w₁ o) (hx : x ∈ w₁.acceptCh) (hw : S.rely i w₁ w₂) : Good w₂ x :=
    hr.elim fun r hr => hrely hw (hqueue hr hok hx)
  simp only [acceptStream, Prog.bind_eq, Prog.lift_bind, Prog.pure_eq]
  refine (hlook (by simp)).safe_op fun _ closed w₂ _ _ _ _ _ => ?_
  split
  · exact fun _ _ => rfl
  refine Spec.safe_forever (fun _ g _ => g = 0) (fun _ _ => rfl) ?_
  rintro _ _ w rfl
  refine (hlook (by simp)).safe_op fun w₁ r w₂ _ hinv hok hr _ => ?_
  have hw₂ : S.rely i w₁ w₂ := hinv.elim fun r h => ((hlook (by simp) i w₁ r h hok).2 _ w₂ hr).2 i
  cases r with
  | some x =>
    change (some x, w₂) ∈ Op.exec env i w₁ .tryAccept at hr
    exact hone (hpop hinv hok (tryAccept_mem hr) hw₂)
  | none =>
    refine (hlook (by simp)).safe_op fun w₃ r w₄ _ hinv hok hr _ => ?_
    have hw₄ : S.rely i w₃ w₄ := hinv.elim fun r h => ((hlook (by simp) i w₃ r h hok).2 _ w₄ hr).2 i
    cases r with
    | ok x =>
      change (.ok x, w₄) ∈ Op.exec env i w₃ (.awaitAccept ctx) at hr
      exact hone (hpop hinv hok (awaitAccept_mem hr) hw₄)
    | error e => exact fun _ _ _ _ => rfl

namespace Layer

variable {S : Spec (machine env) G γ} {Kept : Nat → World → Prop} {i : Nat} {w : World}

theorem within (L : Layer S Kept) {p : M α} {Q : α → γ → World → Prop}
    (hp : Within (· ∉ [.reader, .register, .accept]) p) (hQ : ∀ a w', S.rely i w w' → Q a 0 w') :
    S.Safe i p 0 Q w :=
  Spec.safe_of_all (hp.mono fun _ ho => L.harmless ho) hQ

theorem kept (L : Layer S Kept) {p : M α} (hp : Within (· ∉ [.reader, .register, .accept]) p)
    (h : Kept i w) : S.Safe i p 0 (fun _ g w => g = 0 ∧ Kept i w) w :=
  L.within hp fun _ _ hw => ⟨rfl, L.rely hw h⟩

theorem onHeaders (L : Layer S Kept) {x : Nat} (h : Kept i w) (endStream endHeaders : Bool)
    (hb : Bytes) (prio : Option Priority) : S.Safe i (onHeaders env x endStream endHeaders hb prio) 0
      (fun _ g w => g = 0 ∧ Kept i w) w := by
  have hret (r : Except GoErr Unit) (w : World) (h : Kept i w) :
      S.Safe i (.ret r) 0 (fun _ g w => g = 0 ∧ Kept i w) w := fun _ hw => ⟨rfl, L.rely hw h⟩
  simp only [Conn.onHeaders, guardHeaderBlock, Prog.bind_eq, Prog.lift_bind, Prog.pure_eq]
  refine (L.harmless (by simp)).safe_op fun _ hd w₁ _ _ _ _ hw => ?_
  have h₁ := L.rely hw h
  split
  · exact hret _ w₁ h₁
  split
  · exact hret _ w₁ h₁
  refine (L.harmless (by simp)).safe_op fun _ live w₂ _ _ _ _ hw => ?_
  have h₂ := L.rely hw h₁
  split
  · exact L.kept ((onStreamHeaders_uses ..).within (by decide)) h₂
  refine (L.harmless (by simp)).safe_op fun w₃ r w₄ _ _ _ hr hw => ?_
  have h₄ := L.rely hw h₂
  simp only [Op.exec, Op.underTable] at hr
  split at hr
  · cases List.mem_singleton.1 hr
    cases hv : w₃.validateClientID x with
    | error e => exact hret _ w₃ h₄
    | ok _ =>
      have hx : x % 2 = 1 := by omega
      have hidle : w₃.idle x = true := by
        simp only [World.validateClientID] at hv
        split at hv
        · cases hv
        · split at hv
          · cases hv
          · simp only [World.idle, hx, if_true, decide_eq_true_eq]
            omega
      refine Spec.Safe.bind ((L.register prio h₄ hx fun _ => hidle).mono ?_)
      rintro ok g w₅ ⟨rfl, h₅⟩
      exact L.kept ((onStreamHeaders_uses ..).within (by decide)) h₅
  · cases hr

theorem round (L : Layer S Kept) {f : Inbound} : Round S i f (Kept i) (Kept i) where
  quiet ho := L.harmless (by rw [ho]; simp)
  kept_rely := L.rely
  broken_rely := L.rely
  broken h := h
  answer code h _ := L.kept ((writeRSTStreamID_uses _ _).within (by decide)) h
  frameDone := L.frameDone
  announce code h := L.kept ((sendGoAway_uses code).within (by decide)) h
  closeTransport h := L.kept (by simp) h
  shutdown h := L.kept (shutdownStreams_uses.within (by decide)) h
  stop := L.stopReader
  initial h := L.kept (sendInitialConnWindowUpdate_uses.within (by decide)) h
  seed h := by
    unfold seed
    split
    · rename_i headers hup
      refine Spec.Safe.bind ((L.register none h rfl fun hno => ?_).mono ?_)
      · rw [hno] at hup
        cases hup
      · rintro ok g w ⟨rfl, h⟩
        refine L.kept ?_ h
        simp [markRemoteEnd, Within.bind, push_within]
    · exact fun _ hw => ⟨rfl, L.rely hw h⟩

theorem serveFrame (L : Layer S Kept) (f : Inbound) : S.Safe i (serveFrame env f) 0 (S.Done i) w := by
  refine L.read fun w₁ h₁ => ?_
  refine (L.round).serveSafe (Kept i) L.rely (fun w _ h => ?_) (fun w ack params _ _ h => ?_) h₁
  · cases f with
    | headers =>
      exact (L.onHeaders h ..).mono fun _ _ _ h => ⟨h.1, .inl h.2⟩
    | continuation =>
      exact (L.kept ((onContinuation_uses ..).within (by decide)) h).mono fun _ _ _ h => ⟨h.1, .inl h.2⟩
    | _ =>
      exact (L.kept ((dispatch_uses env (by simp) (by simp)).within (by decide)) h).mono
        fun _ _ _ h => ⟨h.1, .inl h.2⟩
  · exact (L.kept ((recorderSettings_uses ..).within (by decide)) h).mono fun _ _ _ h => ⟨h.1, .inl h.2⟩

theorem verifies (L : Layer S Kept) : S.Verifies (Call.body env) := by
  intro q i w _ _ _
  cases q with
  | frame f => exact L.serveFrame f
  | accept ctx =>
    refine Spec.Safe.bind ((L.accept ctx).mono ?_)
    rintro r g w rfl
    exact fun _ _ => ⟨rfl, L.fin i _⟩
  | _ =>
    refine L.within (Call.body_within (by decide) env (by simp) (.inr (by simp))) ?_
    exact fun _ w' _ => ⟨rfl, L.fin i w'⟩

end Layer

end PoseidonServer.Conn
