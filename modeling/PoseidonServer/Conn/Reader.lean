import PoseidonServer.Conn.Frame

/-! The reader's round as a proof rule: what holds when a frame has been read is carried through
its callback to the end of the round, or to the end of the connection. -/

namespace PoseidonServer.Conn

open Concurrent

variable {env : Env} {G : Guard Op World Call} {γ : Type} [AddCommMonoid γ]

def lookSteps : List Tag := [.loadHandler, .idle, .isEstablished, .loadRecorder, .cancelConn]

/-- What one round of the reader is proved from: `Kept` is owed at its end, `Broken` when an
error ends the connection. -/
structure Turn (S : Spec (machine env) G γ) (i : Nat) (f : Inbound) (Kept Broken : World → Prop) :
    Prop where
  look : ∀ {β} {o : Op β}, o.tag ∈ lookSteps → S.Harmless o
  kept_rely : ∀ {w w'}, S.rely i w w' → Kept w → Kept w'
  broken_rely : ∀ {w w'}, S.rely i w w' → Broken w → Broken w'
  broken : ∀ {w}, Kept w → Broken w
  answer : ∀ {w} code, Kept w → w.idle f.streamID = false →
    S.Safe i (writeRSTStreamID f.streamID code) 0 (fun _ g w => g = 0 ∧ Kept w) w
  frameDone : ∀ {w}, Kept w → S.Safe i (.lift .frameDone) 0 (S.Done i) w
  announce : ∀ {w} code, Broken w → S.Safe i (sendGoAway code) 0 (fun _ g w => g = 0 ∧ Broken w) w
  closeTransport : ∀ {w}, Broken w →
    S.Safe i (.lift .closeTransport) 0 (fun _ g w => g = 0 ∧ Broken w) w
  shutdown : ∀ {w}, Broken w → S.Safe i shutdownStreams 0 (fun _ g w => g = 0 ∧ Broken w) w
  stop : ∀ {w}, Broken w → S.Safe i (.lift .stopReader) 0 (S.Done i) w

def Handled (Kept Broken : World → Prop) (r : Except GoErr Unit) (g : γ) (w : World) : Prop :=
  g = 0 ∧ (Kept w ∨ ∃ e, r = .error e ∧ e.streamCode = none ∧ Broken w)

namespace Turn

variable {S : Spec (machine env) G γ} {i : Nat} {f : Inbound} {Kept Broken : World → Prop}
  {w : World}

theorem keptOp (T : Turn S i f Kept Broken) {o : Op β} (ho : o.tag ∈ lookSteps) {k : β → M α}
    {Q : α → γ → World → Prop} (h : Kept w)
    (hk : ∀ w₁ b w₂, (b, w₂) ∈ o.exec env i w₁ → Kept w₂ → S.Safe i (k b) 0 Q w₂) :
    S.Safe i (.op o k) 0 Q w :=
  (T.look ho).safe_op fun w₁ b w₂ _ _ _ hb hw => hk w₁ b w₂ hb (T.kept_rely hw h)

theorem brokenOp (T : Turn S i f Kept Broken) {o : Op β} (ho : o.tag ∈ lookSteps) {k : β → M α}
    {Q : α → γ → World → Prop} (h : Broken w) (hk : ∀ b w', Broken w' → S.Safe i (k b) 0 Q w') :
    S.Safe i (.op o k) 0 Q w :=
  (T.look ho).safe_op fun _ b w₂ _ _ _ _ hw => hk b w₂ (T.broken_rely hw h)

theorem shutdownSafe (T : Turn S i f Kept Broken) {p : M Unit} (h : Broken w)
    (hp : ∀ w, Broken w → S.Safe i p 0 (S.Done i) w) :
    S.Safe i (shutdownStreams.bind fun _ => p) 0 (S.Done i) w := by
  refine Spec.Safe.bind ((T.shutdown h).mono ?_)
  rintro _ g w ⟨rfl, h⟩
  exact hp w h

theorem teardownSafe (T : Turn S i f Kept Broken) (h : Broken w) (code : Option ErrCode) :
    S.Safe i (teardown code) 0 (S.Done i) w := by
  have hstop (w) (h : Broken w) :
      S.Safe i (shutdownStreams.bind fun _ => .lift .stopReader) 0 (S.Done i) w :=
    T.shutdownSafe h fun w h => T.stop h
  cases code with
  | none => exact hstop w h
  | some code =>
    refine Spec.Safe.bind (Spec.Safe.bind ((T.announce code h).mono ?_))
    rintro _ g w ⟨rfl, h⟩
    refine (T.closeTransport h).mono ?_
    rintro _ g w ⟨rfl, h⟩
    exact hstop w h

theorem readerErrorSafe (T : Turn S i f Kept Broken) {e : GoErr} (pending : Nat)
    (h : Kept w ∨ e.streamCode = none ∧ Broken w) :
    S.Safe i (readerError f pending e) 0 (S.Done i) w := by
  have hbroken : Broken w := h.elim T.broken And.right
  simp only [readerError, Prog.bind_eq, Prog.lift_bind]
  split
  · exact T.teardownSafe hbroken _
  split
  · obtain h | ⟨he, h⟩ := h
    · refine T.keptOp (by simp [lookSteps]) h fun w₁ idle w₂ hb h₂ => ?_
      split
      · exact T.teardownSafe (T.broken h₂) _
      split
      · rename_i hidle _ code _
        have hidle : w₂.idle f.streamID = false := by
          simp only [Op.exec, Op.underTable] at hb
          split at hb
          · cases List.mem_singleton.1 hb
            simpa using hidle
          · cases hb
        refine Spec.Safe.bind ((T.answer code h₂ hidle).mono ?_)
        rintro _ g w ⟨rfl, h⟩
        exact T.frameDone h
      · exact T.teardownSafe (T.broken h₂) _
    · refine T.brokenOp (by simp [lookSteps]) h fun idle w₂ h₂ => ?_
      rw [he]
      split <;> exact T.teardownSafe h₂ _
  · exact T.teardownSafe hbroken _

theorem readerStepSafe (T : Turn S i f Kept Broken)
    (hdispatch : S.Safe i (dispatch env f) 0 (Handled Kept Broken) w) :
    S.Safe i (readerStep env f) 0 (S.Done i) w := by
  refine Spec.Safe.bind (hdispatch.mono fun r g w₁ hr => ?_)
  obtain ⟨rfl, hr⟩ := hr
  cases r with
  | ok _ =>
    obtain h | ⟨e, he, -⟩ := hr
    · refine T.keptOp (by simp [lookSteps]) h fun _ hd w₂ _ h₂ => ?_
      dsimp only [Prog.ret_bind]
      split
      · exact T.readerErrorSafe _ (.inl h₂)
      · exact T.frameDone h₂
    · cases he
  | error e =>
    have hlook : (Op.loadHandler).tag ∈ lookSteps := by simp [lookSteps]
    obtain h | ⟨e', he, hcode, h⟩ := hr
    · exact T.keptOp hlook h fun _ hd w₂ _ h₂ => T.readerErrorSafe _ (.inl h₂)
    · cases he
      exact T.brokenOp hlook h fun hd w₂ h₂ => T.readerErrorSafe _ (.inr ⟨hcode, h₂⟩)

theorem abortHandshakeSafe (T : Turn S i f Kept Broken) (h : Broken w) :
    S.Safe i abortHandshake 0 (S.Done i) w := by
  refine T.shutdownSafe h fun w h => T.brokenOp (by simp [lookSteps]) h fun _ w h => ?_
  refine Spec.Safe.bind (p := Prog.lift Op.closeTransport) ((T.closeTransport h).mono ?_)
  rintro _ g w ⟨rfl, h⟩
  exact T.stop h

theorem handshakeStepSafe (T : Turn S i f Kept Broken)
    (hfinish : ∀ w, Kept w → S.Safe i (finishHandshake env) 0 (S.Done i) w)
    (hdispatch : S.Safe i (recorderDispatch env f) 0 (Handled Kept Broken) w) :
    S.Safe i (handshakeStep env f) 0 (S.Done i) w := by
  refine Spec.Safe.bind (hdispatch.mono fun r g w₁ hr => ?_)
  obtain ⟨rfl, hr⟩ := hr
  have hbroken : Broken w₁ := hr.elim T.broken fun ⟨_, _, _, h⟩ => h
  cases r with
  | error e =>
    have habort (w) (h : Broken w) := T.abortHandshakeSafe h
    cases e with
    | connError code msg =>
      refine Spec.Safe.bind ((T.announce code hbroken).mono ?_)
      rintro _ g w ⟨rfl, h⟩
      exact habort w h
    | _ => exact habort w₁ hbroken
  | ok _ =>
    obtain h | ⟨e, he, -⟩ := hr
    · refine T.keptOp (by simp [lookSteps]) h fun _ rec w₂ _ h₂ => ?_
      rw [Prog.ret_bind]
      split
      · exact hfinish w₂ h₂
      · exact T.frameDone h₂
    · cases he

theorem serveSafe (T : Turn S i f Kept Broken) (Start : World → Prop)
    (hstart : ∀ {w w'}, S.rely i w w' → Start w → Start w')
    (hfinish : ∀ w, Kept w → S.Safe i (finishHandshake env) 0 (S.Done i) w)
    (hdispatch : ∀ w, (∀ ack params, f = .settings ack params → w.established = true) → Start w →
      S.Safe i (dispatch env f) 0 (Handled Kept Broken) w)
    (hsettings : ∀ w ack params, f = .settings ack params → w.established = false → Start w →
      S.Safe i (recorderSettings ack params) 0 (Handled Kept Broken) w)
    (h : Start w) : S.Safe i (.op .isEstablished fun established =>
      if established then readerStep env f else handshakeStep env f) 0 (S.Done i) w := by
  refine (T.look (by simp [lookSteps])).safe_op fun w₁ established w₂ _ _ _ hb hw => ?_
  have h₂ := hstart hw h
  change (established, w₂) ∈ Op.exec env i w₁ .isEstablished at hb
  cases List.mem_singleton.1 hb
  split
  · exact T.readerStepSafe (hdispatch w₁ (fun _ _ _ => ‹_›) h₂)
  · rename_i hest
    refine T.handshakeStepSafe hfinish ?_
    unfold recorderDispatch
    split
    · exact hsettings w₁ _ _ rfl (Bool.eq_false_iff.2 hest) h₂
    · rename_i hf
      exact hdispatch w₁ (fun ack params h => absurd h (hf ack params)) h₂

end Turn

structure Round (S : Spec (machine env) G γ) (i : Nat) (f : Inbound) (Kept Broken : World → Prop) :
    Prop where
  quiet : ∀ {β} {o : Op β}, o.kind = .quiet → S.Harmless o
  kept_rely : ∀ {w w'}, S.rely i w w' → Kept w → Kept w'
  broken_rely : ∀ {w w'}, S.rely i w w' → Broken w → Broken w'
  broken : ∀ {w}, Kept w → Broken w
  answer : ∀ {w} code, Kept w → w.idle f.streamID = false →
    S.Safe i (writeRSTStreamID f.streamID code) 0 (fun _ g w => g = 0 ∧ Kept w) w
  frameDone : ∀ {w}, Kept w → S.Safe i (.lift .frameDone) 0 (S.Done i) w
  announce : ∀ {w} code, Broken w → S.Safe i (sendGoAway code) 0 (fun _ g w => g = 0 ∧ Broken w) w
  closeTransport : ∀ {w}, Broken w →
    S.Safe i (.lift .closeTransport) 0 (fun _ g w => g = 0 ∧ Broken w) w
  shutdown : ∀ {w}, Broken w → S.Safe i shutdownStreams 0 (fun _ g w => g = 0 ∧ Broken w) w
  stop : ∀ {w}, Broken w → S.Safe i (.lift .stopReader) 0 (S.Done i) w
  initial : ∀ {w}, Kept w →
    S.Safe i sendInitialConnWindowUpdate 0 (fun _ g w => g = 0 ∧ Kept w) w
  seed : ∀ {w}, Kept w → S.Safe i (seed env) 0 (fun _ g w => g = 0 ∧ Kept w) w

namespace Round

variable {S : Spec (machine env) G γ} {i : Nat} {f : Inbound} {Kept Broken : World → Prop}
  {w : World}

theorem turn (R : Round S i f Kept Broken) : Turn S i f Kept Broken :=
  have hlook : ∀ t ∈ lookSteps, t.kind = .quiet := by decide
  { R with look := fun ho => R.quiet ((Op.kind_tag _).symm.trans (hlook _ ho)) }

theorem finishHandshakeSafe (R : Round S i f Kept Broken) (h : Kept w) :
    S.Safe i (finishHandshake env) 0 (S.Done i) w := by
  refine Spec.Safe.bind ((R.initial h).mono ?_)
  rintro r g w₁ ⟨rfl, h₁⟩
  cases r with
  | error e => exact R.turn.abortHandshakeSafe (R.broken h₁)
  | ok _ =>
    refine Spec.Safe.bind ((R.seed h₁).mono ?_)
    rintro _ g w₂ ⟨rfl, h₂⟩
    exact (R.quiet rfl).safe_op fun _ _ w₃ _ _ _ _ hw => R.frameDone (R.kept_rely hw h₂)

theorem serveSafe (R : Round S i f Kept Broken) (Start : World → Prop)
    (hstart : ∀ {w w'}, S.rely i w w' → Start w → Start w')
    (hdispatch : ∀ w, (∀ ack params, f = .settings ack params → w.established = true) → Start w →
      S.Safe i (dispatch env f) 0 (Handled Kept Broken) w)
    (hsettings : ∀ w ack params, f = .settings ack params → w.established = false → Start w →
      S.Safe i (recorderSettings ack params) 0 (Handled Kept Broken) w)
    (h : Start w) : S.Safe i (.op .isEstablished fun established =>
      if established then readerStep env f else handshakeStep env f) 0 (S.Done i) w :=
  R.turn.serveSafe Start hstart (fun _ h => R.finishHandshakeSafe h) hdispatch hsettings h

end Round

end PoseidonServer.Conn
