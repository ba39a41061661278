import PoseidonServer.Conn.Reset.Once

/-! What the reader does not write about a stream that the client has reset. -/

namespace PoseidonServer.Conn

open Concurrent Lifecycle

def Inbound.resets (x : Nat) : Inbound → Bool
  | .rstStream y _ => y = x
  | _ => false

def World.clientReset (w : World) (x : Nat) : Prop := ∃ f ∈ w.inbound, f.resets x = true

def Inbound.ends (x : Nat) : Inbound → Bool
  | .headers y endStream .. => y = x && endStream
  | .data y endStream .. => y = x && endStream
  | _ => false

def Outbound.ends (x : Nat) : Outbound → Bool
  | .headers y _ endStream _ => y = x && endStream
  | .data y endStream _ => y = x && endStream
  | _ => false

/-- Both sides have ended the stream, or one of them has reset it. -/
def World.closedOnWire (w : World) (x : Nat) : Bool :=
  (w.inbound.any (·.ends x) && w.wire.any (·.ends x)) ||
    w.inbound.any (·.resets x) || w.wire.any (·.resets x)

namespace Silent

def Dead (x : Nat) (w : World) : Prop := w.idle x = false ∧ x ∉ w.live

theorem Dead.mono {x : Nat} {w w' : World} (h : Dead x w) (hm : Mono w w') : Dead x w' :=
  ⟨hm.idle x h.1, hm.gone x h.1 h.2⟩

/-- Between two rounds of the reader a stream that the client has reset is closed; the reader then
has nothing to answer on it. -/
def spec (env : Env) (G : Guard Op World Call) (x : Nat) :
    Spec (machine env) (lived env G false) PUnit where
  inv w _ := w.reader = none → w.readerDone = false → w.clientReset x → Dead x w
  rely i w w' := Mono w w' ∧ (w.reader = some i ↔ w'.reader = some i) ∧
    (w.reader = some i → w'.inbound = w.inbound)
  rely_refl _ w := ⟨.refl w, Iff.rfl, fun _ => rfl⟩
  rely_trans h₁ h₂ :=
    ⟨h₁.1.trans h₂.1, h₁.2.1.trans h₂.2.1, fun h => (h₂.2.2 (h₁.2.1.1 h)).trans (h₁.2.2 h)⟩
  pre i w _ o := ∀ f, o.written = some f → w.reader = some i → w.clientReset x → f.resets x = false
  fin i w := w.reader ≠ some i
  fin_rely h hf hr := hf (h.2.1.2 hr)

variable {env : Env} {G : Guard Op World Call} {x : Nat} {i : Nat} {w w' : World} {s : Option Nat}
  {y : Nat} {l : List Inbound}

theorem step {o : Op β} {b : β} (ho : o.tag.kind ≠ .reader) {r : PUnit}
    (h : (spec env G x).inv w r) (hok : (lived env G false).opOk i w o)
    (hb : (b, w') ∈ o.exec env i w) :
    (spec env G x).inv w' r ∧ ∀ j, (spec env G x).rely j w w' := by
  have hm := mono_of_exec hok.1 hb
  have hturn := (frame_of_tag hb).turn ho
  simp only [World.turnView, Prod.mk.injEq] at hturn
  refine ⟨fun hr hd hx => ?_, fun j => ⟨hm, by rw [hturn.1], fun _ => hturn.2.2⟩⟩
  refine (h (hturn.1 ▸ hr) (hturn.2.1 ▸ hd) ?_).mono hm
  simpa [World.clientReset, hturn.2.2] using hx

theorem under {P : World → Prop} (hP : ∀ {w w'}, (spec env G x).rely i w w' → P w → P w') {o : Op β}
    (ho : o.tag.kind ≠ .reader) (hpre : ∀ w, P w → (spec env G x).pre i w o) :
    (spec env G x).Under i P o := by
  refine fun w r h hp hok => ⟨hpre w hp, fun b w' hb => ?_⟩
  obtain ⟨h', hrely⟩ := step ho h hok hb
  exact ⟨h', fun j _ => hrely j, hP (hrely i) hp⟩

theorem mild {o : Op β} (ho : o.tag.kind ≠ .reader) : (spec env G x).Mild o := by
  refine fun i w r h hf hok => ⟨fun _ _ hr => absurd hr hf, fun b w' hb => ?_⟩
  obtain ⟨h', hrely⟩ := step ho h hok hb
  exact ⟨h', fun j _ => hrely j, (spec env G x).fin_rely (hrely i) hf⟩

def Turn (i : Nat) (l : List Inbound) (w : World) : Prop := w.reader = some i ∧ w.inbound = l

theorem Turn.rely (h : Turn i l w) (hw : (spec env G x).rely i w w') : Turn i l w' :=
  ⟨hw.2.1.1 h.1, (hw.2.2 h.1).trans h.2⟩

def Kept (x i : Nat) (l : List Inbound) (s : Option Nat) (w : World) : Prop :=
  Turn i l w ∧ (w.clientReset x → Dead x w ∧ s ≠ some x)

theorem Turn.clientReset (h : Turn i l w) : w.clientReset x ↔ ∃ f ∈ l, f.resets x = true := by
  rw [← h.2]
  exact Iff.rfl

theorem kept_rely (hw : (spec env G x).rely i w w') (h : Kept x i l s w) : Kept x i l s w' := by
  have hturn := h.1.rely hw
  refine ⟨hturn, fun hx => ?_⟩
  have hx := h.1.clientReset.2 (hturn.clientReset.1 hx)
  exact ⟨(h.2 hx).1.mono hw.1, (h.2 hx).2⟩

theorem Kept.weaken (h : Kept x i l s w) : Kept x i l none w :=
  ⟨h.1, fun hx => ⟨(h.2 hx).1, by simp⟩⟩

theorem pre_of_tag {o : Op β} (ho : o.tag ≠ .write .rstStream) : (spec env G x).pre i w o :=
  fun _ hf _ _ => resets_of_tag ho hf x

theorem safe_ending {o : Op Unit} (ho : o = .frameDone ∨ o = .stopReader) (h : Turn i l w)
    (hkept : o = .frameDone → Kept x i l none w) :
    (spec env G x).Safe i (.lift o) 0 ((spec env G x).Done i) w := by
  refine fun w₁ hw _ _ => ⟨?_, fun b w₂ hb => ?_⟩
  · obtain rfl | rfl := ho <;> exact pre_of_tag (by simp)
  have hr := (h.rely hw).1
  change (b, w₂) ∈ Op.exec env i w₁ o at hb
  have hsame : Mono w₁ w₂ ∧ w₂.reader = none ∧ w₂.inbound = w₁.inbound ∧
      (o = .stopReader → w₂.readerDone = true) := by
    obtain rfl | rfl := ho <;> cases List.mem_singleton.1 hb <;>
      exact ⟨{ Mono.refl w₁ with }, rfl, rfl, by simp⟩
  obtain ⟨hm, hnone, hin, hstop⟩ := hsame
  refine ⟨0, fun _ _ _ hd hx => ?_, fun j hj => ⟨hm, ?_, fun hj' => ?_⟩, fun w₃ hw₃ => ⟨rfl, ?_⟩⟩
  · obtain rfl | rfl := ho
    · have hx : w₁.clientReset x := by simpa [World.clientReset, hin] using hx
      exact ((kept_rely hw (hkept rfl)).2 hx).1.mono hm
    · simp [hstop rfl] at hd
  · simp [hr, hnone, Ne.symm hj]
  · exact absurd (Option.some.inj (hr.symm.trans hj')) (Ne.symm hj)
  · exact fun hr' => by simp [hw₃.2.1.2 hr'] at hnone

theorem turn_ending : Ending (spec env G x) i (Turn i l) where
  rely hw h := h.rely hw
  step ho := ⟨under (fun hw h => h.rely hw) (kind_ne_reader ho) fun _ _ => pre_of_tag (ne_of_notMem ho),
    mild (kind_ne_reader ho)⟩
  stopReader h := safe_ending (.inr rfl) h (by simp)

section Methods

theorem kept_ret (r : α) : (spec env G x).Keeps i (Kept x i l s) (.ret r) :=
  Spec.keeps_ret kept_rely r

theorem kept_op {o : Op β} {k : β → M α} (ho : o.tag ∉ resetSteps)
    (hk : ∀ b, (spec env G x).Keeps i (Kept x i l s) (k b)) :
    (spec env G x).Keeps i (Kept x i l s) (.op o k) :=
  (under kept_rely (kind_ne_reader ho) fun _ _ => pre_of_tag (ne_of_notMem ho)).keeps kept_rely hk

theorem kept_write {k : Bool → M α} (code : ErrCode)
    (hk : ∀ b, (spec env G x).Keeps i (Kept x i l (some y)) (k b)) :
    (spec env G x).Keeps i (Kept x i l (some y)) (.op (.write (.rstStream y code)) k) := by
  refine (under kept_rely (by simp +decide) fun w h f hf _ hx => ?_).keeps kept_rely hk
  cases hf
  simpa [Outbound.resets] using (h.2 hx).2

theorem done_keeps {P : World → Prop} (hP : ∀ {w w'}, (spec env G x).rely i w w' → P w → P w')
    (y : Nat) : (spec env G x).Keeps i P (markStreamDone y) := by
  refine Spec.keeps_of_all hP (Prog.All.mono (fun _ ho => ?_) (markStreamDone_uses y))
  have hk := (by decide : ∀ t ∈ doneSteps, t.kind ≠ .reader) _ ho
  exact ⟨under hP hk fun _ _ => pre_of_tag (done_ne ho), mild hk⟩

theorem writeServerRSTStream_kept (y : Nat) (code : ErrCode) :
    (spec env G x).Keeps i (Kept x i l (some y)) (writeServerRSTStream y code) := by
  simp only [writeServerRSTStream, Prog.bind_eq, Prog.lift_bind, Prog.pure_eq]
  refine kept_op (by simp [resetSteps]) fun _ => kept_op (by simp [resetSteps]) fun closed => ?_
  split
  · exact (done_keeps kept_rely y).bind fun _ => kept_ret _
  · exact kept_op (by simp [resetSteps]) fun _ => kept_write code fun _ =>
      (done_keeps kept_rely y).bind fun _ => kept_op (by simp [resetSteps]) fun _ => kept_ret _

theorem writeRSTStreamID_kept (y : Nat) (code : ErrCode) :
    (spec env G x).Keeps i (Kept x i l (some y)) (writeRSTStreamID y code) := by
  simp only [writeRSTStreamID, writeLocked, Prog.bind_eq, Prog.lift_bind, Prog.pure_eq]
  refine kept_op (by simp [resetSteps]) fun closed => ?_
  split
  · exact kept_ret _
  refine kept_op (by simp [resetSteps]) fun live => ?_
  split
  · exact kept_op (by simp [resetSteps]) fun _ => kept_op (by simp [resetSteps]) fun _ =>
      kept_write code fun _ => (done_keeps kept_rely y).bind fun _ =>
        kept_op (by simp [resetSteps]) fun _ => kept_ret _
  · exact kept_op (by simp [resetSteps]) fun _ => kept_write code fun _ =>
      kept_op (by simp [resetSteps]) fun _ => kept_ret _

theorem push_keeps {P : World → Prop} (hP : ∀ {w w'}, (spec env G x).rely i w w' → P w → P w')
    (y : Nat) (e : StreamEvent) : (spec env G x).Keeps i P (push y e) := by
  have hop {α β : Type} {o : Op β} {k : β → M α} (ho : o.tag ∉ resetSteps)
      (hk : ∀ b, (spec env G x).Keeps i P (k b)) : (spec env G x).Keeps i P (.op o k) :=
    (under hP (kind_ne_reader ho) fun _ _ => pre_of_tag (ne_of_notMem ho)).keeps hP hk
  simp only [push, Prog.bind_eq, Prog.lift_bind, Prog.pure_eq]
  refine hop (by simp [resetSteps]) fun sent => ?_
  split
  · exact Spec.keeps_ret hP _
  refine hop (by simp [resetSteps]) fun before => ?_
  split
  · exact Spec.keeps_ret hP _
  · refine fun w h => ⟨0, 0, rfl, fun j w' _ hf => ?_, ?_⟩
    · refine Spec.Proper.bind (Spec.proper_of_all ?_) (fun _ => Spec.proper_ret _) j w' hf
      refine Prog.All.mono (fun _ ho => mild ?_) (writeServerRSTStream_uses y .internalError)
      exact (by decide : ∀ t ∈ rstSteps, t.kind ≠ .reader) _ ho
    · exact hop (by simp [resetSteps]) (fun _ => Spec.keeps_ret hP _) w h

end Methods

theorem resetting : Resetting (spec env G x) i (Kept x i l) where
  rely := kept_rely
  weaken h := h.weaken
  step ho := ⟨under kept_rely (kind_ne_reader ho) fun _ _ => pre_of_tag (ne_of_notMem ho),
    mild (kind_ne_reader ho)⟩
  found _ hy h := by
    refine ⟨h.1, fun hx => ⟨(h.2 hx).1, ?_⟩⟩
    rintro ⟨⟩
    exact (h.2 hx).1.2 hy
  admitted hok hb h h' := by
    refine ⟨h'.1, fun hx => ⟨(h'.2 hx).1, ?_⟩⟩
    rintro ⟨⟩
    have hidle := tabled_asks hok.1
    have hx := h.1.clientReset.2 (h'.1.clientReset.1 hx)
    simp [(h.2 hx).1.1] at hidle
  rst := writeServerRSTStream_kept
  push y e := push_keeps kept_rely y e
  frameDone h := safe_ending (.inl rfl) h.1 fun _ => h
  stopReader h := safe_ending (.inr rfl) h.1 (by simp)

theorem answered {f : Inbound} (hf : ∀ ty err, f = .rejected ty x err →
    (GoErr.codec err).streamCode ≠ none → ¬∃ f ∈ l, f.resets x = true) :
    Resetting.Answered (spec env G x) i (Kept x i l) f := by
  intro ty y err code w hty hcode h _
  have hy : Kept x i l (some y) w := by
    refine ⟨h.1, fun hx => ⟨(h.2 hx).1, ?_⟩⟩
    rintro ⟨⟩
    exact hf ty err hty (by simp [hcode]) (h.1.clientReset.1 hx)
  exact (writeRSTStreamID_kept y code w hy).mono fun _ _ _ h => ⟨h.1, h.2.weaken⟩

def Dealt (x i : Nat) (l : List Inbound) (r : Except GoErr Unit) (_ : PUnit) (w : World) : Prop :=
  Turn i l w ∧ (r = .ok () → Kept x i l none w)

variable (x i l) in
def Used (w : World) : Prop := Turn i l w ∧ w.idle x = false

theorem Used.rely (hw : (spec env G x).rely i w w') (h : Used x i l w) : Used x i l w' :=
  ⟨h.1.rely hw, hw.1.idle x h.2⟩

theorem used_op {o : Op β} (ho : o.tag ∉ resetSteps) : (spec env G x).Under i (Used x i l) o :=
  under Used.rely (kind_ne_reader ho) fun _ _ => pre_of_tag (ne_of_notMem ho)

theorem done_dead (h : Used x i l w) :
    (spec env G x).Safe i (markStreamDone x) 0 (fun _ _ w => Kept x i l none w) w := by
  refine (used_op (by simp [resetSteps])).safe_op Used.rely h fun w₁ released w₂ _ _ hok hb h₂ => ?_
  change (released, w₂) ∈ Op.exec env i w₁ (.release x) at hb
  have hdead : Kept x i l none w₂ :=
    ⟨h₂.1, fun _ => ⟨⟨h₂.2, notMem_of_release (tabled_table hok.1) hb⟩, by simp⟩⟩
  dsimp only [Prog.ret_bind]
  split
  · exact (kept_op (by simp [resetSteps]) kept_ret w₂ hdead).mono fun _ _ _ h => h.2
  · exact fun _ hw => kept_rely hw hdead

theorem onRSTStream_safe (h : Turn i l w) (code : ErrCode) :
    (spec env G x).Safe i (onRSTStream env x code) 0 (Dealt x i l) w := by
  have hturn {w w' : World} (hw : (spec env G x).rely i w w') (h : Turn i l w) : Turn i l w' :=
    h.rely hw
  have herror {e : GoErr} {w : World} (h : Turn i l w) :
      (spec env G x).Safe i (.ret (.error e)) 0 (Dealt x i l) w :=
    fun w' hw => ⟨h.rely hw, fun h => by cases h⟩
  have hend {w : World} (rapid) (h : Kept x i l none w) :
      (spec env G x).Safe i (onClientRSTStream env rapid) 0 (Dealt x i l) w :=
    (resetting.onClientRSTStream rapid w h).mono fun _ _ _ h => ⟨h.2.1, fun _ => h.2⟩
  simp only [onRSTStream, guardHeaderBlock, protocolError, markRemoteEndReset, Prog.bind_eq,
    Prog.lift_bind, Prog.op_bind, Prog.pure_eq, Prog.ret_bind]
  refine (turn_ending.step (by simp [resetSteps])).1.safe_op hturn h fun _ hd w₁ _ _ _ _ h₁ => ?_
  split
  · exact herror h₁
  refine (turn_ending.step (by simp [resetSteps])).1.safe_op hturn h₁ fun w₂ idle w₃ _ _ _ hb h₃ => ?_
  split
  · exact herror h₃
  rename_i hidle
  have hidle : w₃.idle x = false := by
    simp only [Op.exec, Op.underTable] at hb
    split at hb
    · cases List.mem_singleton.1 hb
      simpa using hidle
    · cases hb
  refine (used_op (by simp [resetSteps])).safe_op Used.rely ⟨h₃, hidle⟩ fun w₄ live w₅ _ _ _ hb h₅ => ?_
  change (live, w₅) ∈ Op.exec env i w₄ (.lookup x) at hb
  obtain ⟨rfl, rfl⟩ := lookup_exec hb
  split
  · rename_i hl
    exact hend _ ⟨h₅.1, fun _ => ⟨⟨h₅.2, by simpa using hl⟩, by simp⟩⟩
  refine (used_op (by simp [resetSteps])).safe_op Used.rely h₅ fun _ before w₆ _ _ _ _ h₆ => ?_
  refine Spec.Safe.bind ((push_keeps Used.rely x _ w₆ h₆).mono ?_)
  rintro _ _ w₇ ⟨rfl, h₇⟩
  exact Spec.Safe.bind ((done_dead h₇).mono fun _ _ _ h => hend _ h)

theorem resetRound_safe (h : Turn i l w) (code : ErrCode) :
    (spec env G x).Safe i (.op .isEstablished fun established =>
      if established then readerStep env (.rstStream x code)
      else handshakeStep env (.rstStream x code)) 0 ((spec env G x).Done i) w := by
  have hend {w : World} (established : Bool) (h : Turn i l w) :
      (spec env G x).Safe i ((onRSTStream env x code).bind
        (turnEnd env established (.rstStream x code))) 0 ((spec env G x).Done i) w := by
    refine Spec.Safe.bind (((onRSTStream_safe h code).returns answers_of_exec
      (onRSTStream_sober env x code)).mono ?_)
    rintro r ⟨⟩ w' ⟨h', hr⟩
    cases r with
    | error e => exact turn_ending.turnEnd established (hr e rfl) h'.1
    | ok _ =>
      refine resetting.turnEnd (answered ?_) established (fun e he => by cases he) (h'.2 rfl)
      exact fun _ _ h => by cases h
  refine (turn_ending.step (by simp [resetSteps])).1.safe_op (fun hw h => h.rely hw) h
    fun _ established w' _ _ _ _ h' => ?_
  cases established with
  | true => exact hend true h'
  | false => exact hend false h'

def Unblamed (G : Guard Op World Call) (x : Nat) : Prop :=
  ∀ i w ty err, G.opOk i w (.readFrame (.rejected ty x err)) →
    (GoErr.codec err).streamCode ≠ none → ¬w.clientReset x

theorem serveFrame_safe (hG : Unblamed G x) (f : Inbound) :
    (spec env G x).Safe i (serveFrame env f) 0 ((spec env G x).Done i) w := by
  refine fun w₁ _ ⟨_, hinv⟩ hok => ⟨pre_of_tag (by simp), fun b w₂ hb => ?_⟩
  change (b, w₂) ∈ Op.exec env i w₁ (.readFrame f) at hb
  have hm := mono_of_exec hok.1 hb
  obtain ⟨hfree, hdone, hview⟩ := readFrame_exec hb
  simp only [World.readerView, Prod.mk.injEq] at hview
  have hturn : Turn i (w₁.inbound ++ [f]) w₂ := ⟨hview.1, hview.2.2.2.2⟩
  refine ⟨0, fun _ _ hr => (by simp [hview.1] at hr), fun j hj => ⟨hm, ?_, fun hr => ?_⟩, ?_⟩
  · simp [hfree, hview.1, Ne.symm hj]
  · simp [hfree] at hr
  by_cases hf : f.resets x = true
  · cases f <;> simp only [Inbound.resets, reduceCtorEq, decide_eq_true_eq] at hf
    subst hf
    exact resetRound_safe hturn _
  · have hreset : (∃ g ∈ w₁.inbound ++ [f], g.resets x = true) ↔ w₁.clientReset x := by
      simp [World.clientReset, hf, or_and_right, exists_or]
    refine resetting.round (answered fun ty err hty hcode => ?_) ⟨hturn, fun hx => ⟨?_, by simp⟩⟩
    · rw [hreset]
      exact hG i w₁ ty err (hty ▸ tabled_guard hok.1) hcode
    · exact (hinv hfree hdone (hreset.1 (hturn.clientReset.1 hx))).mono hm

theorem verifies (hG : Unblamed G x) : (spec env G x).Verifies (Call.body env) := by
  refine verifies_of_resets (fun ho => mild (kind_ne_reader ho)) (fun y i w _ hf => ?_)
    fun f i w _ _ => serveFrame_safe hG f
  refine Spec.proper_of_all (Prog.All.mono (fun _ ho => mild ?_)
    (discard_uses (closeStream_uses y))) i w hf
  exact (by decide : ∀ t ∈ rstSteps, t.kind ≠ .reader) _ ho

end Silent

end PoseidonServer.Conn
