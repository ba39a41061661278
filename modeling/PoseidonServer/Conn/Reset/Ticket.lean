import PoseidonServer.Conn.Reset.Once

/-! The goroutine that marks a stream as reset is the one to write its RST_STREAM, the reader apart. -/

namespace PoseidonServer.Conn

open Concurrent Lifecycle

namespace Ticket

/-- The reader writes no RST_STREAM for the stream, unless nothing goes out any more. -/
def hushed (env : Env) (G : Guard Op World Call) (x : Nat) : Guard Op World Call where
  callOk := (lived env G false).callOk
  opOk i w _ o := (lived env G false).opOk i w o ∧
    ∀ f, o.written = some f → f.resets x = true → w.reader = some i → w.down = true

/-- The goroutine that has marked the stream as reset, and is to write its RST_STREAM, holds the
only ticket. -/
structure Inv (x : Nat) (w : World) (t : Nat) : Prop where
  marked : w.rstSent x → (w.state x).reset = true
  le : t ≤ 1
  used : t = 1 → (w.state x).reset = true ∧ ¬w.rstSent x

def spec (env : Env) (G : Guard Op World Call) (x : Nat) : Spec (machine env) (hushed env G x) Nat where
  inv := Inv x
  rely i w w' := Mono w w' ∧ (w.reader = some i → w'.reader = some i)
  rely_refl _ w := ⟨.refl w, id⟩
  rely_trans h₁ h₂ := ⟨h₁.1.trans h₂.1, h₂.2 ∘ h₁.2⟩

variable {env : Env} {G : Guard Op World Call} {x : Nat} {i : Nat} {w w' : World} {s : Option Nat}
  {y : Nat}

theorem Inv.mono {t t' : Nat} (h : Inv x w t) (hm : Mono w w') (hrst : w'.rstSent x ↔ w.rstSent x)
    (ht : t' ≤ t) : Inv x w' t' where
  marked hs := (hm.state x).reset (h.marked (hrst.1 hs))
  le := ht.trans h.le
  used ht' := by
    obtain ⟨hreset, hsent⟩ := h.used (by have := h.le; omega)
    exact ⟨(hm.state x).reset hreset, fun hs => hsent (hrst.1 hs)⟩

theorem Inv.take (h : Inv x w 0) (hreset : (w.state x).reset = false)
    (hrst : w'.rstSent x ↔ w.rstSent x) (hreset' : (w'.state x).reset = true) : Inv x w' 1 where
  marked _ := hreset'
  le := le_rfl
  used _ := ⟨hreset', fun hs => by simp [h.marked (hrst.1 hs)] at hreset⟩

theorem Inv.of_unmarked {t : Nat} (h : Inv x w t) (hreset : (w.state x).reset = false) : t = 0 := by
  have hle := h.le
  by_contra ht
  simp [(h.used (by omega)).1] at hreset

variable (x) in
def Light (o : Op β) : Prop := ∀ f, o.written = some f → f.resets x = false

theorem light_of_tag {o : Op β} (ho : o.tag ≠ .write .rstStream) : Light x o :=
  fun _ hf => resets_of_tag ho hf x

theorem step {o : Op β} {b : β} (ho : Light x o ∨ w.reader = some i)
    (hok : (hushed env G x).opOk i w o) (hb : (b, w') ∈ o.exec env i w) :
    Mono w w' ∧ (w'.rstSent x ↔ w.rstSent x) ∧ ∀ j, j ≠ i → (spec env G x).rely j w w' := by
  have hm := mono_of_exec hok.1.1 hb
  refine ⟨hm, ?_, fun j hj => ⟨hm, fun hr => ?_⟩⟩
  · by_cases ht : o.tag = .write .rstStream
    · cases o <;> simp only [Op.tag, reduceCtorEq] at ht
      case write f =>
        rw [rstSent_write hb]
        refine or_iff_left fun ⟨hsent, hx⟩ => ?_
        have hdown : w.down = true := by
          obtain ho | hr := ho
          · simp [ho f rfl] at hx
          · exact hok.2 f rfl hx hr
        obtain ⟨hno, -⟩ | ⟨-, hup, -⟩ := write_exec hb
        · simp [hno] at hsent
        · simp [hup] at hdown
    · exact rstSent_of_exec ht hb x
  · obtain ⟨hd, hof, hall⟩ := tabled_held hok.1.1
    exact Held.reader_other hj hof hall hb hr

theorem safe_op {o : Op β} {k : β → M α} {Q : α → Nat → World → Prop} {g : Nat} (ho : Light x o)
    (hk : ∀ w₁ b w₂, Mono w w₁ → (hushed env G x).opOk i w₁ o → (b, w₂) ∈ o.exec env i w₁ →
      Mono w w₂ → ∃ g' ≤ g, (spec env G x).Safe i (k b) g' Q w₂) :
    (spec env G x).Safe i (.op o k) g Q w := by
  refine fun w₁ hw _ hok => ⟨trivial, fun b w₂ hb => ?_⟩
  obtain ⟨hm, hrst, hrely⟩ := step (.inl ho) hok hb
  obtain ⟨g', hg, hk⟩ := hk w₁ b w₂ hw.1 hok hb (hw.1.trans hm)
  exact ⟨g', fun r hr => Inv.mono hr hm hrst (by omega), hrely, hk⟩

theorem mild {o : Op β} (ho : Light x o) : (spec env G x).Mild o := by
  refine fun i w t h _ hok => ⟨trivial, fun b w' hb => ?_⟩
  obtain ⟨hm, hrst, hrely⟩ := step (.inl ho) hok hb
  exact ⟨Inv.mono h hm hrst le_rfl, hrely, trivial⟩

def Kept (i : Nat) (s : Option Nat) (w : World) : Prop := w.reader = some i ∧ Known s w

theorem kept_rely (hw : (spec env G x).rely i w w') (h : Kept i s w) : Kept i s w' :=
  ⟨hw.2 h.1, h.2.mono hw.1⟩

theorem rely_of_exec {o : Op β} {b : β} (ho : o.tag.kind ≠ .reader)
    (hok : (hushed env G x).opOk i w o) (hb : (b, w') ∈ o.exec env i w) :
    (spec env G x).rely i w w' := by
  have hturn := (frame_of_tag hb).turn ho
  simp only [World.turnView, Prod.mk.injEq] at hturn
  exact ⟨mono_of_exec hok.1.1 hb, fun hr => hturn.1.trans hr⟩

theorem under {P : World → Prop} (hP : ∀ {w w'}, (spec env G x).rely i w w' → P w → P w')
    (hr : ∀ w, P w → w.reader = some i) {o : Op β} (ho : o.tag.kind ≠ .reader) :
    (spec env G x).Under i P o := by
  refine fun w t h hp hok => ⟨trivial, fun b w' hb => ?_⟩
  obtain ⟨hm, hrst, hrely⟩ := step (.inr (hr w hp)) hok hb
  exact ⟨Inv.mono h hm hrst le_rfl, hrely, hP (rely_of_exec ho hok hb) hp⟩

theorem kept_under {o : Op β} (ho : o.tag.kind ≠ .reader) :
    (spec env G x).Under i (Kept i s) o := under kept_rely (fun _ h => h.1) ho

section Methods

theorem done_light (y : Nat) : (markStreamDone y).All fun o => Light x o :=
  Prog.All.mono (fun _ ho => light_of_tag (done_ne ho)) (markStreamDone_uses y)

theorem done_proper (y : Nat) : (spec env G x).Proper (markStreamDone y) :=
  Spec.proper_of_all ((done_light y).mono fun _ ho => mild ho)

theorem unlock_proper (y : Nat) (r : α) : (spec env G x).Proper
    ((markStreamDone y).bind fun _ => .op .unlockW fun _ => .ret r) :=
  .bind (done_proper y) fun _ => .op (mild (light_of_tag (by simp))) fun _ => Spec.proper_ret r

theorem writeServerRSTStream_ticket (code : ErrCode) :
    (spec env G x).Safe i (writeServerRSTStream x code) 1 ((spec env G x).Done i) w := by
  simp only [writeServerRSTStream, Prog.bind_eq, Prog.lift_bind, Prog.pure_eq]
  refine safe_op (light_of_tag (by simp)) fun _ _ w₁ _ _ _ _ => ⟨1, le_rfl, ?_⟩
  refine safe_op (light_of_tag (by simp)) fun _ closed w₂ _ _ _ _ => ?_
  split
  · exact ⟨0, zero_le_one, (done_proper x).bind (fun _ => Spec.proper_ret _) i w₂ trivial⟩
  refine ⟨1, le_rfl, safe_op (light_of_tag (by simp)) fun _ _ w₃ _ _ _ _ => ⟨1, le_rfl, ?_⟩⟩
  refine fun w₄ _ _ hok => ⟨trivial, fun ok w₅ hb => ?_⟩
  change (ok, w₅) ∈ Op.exec env i w₄ (.write (.rstStream x code)) at hb
  have hm := mono_of_exec hok.1.1 hb
  refine ⟨0, fun r hr => ?_, fun j hj => ⟨hm, fun hr => ?_⟩, unlock_proper x _ i w₅ trivial⟩
  · have hr : Inv x w₄ (1 + r) := hr
    have hle := hr.le
    exact
      { marked := fun _ => (hm.state x).reset (hr.used (by omega)).1
        le := by omega
        used := fun h => by omega }
  · obtain ⟨hd, hof, hall⟩ := tabled_held hok.1.1
    exact Held.reader_other hj hof hall hb hr

theorem light_rst (hy : y ≠ x) (code : ErrCode) : Light x (.write (.rstStream y code)) := by
  rintro _ ⟨⟩
  simpa [Outbound.resets] using hy

theorem writeServerRSTStream_light (hy : y ≠ x) (code : ErrCode) :
    (writeServerRSTStream y code).All fun o => Light x o := by
  have hdone := done_light (x := x) y
  have hrst := light_rst hy code
  simp only [writeServerRSTStream, Prog.bind_eq, Prog.lift_bind, Prog.pure_eq]
  refine ⟨light_of_tag (by simp), fun _ => ⟨light_of_tag (by simp), fun closed => ?_⟩⟩
  dsimp only
  split
  · exact hdone.bind fun _ => trivial
  · refine ⟨light_of_tag (by simp), fun _ => ⟨hrst, fun _ => hdone.bind fun _ => ?_⟩⟩
    exact ⟨light_of_tag (by simp), fun _ => trivial⟩

theorem kept_ret (r : α) : (spec env G x).Keeps i (Kept i s) (.ret r) := Spec.keeps_ret kept_rely r

theorem kept_op {o : Op β} {k : β → M α} (ho : o.tag.kind ≠ .reader)
    (hk : ∀ b, (spec env G x).Keeps i (Kept i s) (k b)) :
    (spec env G x).Keeps i (Kept i s) (.op o k) := (kept_under ho).keeps kept_rely hk

theorem done_kept (y : Nat) : (spec env G x).Keeps i (Kept i s) (markStreamDone y) :=
  Spec.keeps_of_all kept_rely (Prog.All.mono (fun _ ho =>
    ⟨kept_under ((by decide : ∀ t ∈ doneSteps, t.kind ≠ .reader) _ ho),
      mild (light_of_tag (done_ne ho))⟩)
    (markStreamDone_uses y))

theorem writeServerRSTStream_kept (y : Nat) (code : ErrCode) :
    (spec env G x).Keeps i (Kept i s) (writeServerRSTStream y code) := by
  simp only [writeServerRSTStream, Prog.bind_eq, Prog.lift_bind, Prog.pure_eq]
  refine kept_op (by simp +decide) fun _ => kept_op (by simp +decide) fun closed => ?_
  split
  · exact (done_kept y).bind fun _ => kept_ret _
  · exact kept_op (by simp +decide) fun _ => kept_op (by simp +decide) fun _ =>
      (done_kept y).bind fun _ => kept_op (by simp +decide) fun _ => kept_ret _

theorem writeRSTStreamID_kept (y : Nat) (code : ErrCode) :
    (spec env G x).Keeps i (Kept i s) (writeRSTStreamID y code) := by
  simp only [writeRSTStreamID, writeLocked, Prog.bind_eq, Prog.lift_bind, Prog.pure_eq]
  refine kept_op (by simp +decide) fun closed => ?_
  split
  · exact kept_ret _
  refine kept_op (by simp +decide) fun live => ?_
  split
  · exact kept_op (by simp +decide) fun _ => kept_op (by simp +decide) fun _ =>
      kept_op (by simp +decide) fun _ => (done_kept y).bind fun _ =>
        kept_op (by simp +decide) fun _ => kept_ret _
  · exact kept_op (by simp +decide) fun _ => kept_op (by simp +decide) fun _ =>
      kept_op (by simp +decide) fun _ => kept_ret _

theorem safe_mark {k : StreamState → M α} {Q : α → Nat → World → Prop} (hx : w.created x)
    (hk : ∀ before w', (spec env G x).rely i w w' →
      ∃ g' ≤ (if before.reset then 0 else 1), (spec env G x).Safe i (k before) g' Q w') :
    (spec env G x).Safe i (.op (.advance x { reset := true }) k) 0 Q w := by
  refine fun w₁ hw _ hok => ⟨trivial, fun before w₂ hb => ?_⟩
  change (before, w₂) ∈ Op.exec env i w₁ (.advance x { reset := true }) at hb
  have hlight : Light x (.advance x { reset := true }) := light_of_tag (by simp)
  obtain ⟨hm, hrst, hrely⟩ := step (.inl hlight) hok hb
  obtain ⟨rfl, hstate⟩ := advance_exec hb (hw.1.created x hx)
  have hreset : (w₂.state x).reset = true := by simp [hstate, StreamState.union]
  have hown := rely_of_exec (by simp +decide) hok hb
  obtain ⟨g', hg, hk⟩ := hk _ w₂ ((spec env G x).rely_trans hw hown)
  refine ⟨g', fun r hr => ?_, hrely, hk⟩
  have hr : Inv x w₁ r := zero_add r ▸ hr
  split at hg
  · exact hr.mono hm hrst (by omega)
  · rename_i hno
    have hno : (w₁.state x).reset = false := by simpa using hno
    obtain rfl := hr.of_unmarked hno
    exact (hr.take hno hrst hreset).mono (.refl w₂) Iff.rfl (by omega)

theorem push_kept (y : Nat) (e : StreamEvent) :
    (spec env G x).Keeps i (Kept i (some y)) (push y e) := by
  have hrest : (spec env G x).Keeps i (Kept i (some y))
      (.op (.trySend y (.reset .internalError)) fun _ => .ret ()) :=
    kept_op (by simp +decide) fun _ => kept_ret _
  simp only [push, Prog.bind_eq, Prog.lift_bind, Prog.pure_eq]
  refine kept_op (kind_ne_reader (by simp [resetSteps])) fun sent => ?_
  split
  · exact kept_ret _
  by_cases hy : y = x
  · subst hy
    refine fun w h => safe_mark (h.2 y rfl) fun before w' hw => ?_
    have h' := kept_rely hw h
    split
    · exact ⟨0, le_rfl, kept_ret _ w' h'⟩
    · refine ⟨1, le_rfl, 1, 0, rfl, fun j w'' _ _ => ?_, hrest w' h'⟩
      exact Spec.Safe.bind ((writeServerRSTStream_ticket _).mono fun _ _ _ h _ _ => h)
  · refine kept_op (by simp +decide) fun before => ?_
    split
    · exact kept_ret _
    · refine fun w h => ⟨0, 0, rfl, fun j w' _ _ => ?_, hrest w h⟩
      refine Spec.Proper.bind (Spec.proper_of_all ?_) (fun _ => Spec.proper_ret _) j w' trivial
      exact (writeServerRSTStream_light hy _).mono fun _ ho => mild ho

theorem closeStream_safe (hy : w.created y) :
    (spec env G x).Safe i (closeStream y) 0 ((spec env G x).Done i) w := by
  simp only [closeStream, Prog.bind_eq, Prog.lift_bind, Prog.pure_eq]
  by_cases hyx : y = x
  · subst hyx
    refine safe_mark hy fun before w' hw => ?_
    by_cases hterm : before.terminal = true
    · rw [if_pos hterm]
      exact ⟨0, Nat.zero_le _, fun _ _ => ⟨rfl, trivial⟩⟩
    · have hreset : before.reset = false := by
        simp only [StreamState.terminal, Bool.or_eq_true, not_or, Bool.not_eq_true] at hterm
        exact hterm.1
      rw [if_neg hterm, hreset]
      exact ⟨1, le_rfl, writeServerRSTStream_ticket _⟩
  · refine safe_op (light_of_tag (by simp)) fun _ before w' _ _ _ _ => ⟨0, le_rfl, ?_⟩
    split
    · exact fun _ _ => ⟨rfl, trivial⟩
    · exact Spec.proper_of_all ((writeServerRSTStream_light hyx _).mono fun _ ho => mild ho) i w' trivial

end Methods

theorem resetting : Resetting (spec env G x) i (Kept i) where
  rely := kept_rely
  weaken h := ⟨h.1, fun _ h => by cases h⟩
  step ho := ⟨kept_under (kind_ne_reader ho), mild (light_of_tag (ne_of_notMem ho))⟩
  found hok hx h := by
    refine ⟨h.1, fun y hy => ?_⟩
    cases hy
    exact (tabled_table hok.1.1).live _ hx
  admitted hok hb _ h := by
    refine ⟨h.1, fun y hy => ?_⟩
    cases hy
    obtain ⟨h, -, -, hodd⟩ := tabled_held hok.1.1
    exact ((tabled_table hok.1.1).admitClient hodd (tabled_asks hok.1.1) hb).2.1
  rst y code := writeServerRSTStream_kept y code
  push := push_kept
  frameDone _ := safe_op (light_of_tag (by simp)) fun _ _ _ _ _ _ _ =>
    ⟨0, le_rfl, fun _ _ => ⟨rfl, trivial⟩⟩
  stopReader _ := safe_op (light_of_tag (by simp)) fun _ _ _ _ _ _ _ =>
    ⟨0, le_rfl, fun _ _ => ⟨rfl, trivial⟩⟩

theorem answered (f : Inbound) : Resetting.Answered (spec env G x) i (Kept i) f :=
  fun _ y _ code w _ _ h _ => writeRSTStreamID_kept y code w h

theorem push_marked (e : StreamEvent) : (spec env G x).Keeps i
    (fun w => Kept i (some x) w ∧ (w.state x).reset = true) (push x e) := by
  have hrely {w w' : World} (hw : (spec env G x).rely i w w')
      (h : Kept i (some x) w ∧ (w.state x).reset = true) :
      Kept i (some x) w' ∧ (w'.state x).reset = true :=
    ⟨kept_rely hw h.1, (hw.1.state x).reset h.2⟩
  have hops {β : Type} {o : Op β} (ho : o.tag ∉ resetSteps) :=
    under (G := G) (x := x) hrely (fun _ h => h.1.1) (kind_ne_reader ho)
  simp only [push, Prog.bind_eq, Prog.lift_bind, Prog.pure_eq]
  refine (hops (by simp [resetSteps])).keeps hrely fun sent => ?_
  split
  · exact Spec.keeps_ret hrely _
  intro w h
  refine (hops (by simp [resetSteps])).safe_op hrely h fun w₁ before w₂ _ h₁ _ hb h₂ => ?_
  change (before, w₂) ∈ Op.exec env i w₁ (.advance x { reset := true }) at hb
  obtain ⟨rfl, -⟩ := advance_exec hb (h₁.1.2 x rfl)
  rw [if_pos h₁.2]
  exact Spec.keeps_ret hrely _ w₂ h₂

theorem recorded_safe (h : Kept i (some x) w) (hreset : (w.state x).reset = true) (code : ErrCode)
    (rapid established : Bool) : (spec env G x).Safe i ((push x (.reset code)).bind fun _ =>
      (markStreamDone x).bind fun _ => (onClientRSTStream env rapid).bind
        (turnEnd env established (.rstStream x code))) 0 ((spec env G x).Done i) w := by
  refine Spec.Safe.bind ((push_marked _ w ⟨h, hreset⟩).mono ?_)
  rintro _ _ w₁ ⟨rfl, h₁, -⟩
  refine Spec.Safe.bind ((done_kept x w₁ h₁).mono ?_)
  rintro _ _ w₂ ⟨rfl, h₂⟩
  refine Spec.Safe.bind (((resetting.onClientRSTStream rapid w₂ h₂).returns answers_of_exec
    (onClientRSTStream_sober env rapid)).mono ?_)
  rintro r _ w₃ ⟨⟨rfl, h₃⟩, hr⟩
  exact resetting.turnEnd (answered _) established (fun e he _ hne => absurd (hr e he) hne) h₃

theorem init_inv (env : Env) (x : Nat) : Inv x (World.init env) 0 where
  marked h := by simp [World.rstSent, World.init, Outbound.resets] at h
  le := zero_le_one
  used h := by cases h

theorem verifies (hG : Fresh env G) : (spec env G x).Verifies (Call.body env) := by
  refine verifies_of_resets (fun ho => mild (light_of_tag (ne_of_notMem ho)))
    (fun y i w hq _ => ?_) fun f i w _ _ => ?_
  · have ht : Table w := hq.1.2.elim fun _ h => h
    refine Spec.Safe.bind ((closeStream_safe (created_of_held ht (hG.call w _ hq.1.1))).mono ?_)
    exact fun _ _ _ h _ _ => h
  · refine safe_op (light_of_tag (by simp)) fun w₁ _ w₂ _ _ hb _ => ⟨0, le_rfl, ?_⟩
    obtain ⟨-, -, hview⟩ := readFrame_exec hb
    simp only [World.readerView, Prod.mk.injEq] at hview
    exact resetting.round (answered f) ⟨hview.1, fun _ h => by cases h⟩

theorem pool_framed {c : Config Op World} {p q : M Unit} (h : (spec env G x).Pool c)
    (hi : c.threads[i]? = some p) (hreset : (c.shared.state x).reset = false)
    (hmarked : (w.state x).reset = true) (hrst : w.rstSent x ↔ c.shared.rstSent x)
    (hrely : ∀ j, j ≠ i → (spec env G x).rely j c.shared w)
    (hq : (spec env G x).Safe i q 0 ((spec env G x).Done i) w) :
    ((spec env G x).framed 1).Pool ⟨w, c.threads.set i q⟩ := by
  obtain ⟨share, hsafe, -, hinv⟩ := h
  have hinv : Inv x c.shared _ := hinv
  have hzero := hinv.of_unmarked hreset
  rw [hzero] at hinv
  refine ⟨Function.update share i 0, Spec.pool_set (S := (spec env G x).framed 1) hi
    (fun j p hp => (hsafe j p hp).framed 1) hrely (hq.framed 1), fun _ _ => trivial, ?_⟩
  obtain ⟨r, hr, hr'⟩ := Spec.sum_update (f := share) (List.getElem?_eq_some_iff.1 hi).1 0
  have hr : r = 0 := by omega
  rw [List.length_set, hr', hr]
  exact hinv.take hreset hrst hmarked

end Ticket

end PoseidonServer.Conn
