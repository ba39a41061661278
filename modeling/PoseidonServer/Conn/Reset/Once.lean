import PoseidonServer.Conn.InForce.Spec
import PoseidonServer.Conn.Lifecycle.Runs
import PoseidonServer.Conn.Reset.Paths

/-! Whoever takes the write lock finds no registered stream whose RST_STREAM has gone out, so it goes
out at most once for each. -/

namespace PoseidonServer.Conn

open Concurrent Lifecycle

section Common

variable {env : Env} {G : Guard Op World Call} {γ : Type} [AddCommMonoid γ]

theorem verifies_of_resets {S : Spec (machine env) G γ}
    (hmild : ∀ {β} {o : Op β}, o.tag ∉ resetSteps → S.Mild o)
    (hclose : ∀ x i w, G.callOk w (.close x) → S.fin i w →
      S.Safe i (discard (closeStream x)) 0 (S.Done i) w)
    (hframe : ∀ f i w, G.callOk w (.frame f) → S.fin i w →
      S.Safe i (serveFrame env f) 0 (S.Done i) w) : S.Verifies (Call.body env) := by
  intro q i w hq _ hf
  have hrest {l : List Tag} {p : M Unit} (hp : Uses l p) (hl : ∀ t ∈ l, t ∉ resetSteps) :
      S.Safe i p 0 (S.Done i) w :=
    Spec.proper_of_all (Prog.All.mono (fun _ ho => hmild (hl _ ho)) hp) i w hf
  cases q with
  | frame f => exact hframe f i w hq hf
  | close x => exact hclose x i w hq hf
  | recv x ctx =>
    refine hrest (Call.body_uses env (by simp)) ?_
    by_cases hx : x = 0 <;> simp +decide [Call.steps, Outbound.tag, hx]
  | _ =>
    refine hrest (Call.body_uses env (by simp)) ?_
    dsimp only [Call.steps]
    decide

theorem done_ne {t : Tag} (h : t ∈ doneSteps) : t ≠ .write .rstStream :=
  (by decide : ∀ t ∈ doneSteps, t ≠ .write .rstStream) t h

theorem ne_of_notMem {t : Tag} (h : t ∉ resetSteps) : t ≠ .write .rstStream := by
  rintro rfl
  exact h (by simp [resetSteps])

theorem kind_ne_reader {t : Tag} (h : t ∉ resetSteps) : t.kind ≠ .reader := by
  rw [Ne, Tag.kind_reader]
  rintro (rfl | rfl | rfl) <;> exact h (by simp [resetSteps])

def Known (s : Option Nat) (w : World) : Prop := ∀ x, s = some x → w.created x

theorem Known.mono {s : Option Nat} {w w' : World} (h : Known s w) (hm : Mono w w') : Known s w' :=
  fun x hx => hm.created x (h x hx)

theorem resets_of_tag {o : Op β} {f : Outbound} (ho : o.tag ≠ .write .rstStream)
    (hf : o.written = some f) (x : Nat) : f.resets x = false := by
  cases o <;> simp only [Op.written, reduceCtorEq, Option.some.injEq] at hf
  cases hf
  cases f <;> first
    | rfl
    | exact absurd rfl ho

end Common

namespace Once

def Marked (w : World) : Prop := ∀ x ∈ w.live, w.rstSent x → (w.state x).reset = true

def spec (env : Env) (G : Guard Op World Call) : Spec (machine env) (lived env G false) PUnit where
  inv w _ := Marked w
  rely i w w' := Mono w w' ∧
    (w.wmu = some i → w'.wmu = some i ∧ ∀ x, w'.rstSent x → w.rstSent x)
  rely_refl i w := ⟨.refl w, fun h => ⟨h, fun _ => id⟩⟩
  rely_trans h₁ h₂ := by
    refine ⟨h₁.1.trans h₂.1, fun h => ?_⟩
    obtain ⟨hw, hr⟩ := h₁.2 h
    exact ⟨(h₂.2 hw).1, fun x hx => hr x ((h₂.2 hw).2 x hx)⟩
  pre _ w _ o := ∀ f, o.written = some f → ∀ x ∈ w.live, f.resets x = true → ¬w.rstSent x

variable {env : Env} {G : Guard Op World Call} {i : Nat} {w w' : World} {s : Option Nat} {x : Nat}

theorem step {o : Op β} {b : β} (ho : o.tag ≠ .write .rstStream) (h : Marked w)
    (hok : (lived env G false).opOk i w o) (hb : (b, w') ∈ o.exec env i w) :
    Marked w' ∧ Mono w w' ∧ ∀ j, j ≠ i → (spec env G).rely j w w' := by
  have hm := mono_of_exec hok.1 hb
  have hrst := rstSent_of_exec ho hb
  obtain ⟨htabled, -, _, hinv⟩ := hok
  refine ⟨fun x hx hsent => ?_, hm, fun j hj => ⟨hm, fun hw => ⟨?_, fun x => (hrst x).1⟩⟩⟩
  · have hsent := (hrst x).1 hsent
    refine (hm.state x).reset (h x ?_ hsent)
    by_contra hl
    exact hm.gone x (Lifecycle.Inv.rst hinv x hsent).1 hl hx
  · obtain ⟨hd, hof, hall⟩ := tabled_held htabled
    exact Held.write_other hj hof hall hb hw

theorem under {P : World → Prop} (hP : ∀ {w w'}, Mono w w' → P w → P w') {o : Op β}
    (ho : o.tag ≠ .write .rstStream) : (spec env G).Under i P o ∧ (spec env G).Mild o := by
  have hpre (w : World) (f) (hf : o.written = some f) (x) (_ : x ∈ w.live)
      (hx : f.resets x = true) : ¬w.rstSent x := by simp [resets_of_tag ho hf] at hx
  constructor
  · intro w _ h hp hok
    refine ⟨hpre w, fun b w' hb => ?_⟩
    obtain ⟨h', hm, hrely⟩ := step ho h hok hb
    exact ⟨h', hrely, hP hm hp⟩
  · intro i w _ h _ hok
    refine ⟨hpre w, fun b w' hb => ?_⟩
    obtain ⟨h', -, hrely⟩ := step ho h hok hb
    exact ⟨h', hrely, trivial⟩

theorem writeRST_safe {code : ErrCode} {k : Bool → M α} {Q : α → PUnit → World → Prop}
    (hx : w.idle x = false ∧ (x ∈ w.live → (w.state x).reset = true))
    (hk : ∀ ok w', Mono w w' → (spec env G).Safe i (k ok) 0 Q w') :
    (spec env G).Safe i (.op .lockW fun _ => .op (.write (.rstStream x code)) k) 0 Q w := by
  have hready {w' : World} (hm : Mono w w') : x ∈ w'.live → (w'.state x).reset = true := by
    refine fun hl => (hm.state x).reset (hx.2 ?_)
    by_contra hn
    exact hm.gone x hx.1 hn hl
  intro w₁ hw₁ ⟨_, h₁⟩ hok
  refine ⟨fun f hf => (by cases hf), fun b w₂ hb => ?_⟩
  change (b, w₂) ∈ Op.exec env i w₁ .lockW at hb
  obtain ⟨h₂, hm₂, hrely⟩ := step (by simp) h₁ hok hb
  obtain ⟨-, -, _, hinv⟩ := hok
  have hinv : Lifecycle.Inv false w₁ := hinv
  refine ⟨0, fun _ _ => h₂, hrely, ?_⟩
  have hlocked : Locked i w₂ := by
    obtain ⟨hfree, rfl⟩ := mem_whenFree hb
    exact ⟨rfl, fun y hy => ⟨(hinv.rst y hy).1, hinv.gone hfree y hy⟩⟩
  rintro w₃ hw₃ ⟨_, h₃⟩ hok₃
  have h₃ : Marked w₃ := h₃
  obtain ⟨hwmu, hsent⟩ := hw₃.2 hlocked.1
  have hgone (y) (hy : w₃.rstSent y) : y ∉ w₃.live :=
    hw₃.1.gone y (hlocked.2 y (hsent y hy)).1 (hlocked.2 y (hsent y hy)).2
  refine ⟨fun _ _ y hl _ hy => hgone y hy hl, fun ok w₄ hb => ?_⟩
  change (ok, w₄) ∈ Op.exec env i w₃ (.write (.rstStream x code)) at hb
  have hm₄ := mono_of_exec hok₃.1 hb
  have hm := (hw₁.1.trans (hm₂.trans hw₃.1)).trans hm₄
  refine ⟨0, fun _ _ y hl hy => ?_, fun j hj => ⟨hm₄, fun hj' => ?_⟩, hk ok w₄ hm⟩
  · obtain hy | ⟨-, hy⟩ := (rstSent_write hb y).1 hy
    · refine (hm₄.state y).reset (h₃ y ?_ hy)
      by_contra hn
      exact hm₄.gone y (Lifecycle.Inv.rst (hok₃.2.2.elim fun _ h => h) y hy).1 hn hl
    · have hy : x = y := by simpa [Outbound.resets] using hy
      subst hy
      exact hready hm hl
  · rw [hwmu] at hj'
    exact absurd (Option.some.inj hj').symm hj

section Methods

theorem rely_known (hw : (spec env G).rely i w w') (h : Known s w) : Known s w' := h.mono hw.1

theorem ops {o : Op β} (ho : o.tag ≠ .write .rstStream) :
    (spec env G).Under i (Known s) o ∧ (spec env G).Mild o := under (fun hm h => h.mono hm) ho

theorem markStreamDone_keeps (x : Nat) : (spec env G).Keeps i (Known s) (markStreamDone x) :=
  Spec.keeps_of_all rely_known (Prog.All.mono (fun _ ho => ops (done_ne ho)) (markStreamDone_uses x))

theorem released_keeps (r : Except GoErr Unit) : (spec env G).Keeps i (Known s)
    ((markStreamDone x).bind fun _ => .op .unlockW fun _ => .ret r) :=
  .bind (markStreamDone_keeps x) fun _ => (ops (by simp)).1.keeps rely_known fun _ =>
    Spec.keeps_ret rely_known _

theorem ready_of_advance {before : StreamState} (hok : (lived env G false).opOk i w
    (.advance x { reset := true })) (hb : (before, w') ∈ Op.exec env i w (.advance x { reset := true }))
    (hx : w.created x) : w'.idle x = false ∧ (w'.state x).reset = true := by
  refine ⟨(mono_of_exec hok.1 hb).idle x ((tabled_table hok.1).used x hx), ?_⟩
  rw [(advance_exec hb hx).2]
  simp [StreamState.union]

theorem safe_op {o : Op β} {k : β → M α} {Q : α → PUnit → World → Prop}
    (ho : o.tag ≠ .write .rstStream) (hk : ∀ w₁ b w₂, Mono w w₁ → (lived env G false).opOk i w₁ o →
      (b, w₂) ∈ o.exec env i w₁ → Mono w w₂ → (spec env G).Safe i (k b) 0 Q w₂) :
    (spec env G).Safe i (.op o k) 0 Q w :=
  (under (P := Mono w) (fun hm h => h.trans hm) ho).1.safe_op (fun hw h => h.trans hw.1) (.refl w)
    fun w₁ b w₂ _ hm₁ hok hb hm₂ => hk w₁ b w₂ hm₁ hok hb hm₂

theorem writeServerRSTStream_keeps (x : Nat) (code : ErrCode) :
    (spec env G).Keeps i (Known (some x)) (writeServerRSTStream x code) := by
  simp only [writeServerRSTStream, Prog.bind_eq, Prog.lift_bind, Prog.pure_eq]
  intro w h
  refine safe_op (by simp) fun w₁ before w₂ hm₁ hok hb hm₂ => ?_
  obtain ⟨hidle, hreset⟩ := ready_of_advance hok hb (hm₁.created x (h x rfl))
  refine safe_op (by simp) fun _ closed w₃ _ _ _ hm₃ => ?_
  have h₃ := h.mono (hm₂.trans hm₃)
  split
  · exact Spec.Keeps.bind (markStreamDone_keeps x) (fun _ => Spec.keeps_ret rely_known _) w₃ h₃
  · refine writeRST_safe ⟨hm₃.idle x hidle, fun _ => (hm₃.state x).reset hreset⟩ fun ok w₄ hm₄ => ?_
    exact released_keeps _ w₄ (h₃.mono hm₄)

theorem push_keeps (x : Nat) (e : StreamEvent) :
    (spec env G).Keeps i (Known (some x)) (push x e) := by
  simp only [push, Prog.bind_eq, Prog.lift_bind, Prog.pure_eq]
  refine (ops (by simp)).1.keeps rely_known fun sent => ?_
  split
  · exact Spec.keeps_ret rely_known _
  refine (ops (by simp)).1.keeps rely_known fun before => ?_
  split
  · exact Spec.keeps_ret rely_known _
  · refine fun w h => ⟨0, 0, rfl, fun j w' hw _ => ?_, ?_⟩
    · refine Spec.Safe.bind ((writeServerRSTStream_keeps x _ w' (h.mono hw.1)).mono ?_)
      exact fun _ _ _ _ _ _ => ⟨rfl, trivial⟩
    · exact (ops (by simp)).1.keeps rely_known (fun _ => Spec.keeps_ret rely_known _) w h

theorem writeRSTStreamID_keeps (x : Nat) (code : ErrCode) :
    (spec env G).Keeps i (fun w => w.idle x = false) (writeRSTStreamID x code) := by
  have hrely {w w' : World} (hw : (spec env G).rely i w w') (h : w.idle x = false) :
      w'.idle x = false := hw.1.idle x h
  have hops {β : Type} {o : Op β} (ho : o.tag ≠ .write .rstStream) :
      (spec env G).Under i (fun w => w.idle x = false) o ∧ (spec env G).Mild o :=
    under (fun hm => hm.idle x) ho
  have hunlock (r : Except GoErr Unit) : (spec env G).Keeps i (fun w => w.idle x = false)
      (.op .unlockW fun _ => .ret r) :=
    (hops (by simp)).1.keeps hrely fun _ => Spec.keeps_ret hrely r
  simp only [writeRSTStreamID, writeLocked, Prog.bind_eq, Prog.lift_bind, Prog.pure_eq]
  refine (hops (by simp)).1.keeps hrely fun closed => ?_
  split
  · exact Spec.keeps_ret hrely _
  intro w h
  refine safe_op (by simp) fun w₁ live w₂ hm₁ hok hb _ => ?_
  obtain ⟨rfl, rfl⟩ := lookup_exec hb
  have hidle := hm₁.idle x h
  split
  · rename_i hl
    have hc := (tabled_table hok.1).live x (by simpa using hl)
    refine safe_op (by simp) fun w₃ before w₄ hm₃ hok hb _ => ?_
    obtain ⟨hidle, hreset⟩ := ready_of_advance hok hb (hm₃.created x hc)
    refine writeRST_safe ⟨hidle, fun _ => hreset⟩ fun ok w₅ hm₅ => ?_
    refine Spec.Keeps.bind (P := fun w => w.idle x = false) ?_ (fun _ => hunlock _) w₅
      (hm₅.idle x hidle)
    exact Spec.keeps_of_all hrely (Prog.All.mono (fun _ ho => hops (done_ne ho)) (markStreamDone_uses x))
  · rename_i hl
    refine writeRST_safe ⟨hidle, fun h => absurd h (by simpa using hl)⟩ fun ok w₅ hm₅ => ?_
    exact hunlock _ w₅ (hm₅.idle x hidle)

end Methods

theorem resetting : Resetting (spec env G) i Known where
  rely := rely_known
  weaken _ _ h := by cases h
  step ho := ops (ne_of_notMem ho)
  found hok hx _ y hy := by
    cases hy
    exact (tabled_table hok.1).live _ hx
  admitted hok hb _ _ y hy := by
    cases hy
    obtain ⟨h, -, -, hodd⟩ := tabled_held hok.1
    exact ((tabled_table hok.1).admitClient hodd (tabled_asks hok.1) hb).2.1
  rst := writeServerRSTStream_keeps
  push := push_keeps
  frameDone _ := safe_op (by simp) fun _ _ _ _ _ _ _ _ _ => ⟨rfl, trivial⟩
  stopReader _ := safe_op (by simp) fun _ _ _ _ _ _ _ _ _ => ⟨rfl, trivial⟩

theorem verifies (hG : Fresh env G) : (spec env G).Verifies (Call.body env) := by
  refine verifies_of_resets (fun ho => (ops (s := none) (i := 0) (ne_of_notMem ho)).2)
    (fun x i w hq _ => ?_) fun f i w _ _ => ?_
  · have ht : Table w := hq.1.2.elim fun _ h => h
    have h : Known (some x) w := fun y hy => by
      cases hy
      exact created_of_held ht (hG.call w _ hq.1.1)
    refine Spec.Safe.bind (safe_op (by simp) fun _ before w₁ _ _ _ hm => ?_)
    dsimp only [Prog.ret_bind]
    split
    · exact fun _ _ _ _ => ⟨rfl, trivial⟩
    · refine (writeServerRSTStream_keeps x _ w₁ (h.mono hm)).mono ?_
      exact fun _ _ _ _ _ _ => ⟨rfl, trivial⟩
  · refine safe_op (by simp) fun _ _ w₁ _ _ _ _ => resetting.round ?_ fun _ h => by cases h
    intro _ x err code w _ _ _ hidle
    exact (writeRSTStreamID_keeps x code w hidle).mono fun _ _ _ h => ⟨h.1, fun _ h => by cases h⟩

end Once

end PoseidonServer.Conn
