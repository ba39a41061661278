import Mathlib.Algebra.BigOperators.Intervals
import Mathlib.Algebra.Group.PUnit
import PoseidonServer.Concurrent.Prog

/-! A logic of shared invariants for concurrent programs. Each goroutine owns a share of a
commutative monoid, the invariant sees the sum of all shares, and a relation per goroutine
says what the others may do to the state between two of its own operations. `pre` is what each
operation may rely on when it runs; `fin` holds of a goroutine before it starts and after it
has returned. -/

namespace PoseidonServer.Concurrent

/-- The shares of goroutines that own nothing. -/
instance addCommMonoidPUnit : AddCommMonoid PUnit := PUnit.addCommGroup.toAddCommMonoid

variable {Op : Type → Type} {σ Call γ : Type} [AddCommMonoid γ]

structure Spec (m : Machine Op σ) (G : Guard Op σ Call) (γ : Type) [AddCommMonoid γ] where
  inv : σ → γ → Prop
  rely : Nat → σ → σ → Prop
  rely_refl : ∀ i s, rely i s s
  rely_trans : ∀ {i s₁ s₂ s₃}, rely i s₁ s₂ → rely i s₂ s₃ → rely i s₁ s₃
  pre : Nat → σ → {β : Type} → Op β → Prop := fun _ _ _ _ => True
  fin : Nat → σ → Prop := fun _ _ => True
  fin_rely : ∀ {i s s'}, rely i s s' → fin i s → fin i s' := by intros; trivial

namespace Spec

variable {m : Machine Op σ} {G : Guard Op σ Call} (S : Spec m G γ)

def Done (i : Nat) (_ : α) (g : γ) (s : σ) : Prop := g = 0 ∧ S.fin i s

/-- Goroutine `i`, owning the share `g` in state `s`, keeps the invariant and respects the
others at every operation of the program, and ends with a result, share and state in `Q`. -/
def Safe (i : Nat) : Prog Op α → γ → (α → γ → σ → Prop) → σ → Prop
  | .ret a, g, Q, s => ∀ s', S.rely i s s' → Q a g s'
  | .op o k, g, Q, s => ∀ s', S.rely i s s' → (∃ r, S.inv s' (g + r)) → G.opOk i s' o →
      S.pre i s' o ∧ ∀ b s'', (b, s'') ∈ m.exec i o s' →
        ∃ g', (∀ r, S.inv s' (g + r) → S.inv s'' (g' + r)) ∧
          (∀ j, j ≠ i → S.rely j s' s'') ∧ Safe i (k b) g' Q s''
  | .fork p k, g, Q, s => ∃ g₁ g₂, g = g₁ + g₂ ∧
      (∀ j s', S.rely i s s' → S.fin j s' → Safe j p g₁ (S.Done j) s') ∧ Safe i k g₂ Q s
  | .iter body t k, g, Q, s => ∃ J : _ → γ → σ → Prop, (∀ s', S.rely i s s' → J t g s') ∧
      ∀ t g s, J t g s → Safe i (body t) g (fun r g s => match r with
        | .inl t' => J t' g s
        | .inr b => Safe i (k b) g Q s) s

variable {S} {i : Nat} {g : γ} {s s' : σ}

theorem Safe.rely {p : Prog Op α} {Q : α → γ → σ → Prop} (h : S.Safe i p g Q s)
    (hs : S.rely i s s') : S.Safe i p g Q s' := by
  induction p generalizing g s s' with
  | ret a => exact fun s'' h' => h s'' (S.rely_trans hs h')
  | op o k _ => exact fun s'' h' => h s'' (S.rely_trans hs h')
  | fork p k _ ih =>
    obtain ⟨g₁, g₂, hg, hp, hk⟩ := h
    exact ⟨g₁, g₂, hg, fun j s'' h' => hp j s'' (S.rely_trans hs h'), ih hk hs⟩
  | iter body t k _ _ =>
    obtain ⟨J, hJ, hb⟩ := h
    exact ⟨J, fun s'' h' => hJ s'' (S.rely_trans hs h'), hb⟩

theorem Safe.mono {p : Prog Op α} {Q Q' : α → γ → σ → Prop} (h : S.Safe i p g Q s)
    (hQ : ∀ a g s, Q a g s → Q' a g s) : S.Safe i p g Q' s := by
  induction p generalizing g s with
  | ret a => exact fun s' hs => hQ _ _ _ (h s' hs)
  | op o k ih =>
    intro s' hs hr hok
    obtain ⟨hpre, h⟩ := h s' hs hr hok
    refine ⟨hpre, fun b s'' hb => ?_⟩
    obtain ⟨g', hinv, hj, hk⟩ := h b s'' hb
    exact ⟨g', hinv, hj, ih b hk hQ⟩
  | fork p k _ ih =>
    obtain ⟨g₁, g₂, hg, hp, hk⟩ := h
    exact ⟨g₁, g₂, hg, hp, ih hk hQ⟩
  | iter body t k ihb ih =>
    obtain ⟨J, hJ, hb⟩ := h
    refine ⟨J, hJ, fun t g s ht => ihb t (hb t g s ht) ?_⟩
    intro r g s hr
    cases r with
    | inl t' => exact hr
    | inr b => exact ih b hr hQ

/-- The result may be taken to hold under any further steps of the others. -/
theorem Safe.stable {p : Prog Op α} {Q : α → γ → σ → Prop} (h : S.Safe i p g Q s) :
    S.Safe i p g (fun a g s => ∀ s', S.rely i s s' → Q a g s') s := by
  induction p generalizing g s with
  | ret a => exact fun s' hs s'' hs' => h s'' (S.rely_trans hs hs')
  | op o k ih =>
    intro s' hs hr hok
    obtain ⟨hpre, h⟩ := h s' hs hr hok
    refine ⟨hpre, fun b s'' hb => ?_⟩
    obtain ⟨g', hinv, hj, hk⟩ := h b s'' hb
    exact ⟨g', hinv, hj, ih b hk⟩
  | fork p k _ ih =>
    obtain ⟨g₁, g₂, hg, hp, hk⟩ := h
    exact ⟨g₁, g₂, hg, hp, ih hk⟩
  | iter body t k _ ih =>
    obtain ⟨J, hJ, hb⟩ := h
    refine ⟨J, hJ, fun t g s ht => (hb t g s ht).mono ?_⟩
    intro r g s hr
    cases r with
    | inl t' => exact hr
    | inr b => exact ih b hr

theorem Safe.returns {A : ∀ {β : Type}, Op β → β → Prop} {p : Prog Op α} {Q : α → γ → σ → Prop}
    {R : α → Prop} (hA : ∀ {β} {o : Op β} {i s b s'}, (b, s') ∈ m.exec i o s → A o b)
    (h : S.Safe i p g Q s) (hp : p.Returns A R) :
    S.Safe i p g (fun a g s => Q a g s ∧ R a) s := by
  induction p generalizing g s with
  | ret a => exact fun s' hs => ⟨h s' hs, hp⟩
  | op o k ih =>
    intro s' hs hr hok
    obtain ⟨hpre, h⟩ := h s' hs hr hok
    refine ⟨hpre, fun b s'' hb => ?_⟩
    obtain ⟨g', hinv, hj, hk⟩ := h b s'' hb
    exact ⟨g', hinv, hj, ih b hk (hp b (hA hb))⟩
  | fork p k _ ih =>
    obtain ⟨g₁, g₂, hg, hq, hk⟩ := h
    exact ⟨g₁, g₂, hg, hq, ih hk hp⟩
  | iter body t k ihb ih =>
    obtain ⟨J, hJ, hb⟩ := h
    obtain ⟨L, hbody, hk⟩ := hp
    refine ⟨J, hJ, fun t g s ht => (ihb t (hb t g s ht) (hbody t)).mono ?_⟩
    rintro r g s ⟨hr, hL⟩
    cases r with
    | inl t' => exact hr
    | inr b => exact ih b hr (hk b (hL b rfl))

theorem Safe.bind {p : Prog Op α} {f : α → Prog Op β} {Q : β → γ → σ → Prop}
    (h : S.Safe i p g (fun a g s => S.Safe i (f a) g Q s) s) : S.Safe i (p.bind f) g Q s := by
  induction p generalizing g s with
  | ret a => exact h s (S.rely_refl i s)
  | op o k ih =>
    intro s' hs hr hok
    obtain ⟨hpre, h⟩ := h s' hs hr hok
    refine ⟨hpre, fun b s'' hb => ?_⟩
    obtain ⟨g', hinv, hj, hk⟩ := h b s'' hb
    exact ⟨g', hinv, hj, ih b hk⟩
  | fork p k _ ih =>
    obtain ⟨g₁, g₂, hg, hp, hk⟩ := h
    exact ⟨g₁, g₂, hg, hp, ih hk⟩
  | iter body t k _ ih =>
    obtain ⟨J, hJ, hb⟩ := h
    refine ⟨J, hJ, fun t g s ht => (hb t g s ht).mono ?_⟩
    intro r g s hr
    cases r with
    | inl t' => exact hr
    | inr b => exact ih b hr

theorem safe_forever {body : τ → Prog Op (τ ⊕ β)} {t : τ} {Q : β → γ → σ → Prop}
    (J : τ → γ → σ → Prop) (ht : ∀ s', S.rely i s s' → J t g s')
    (hbody : ∀ t g s, J t g s → S.Safe i (body t) g (fun r g s => Sum.elim (fun t' => J t' g s)
      (fun b => ∀ s', S.rely i s s' → Q b g s') r) s) :
    S.Safe i (.forever t body) g Q s := by
  refine ⟨J, ht, fun t g s h => (hbody t g s h).mono fun r g s hr => ?_⟩
  cases r <;> exact hr

theorem safe_unfold {body : τ → Prog Op (τ ⊕ β)} {t : τ} {k : β → Prog Op α}
    {Q : α → γ → σ → Prop} (h : S.Safe i (.iter body t k) g Q s) :
    S.Safe i ((body t).bind fun | .inl t' => .iter body t' k | .inr b => k b) g Q s := by
  obtain ⟨J, hJ, hb⟩ := h
  refine Safe.bind ((hb t g s (hJ s (S.rely_refl i s))).stable.mono ?_)
  intro r g s hr
  cases r with
  | inl t' => exact ⟨J, hr, hb⟩
  | inr b => exact hr s (S.rely_refl i s)

/-- Whoever runs the operation, it keeps the invariant at any shares and is allowed for
everybody, its own goroutine included. -/
def Harmless (S : Spec m G γ) (o : Op β) : Prop :=
  ∀ i s r, S.inv s r → G.opOk i s o → S.pre i s o ∧
    ∀ b s', (b, s') ∈ m.exec i o s → S.inv s' r ∧ ∀ j, S.rely j s s'

theorem Harmless.safe_op {o : Op β} (h : S.Harmless o) {k : β → Prog Op α}
    {Q : α → γ → σ → Prop} (hk : ∀ s' b s'', S.rely i s s' → (∃ r, S.inv s' r) →
      G.opOk i s' o → (b, s'') ∈ m.exec i o s' → S.rely i s s'' → S.Safe i (k b) g Q s'') :
    S.Safe i (.op o k) g Q s := by
  intro s' hs hr hok
  obtain ⟨r, hr⟩ := hr
  refine ⟨(h i s' _ hr hok).1, fun b s'' hb => ?_⟩
  have hrely := ((h i s' _ hr hok).2 b s'' hb).2
  refine ⟨g, fun r' hr' => ((h i s' _ hr' hok).2 b s'' hb).1, fun j _ => hrely j, ?_⟩
  exact hk s' b s'' hs ⟨_, hr⟩ hok hb (S.rely_trans hs (hrely i))

theorem safe_of_all {p : Prog Op α} {Q : α → γ → σ → Prop}
    (hp : p.All fun o => S.Harmless o) (hQ : ∀ a s', S.rely i s s' → Q a g s') :
    S.Safe i p g Q s := by
  induction p generalizing i g s with
  | ret a => exact hQ a
  | op o k ih =>
    refine hp.1.safe_op fun s' b s'' _ _ _ _ hs => ih b (hp.2 b) ?_
    exact fun a s₃ h => hQ a s₃ (S.rely_trans hs h)
  | fork p k ihp ih =>
    refine ⟨0, g, (zero_add g).symm, fun j s' _ hf => ihp hp.1 fun _ s'' hs => ?_, ?_⟩
    · exact ⟨rfl, S.fin_rely hs hf⟩
    · exact ih hp.2 hQ
  | iter body t k ihb ih =>
    -- the loop invariant: still the same share, and only allowed changes so far
    refine ⟨fun _ g' s' => g' = g ∧ S.rely i s s', fun s' hs => ⟨rfl, hs⟩, ?_⟩
    rintro t g' s' ⟨rfl, hs⟩
    refine ihb t (hp.1 t) fun r s'' h => ?_
    cases r with
    | inl t' => exact ⟨rfl, S.rely_trans hs h⟩
    | inr b => exact ih b (hp.2 b) fun a s₃ h' => hQ a s₃ (S.rely_trans (S.rely_trans hs h) h')

/-- Run by a goroutine that is finished with everything else, the operation keeps the invariant
at any shares, respects the others and leaves its goroutine finished. -/
def Mild (S : Spec m G γ) (o : Op β) : Prop :=
  ∀ i s r, S.inv s r → S.fin i s → G.opOk i s o → S.pre i s o ∧
    ∀ b s', (b, s') ∈ m.exec i o s → S.inv s' r ∧ (∀ j, j ≠ i → S.rely j s s') ∧ S.fin i s'

theorem Harmless.mild {o : Op β} (h : S.Harmless o) : S.Mild o := by
  intro i s r hr hf hok
  obtain ⟨hpre, h⟩ := h i s r hr hok
  refine ⟨hpre, fun b s' hb => ?_⟩
  obtain ⟨hinv, hrely⟩ := h b s' hb
  exact ⟨hinv, fun j _ => hrely j, S.fin_rely (hrely i) hf⟩

variable (S) in
/-- Whoever runs the program, from any state, ends as it began: finished and owning nothing. -/
def Proper (p : Prog Op α) : Prop := ∀ i s, S.fin i s → S.Safe i p 0 (S.Done i) s

@[simp] theorem proper_ret (a : α) : S.Proper (.ret a) :=
  fun _ _ hf _ hs => ⟨rfl, S.fin_rely hs hf⟩

theorem Proper.op {o : Op β} {k : β → Prog Op α} (ho : S.Mild o) (hk : ∀ b, S.Proper (k b)) :
    S.Proper (.op o k) := by
  intro i s hf s' hs hr hok
  obtain ⟨r, hr⟩ := hr
  have ho (r) (hr : S.inv s' r) := ho i s' r hr (S.fin_rely hs hf) hok
  refine ⟨(ho _ hr).1, fun b s'' hb => ?_⟩
  obtain ⟨-, hj, hf'⟩ := (ho _ hr).2 b s'' hb
  exact ⟨0, fun r' hr' => ((ho _ hr').2 b s'' hb).1, hj, hk b i s'' hf'⟩

theorem Proper.bind {p : Prog Op α} {f : α → Prog Op β} (hp : S.Proper p)
    (hf : ∀ a, S.Proper (f a)) : S.Proper (p.bind f) := by
  refine fun i s h => Safe.bind ((hp i s h).mono ?_)
  rintro a g s' ⟨rfl, hs'⟩
  exact hf a i s' hs'

theorem Proper.fork {p : Prog Op Unit} {k : Prog Op α} (hp : S.Proper p) (hk : S.Proper k) :
    S.Proper (.fork p k) :=
  fun i s h => ⟨0, 0, (zero_add 0).symm, fun j s' _ hj => hp j s' hj, hk i s h⟩

theorem Proper.iter {body : τ → Prog Op (τ ⊕ β)} {t : τ} {k : β → Prog Op α}
    (hbody : ∀ t, S.Proper (body t)) (hk : ∀ b, S.Proper (k b)) : S.Proper (.iter body t k) := by
  refine fun i s h => ⟨fun _ g s => g = 0 ∧ S.fin i s, fun s' hs => ⟨rfl, S.fin_rely hs h⟩, ?_⟩
  rintro t _ s ⟨rfl, hs⟩
  refine (hbody t i s hs).mono ?_
  rintro (t' | b) g s' ⟨rfl, hs'⟩
  · exact ⟨rfl, hs'⟩
  · exact hk b i s' hs'

theorem proper_of_all {p : Prog Op α} (hp : p.All fun o => S.Mild o) : S.Proper p := by
  induction p with
  | ret a => exact proper_ret a
  | op o k ih => exact .op hp.1 fun b => ih b (hp.2 b)
  | fork p k ihp ih => exact .fork (ihp hp.1) (ih hp.2)
  | iter body t k ihb ih => exact .iter (fun t => ihb t (hp.1 t)) fun b => ih b (hp.2 b)

/-- Run by goroutine `i` where `P` holds, the operation keeps the invariant at any shares, respects
the others and leaves `P`. -/
def Under (S : Spec m G γ) (i : Nat) (P : σ → Prop) (o : Op β) : Prop :=
  ∀ s r, S.inv s r → P s → G.opOk i s o → S.pre i s o ∧
    ∀ b s', (b, s') ∈ m.exec i o s → S.inv s' r ∧ (∀ j, j ≠ i → S.rely j s s') ∧ P s'

section Under

variable {P : σ → Prop} (hP : ∀ {s s'}, S.rely i s s' → P s → P s')

include hP

theorem Harmless.under {o : Op β} (h : S.Harmless o) : S.Under i P o := by
  intro s r hr hs hok
  obtain ⟨hpre, h⟩ := h i s r hr hok
  refine ⟨hpre, fun b s' hb => ?_⟩
  obtain ⟨hinv, hrely⟩ := h b s' hb
  exact ⟨hinv, fun j _ => hrely j, hP (hrely i) hs⟩

theorem Under.safe_op {o : Op β} {k : β → Prog Op α} {Q : α → γ → σ → Prop} (ho : S.Under i P o)
    (h : P s) (hk : ∀ s₁ b s₂, S.rely i s s₁ → P s₁ → G.opOk i s₁ o → (b, s₂) ∈ m.exec i o s₁ →
      P s₂ → S.Safe i (k b) g Q s₂) : S.Safe i (.op o k) g Q s := by
  intro s₁ hs hr hok
  obtain ⟨r, hr⟩ := hr
  have h₁ := hP hs h
  have ho (r) (hr : S.inv s₁ r) := ho s₁ r hr h₁ hok
  refine ⟨(ho _ hr).1, fun b s₂ hb => ?_⟩
  obtain ⟨-, hj, h₂⟩ := (ho _ hr).2 b s₂ hb
  exact ⟨g, fun r' hr' => ((ho _ hr').2 b s₂ hb).1, hj, hk s₁ b s₂ hs h₁ hok hb h₂⟩

theorem safe_of_under {p : Prog Op α} (hp : p.All fun o => S.Under i P o ∧ S.Mild o) (h : P s) :
    S.Safe i p g (fun _ g' s => g' = g ∧ P s) s := by
  induction p generalizing g s with
  | ret a => exact fun s' hs => ⟨rfl, hP hs h⟩
  | op o k ih =>
    exact hp.1.1.safe_op hP h fun s₁ b s₂ _ _ _ _ h₂ => ih b (hp.2 b) h₂
  | fork q k _ ih =>
    refine ⟨0, g, (zero_add g).symm, fun j s' _ hj => ?_, ih hp.2 h⟩
    exact proper_of_all (hp.1.mono fun _ ho => ho.2) j s' hj
  | iter body t k ihb ih =>
    refine ⟨fun _ g' s => g' = g ∧ P s, fun s' hs => ⟨rfl, hP hs h⟩, ?_⟩
    rintro t _ s ⟨rfl, hs⟩
    refine (ihb t (hp.1 t) hs).mono ?_
    rintro (t' | b) _ s' ⟨rfl, hs'⟩
    · exact ⟨rfl, hs'⟩
    · exact ih b (hp.2 b) hs'

end Under

variable (S) in
def Keeps (i : Nat) (P : σ → Prop) (p : Prog Op α) : Prop :=
  ∀ s, P s → S.Safe i p 0 (fun _ g s => g = 0 ∧ P s) s

theorem Keeps.bind {P : σ → Prop} {p : Prog Op α} {f : α → Prog Op β} (hp : S.Keeps i P p)
    (hf : ∀ a, S.Keeps i P (f a)) : S.Keeps i P (p.bind f) := by
  refine fun s h => Safe.bind ((hp s h).mono ?_)
  rintro a g s' ⟨rfl, hs'⟩
  exact hf a s' hs'

section Keeps

variable {P : σ → Prop} (hP : ∀ {s s'}, S.rely i s s' → P s → P s')

include hP

theorem keeps_ret (a : α) : S.Keeps i P (.ret a) := fun _ h _ hs => ⟨rfl, hP hs h⟩

theorem Under.keeps {o : Op β} {k : β → Prog Op α} (ho : S.Under i P o)
    (hk : ∀ b, S.Keeps i P (k b)) : S.Keeps i P (.op o k) :=
  fun _ h => ho.safe_op hP h fun _ b s₂ _ _ _ _ h₂ => hk b s₂ h₂

theorem keeps_of_all {p : Prog Op α} (hp : p.All fun o => S.Under i P o ∧ S.Mild o) :
    S.Keeps i P p := fun _ h => safe_of_under hP hp h

end Keeps

variable (S) in
/-- Every goroutine is safe with its share and the invariant holds of the sum. -/
def Pool (c : Config Op σ) : Prop :=
  ∃ share : Nat → γ,
    (∀ i p, c.threads[i]? = some p → S.Safe i p (share i) (S.Done i) c.shared) ∧
    (∀ i, c.threads.length ≤ i → S.fin i c.shared) ∧
    S.inv c.shared (∑ i ∈ Finset.range c.threads.length, share i)

variable (S) in
def Verifies (body : Call → Prog Op Unit) : Prop :=
  ∀ q i s, G.callOk s q → (∃ r, S.inv s r) → S.fin i s → S.Safe i (body q) 0 (S.Done i) s

theorem verifies_of_proper {body : Call → Prog Op Unit}
    (h : ∀ q s, G.callOk s q → S.Proper (body q)) : S.Verifies body :=
  fun q i s hq _ hf => h q s hq i s hf

theorem sum_update {f : Nat → γ} {n i : Nat} (hi : i < n) (b : γ) :
    ∃ r, ∑ j ∈ Finset.range n, f j = f i + r ∧
      ∑ j ∈ Finset.range n, Function.update f i b j = b + r := by
  have hi : i ∈ Finset.range n := Finset.mem_range.2 hi
  refine ⟨∑ j ∈ Finset.range n \ {i}, f j, ?_, Finset.sum_update_of_mem hi f b⟩
  rw [← Finset.sum_update_of_mem hi f (f i), Function.update_eq_self]

theorem pool_set {c : Config Op σ} {share : Nat → γ} {p q : Prog Op Unit} {g' : γ}
    (hp : c.threads[i]? = some p)
    (hsafe : ∀ j p, c.threads[j]? = some p →
      S.Safe j p (share j) (S.Done j) c.shared)
    (hj : ∀ j, j ≠ i → S.rely j c.shared s') (hq : S.Safe i q g' (S.Done i) s') :
    ∀ j p, (c.threads.set i q)[j]? = some p →
      S.Safe j p (Function.update share i g' j) (S.Done j) s' := by
  obtain ⟨hi, -⟩ := List.getElem?_eq_some_iff.1 hp
  intro j p' hp'
  by_cases hji : j = i
  · subst hji
    rw [List.getElem?_set_self hi] at hp'
    cases hp'
    simpa using hq
  · rw [List.getElem?_set_ne (Ne.symm hji)] at hp'
    rw [Function.update_of_ne hji]
    exact (hsafe j p' hp').rely (hj j hji)

theorem pool_append {l : List (Prog Op Unit)} {share : Nat → γ} {q : Prog Op Unit} {g' : γ}
    (hsafe : ∀ j p, l[j]? = some p → S.Safe j p (share j) (S.Done j) s)
    (hq : S.Safe l.length q g' (S.Done l.length) s) :
    ∀ j p, (l ++ [q])[j]? = some p →
      S.Safe j p (Function.update share l.length g' j) (S.Done j) s := by
  intro j p hp
  obtain ⟨hj, -⟩ := List.getElem?_eq_some_iff.1 hp
  by_cases hjl : j < l.length
  · rw [List.getElem?_append_left hjl] at hp
    rw [Function.update_of_ne hjl.ne]
    exact hsafe j p hp
  · have hjl : j = l.length := by simp at hj; omega
    subst hjl
    simp only [List.getElem?_concat_length, Option.some.injEq] at hp
    subst hp
    simpa using hq

theorem sum_append (share : Nat → γ) (n : Nat) (b : γ) :
    ∑ j ∈ Finset.range (n + 1), Function.update share n b j
      = ∑ j ∈ Finset.range n, share j + b := by
  rw [Finset.sum_range_succ, Function.update_self]
  congr 1
  refine Finset.sum_congr rfl fun j hj => Function.update_of_ne ?_ _ _
  exact (Finset.mem_range.1 hj).ne

theorem Pool.step {body : Call → Prog Op Unit} {c c' : Config Op σ} {pick : Nat}
    (h : S.Pool c) (hok : G.Enabled c (.step i pick)) (hn : c.next m body (.step i pick) = some c') :
    S.Pool c' := by
  obtain ⟨share, hsafe, hfin, hinv⟩ := h
  unfold Config.next at hn
  unfold Guard.Enabled at hok
  cases hp : c.threads[i]? with
  | none => simp [hp] at hn
  | some p =>
    have hi := (List.getElem?_eq_some_iff.1 hp).1
    have hps := hsafe i p hp
    cases p with
    | ret a => simp [hp] at hn
    | op o k =>
      simp only [hp] at hn hok
      split at hn
      · rename_i b s'' hb
        cases hn
        obtain ⟨r, hr, -⟩ := sum_update (f := share) hi 0
        rw [hr] at hinv
        obtain ⟨g', hinv', hj, hk⟩ := (hps c.shared (S.rely_refl i _) ⟨r, hinv⟩ hok).2 b s''
          (List.mem_of_getElem? hb)
        refine ⟨Function.update share i g', pool_set hp hsafe hj hk, ?_, ?_⟩
        · intro j hlen
          rw [List.length_set] at hlen
          exact S.fin_rely (hj j (by omega)) (hfin j hlen)
        obtain ⟨r', hr', hr''⟩ := sum_update (f := share) hi g'
        simp only [List.length_set, hr'']
        exact hinv' r' (by rwa [← hr', hr])
      · cases hn
    | fork q k =>
      simp only [hp] at hn
      cases hn
      obtain ⟨g₁, g₂, hg, hq, hk⟩ := hps
      have hset := pool_set hp hsafe (fun j _ => S.rely_refl j _) hk
      have hq := hq (c.threads.set i k).length c.shared (S.rely_refl i _)
        (hfin _ (by rw [List.length_set]))
      refine ⟨_, pool_append hset hq, ?_, ?_⟩
      · intro j hlen
        exact hfin j (by simp at hlen; omega)
      obtain ⟨r, hr, hr'⟩ := sum_update (f := share) hi g₂
      simp only [List.length_append, List.length_set, List.length_cons, List.length_nil,
        Nat.zero_add, sum_append]
      rw [hr']
      rwa [hr, hg, add_comm g₁, add_right_comm] at hinv
    | iter loop t k =>
      simp only [hp] at hn
      cases hn
      have hset := pool_set hp hsafe (fun j _ => S.rely_refl j _) (safe_unfold hps)
      refine ⟨_, hset, fun j hlen => hfin j (by simpa using hlen), ?_⟩
      simpa [Function.update_eq_self] using hinv

theorem Pool.call {body : Call → Prog Op Unit} {c : Config Op σ} {q : Call} (h : S.Pool c)
    (hbody : S.Verifies body) (hok : G.callOk c.shared q) :
    S.Pool ⟨c.shared, c.threads ++ [body q]⟩ := by
  obtain ⟨share, hsafe, hfin, hinv⟩ := h
  refine ⟨_, pool_append hsafe (hbody q _ _ hok ⟨_, hinv⟩ (hfin _ le_rfl)), ?_, ?_⟩
  · intro j hlen
    exact hfin j (by simp at hlen; omega)
  simpa [sum_append] using hinv

theorem Pool.runs {body : Call → Prog Op Unit} {c c' : Config Op σ} (h : S.Pool c)
    (hbody : S.Verifies body) (hr : Runs m body G c c') : S.Pool c' := by
  induction hr with
  | refl => exact h
  | @next c₁ e c₂ _ hok hn ih =>
    cases e with
    | call q =>
      cases hn
      exact ih.call hbody hok
    | step i pick => exact ih.step hok hn

variable (S) in
def framed (e : γ) : Spec m G γ := { S with inv := fun s g => S.inv s (g + e) }

theorem Safe.framed {p : Prog Op α} {Q : α → γ → σ → Prop} (h : S.Safe i p g Q s) (e : γ) :
    (S.framed e).Safe i p g Q s := by
  induction p generalizing i g s with
  | ret a => exact h
  | op o k ih =>
    rintro s' hs ⟨r, hr⟩ hok
    obtain ⟨hpre, h⟩ := h s' hs ⟨r + e, by rwa [← add_assoc]⟩ hok
    refine ⟨hpre, fun b s'' hb => ?_⟩
    obtain ⟨g', hg, hj, hk⟩ := h b s'' hb
    refine ⟨g', fun r hr => ?_, hj, ih b hk⟩
    change S.inv _ (g + r + e) at hr
    change S.inv _ (g' + r + e)
    rw [add_assoc] at hr ⊢
    exact hg _ hr
  | fork q k ihq ih =>
    obtain ⟨g₁, g₂, hg, hq, hk⟩ := h
    exact ⟨g₁, g₂, hg, fun j s' hs hf => ihq (hq j s' hs hf), ih hk⟩
  | iter body t k ihb ih =>
    obtain ⟨J, hJ, hb⟩ := h
    refine ⟨J, hJ, fun t g s ht => (ihb t (hb t g s ht)).mono ?_⟩
    intro r g s hr
    cases r with
    | inl t' => exact hr
    | inr b => exact ih b hr

theorem Verifies.framed {body : Call → Prog Op Unit} (h : S.Verifies body) (e : γ) :
    (S.framed e).Verifies body :=
  fun q i s hq hr hf => (h q i s hq (hr.elim fun _ hr => ⟨_, hr⟩) hf).framed e

/-- One goroutine followed through a run, where the invariant says nothing and all the others
respect it. -/
theorem Safe.runs {body : Call → Prog Op Unit} {c c' : Config Op σ} {p : Prog Op Unit}
    {Q : Unit → γ → σ → Prop} (hinv : ∀ s r, S.inv s r)
    (hother : ∀ {j s s' β} {o : Op β} {b}, j ≠ i → G.opOk j s o → (b, s') ∈ m.exec j o s →
      S.rely i s s')
    (hr : Runs m body G c c') (hp : c.threads[i]? = some p) (h : S.Safe i p g Q c.shared) :
    ∃ p' g', c'.threads[i]? = some p' ∧ S.Safe i p' g' Q c'.shared := by
  induction hr with
  | refl => exact ⟨p, g, hp, h⟩
  | @next c₁ e c₂ _ hok hn ih =>
    obtain ⟨p, g, hp, h⟩ := ih
    have hi := (List.getElem?_eq_some_iff.1 hp).1
    cases e with
    | call q =>
      cases hn
      exact ⟨p, g, by rw [List.getElem?_append_left hi, hp], h⟩
    | step j pick =>
      simp only [Config.next] at hn
      simp only [Guard.Enabled] at hok
      by_cases hji : j = i
      · subst hji
        simp only [hp] at hn hok
        cases p with
        | ret a => cases hn
        | op o k =>
          dsimp only at hn hok
          split at hn
          · rename_i b s hb
            cases hn
            obtain ⟨g', -, -, hk⟩ := (h _ (S.rely_refl _ _) ⟨0, hinv _ _⟩ hok).2 b s
              (List.mem_of_getElem? hb)
            exact ⟨k b, g', List.getElem?_set_self hi, hk⟩
          · cases hn
        | fork q k =>
          cases hn
          obtain ⟨_, g', -, -, hk⟩ := h
          refine ⟨k, g', ?_, hk⟩
          rw [List.getElem?_append_left (by simpa using hi), List.getElem?_set_self hi]
        | iter loop t k =>
          cases hn
          exact ⟨_, g, List.getElem?_set_self hi, safe_unfold h⟩
      · split at hn
        · rename_i o k hq
          simp only [hq] at hok
          split at hn
          · rename_i b s hb
            cases hn
            refine ⟨p, g, ?_, h.rely (hother hji hok (List.mem_of_getElem? hb))⟩
            rw [List.getElem?_set_ne hji, hp]
          · cases hn
        · cases hn
          refine ⟨p, g, ?_, h⟩
          rw [List.getElem?_append_left (by simpa using hi), List.getElem?_set_ne hji, hp]
        · cases hn
          exact ⟨p, g, by rw [List.getElem?_set_ne hji, hp], h⟩
        · cases hn

theorem Safe.pre_of_next {body : Call → Prog Op Unit} {c c' : Config Op σ} {pick : Nat}
    {p : Prog Op Unit} {Q : Unit → γ → σ → Prop} (h : S.Safe i p g Q c.shared)
    (hp : c.threads[i]? = some p) (hinv : ∃ r, S.inv c.shared (g + r))
    (hok : G.Enabled c (.step i pick)) (hn : c.next m body (.step i pick) = some c') :
    c'.shared = c.shared ∨ ∃ (β : Type) (o : Op β) (b : β), S.pre i c.shared o ∧
      (b, c'.shared) ∈ m.exec i o c.shared := by
  simp only [Config.next, Guard.Enabled, hp] at hn hok
  cases p with
  | ret a => cases hn
  | op o k =>
    dsimp only at hn hok
    split at hn
    · rename_i b s hb
      cases hn
      exact .inr ⟨_, o, b, (h _ (S.rely_refl i _) hinv hok).1, List.mem_of_getElem? hb⟩
    · cases hn
  | fork | iter =>
    cases hn
    exact .inl rfl

theorem pool_of_reachable {body : Call → Prog Op Unit} {init : σ} {c : Config Op σ}
    (hinit : S.inv init 0) (hfin : ∀ i, S.fin i init) (hbody : S.Verifies body)
    (hc : Reachable m body G init c) :
    S.Pool c := by
  induction hc with
  | init => exact ⟨fun _ => 0, by simp, fun i _ => hfin i, by simpa using hinit⟩
  | @next c e c' _ hok hn ih =>
    cases e with
    | call q =>
      cases hn
      exact ih.call hbody hok
    | step i pick => exact ih.step hok hn

variable (S) in
def guard : Guard Op σ Call where
  callOk s q := G.callOk s q ∧ ∃ r, S.inv s r
  opOk i s _ o := G.opOk i s o ∧ S.pre i s o ∧ ∃ r, S.inv s r

theorem Pool.enabled {c : Config Op σ} {e : Event Call} (h : S.Pool c) (he : G.Enabled c e) :
    S.guard.Enabled c e := by
  obtain ⟨share, hsafe, -, hinv⟩ := h
  cases e with
  | call q => exact ⟨he, _, hinv⟩
  | step i pick =>
    simp only [Guard.Enabled] at he ⊢
    split
    · rename_i o k hp
      simp only [hp] at he
      obtain ⟨r, hr, -⟩ := sum_update (f := share) (List.getElem?_eq_some_iff.1 hp).1 0
      rw [hr] at hinv
      exact ⟨he, (hsafe i _ hp c.shared (S.rely_refl i _) ⟨r, hinv⟩ he).1, _, hinv⟩
    · trivial

theorem Pool.due {c : Config Op σ} (h : S.Pool c) (hG : G.Enabled c (.step i 0))
    (hf : ¬S.fin i c.shared) : c.Due i fun o => S.pre i c.shared o := by
  have he := h.enabled hG
  obtain ⟨share, hsafe, hlen, -⟩ := h
  simp only [Config.Due, Guard.Enabled] at he ⊢
  split
  · rename_i hp
    rw [hp] at he
    exact he.2.1
  · rename_i hp
    exact hf (hsafe i _ hp _ (S.rely_refl i _)).2
  · rename_i hp
    exact hf (hlen i (List.getElem?_eq_none_iff.1 hp))
  · trivial

/-- What a specification establishes may be assumed of every run. -/
theorem reachable_guard {body : Call → Prog Op Unit} {init : σ} {c : Config Op σ}
    (hinit : S.inv init 0) (hfin : ∀ i, S.fin i init) (hbody : S.Verifies body)
    (hc : Reachable m body G init c) : Reachable m body S.guard init c := by
  induction hc with
  | init => exact .init
  | next hc he hn ih => exact ih.next ((pool_of_reachable hinit hfin hbody hc).enabled he) hn

theorem runs_guard {body : Call → Prog Op Unit} {init : σ} {c c' : Config Op σ}
    (hinit : S.inv init 0) (hfin : ∀ i, S.fin i init) (hbody : S.Verifies body)
    (hc : Reachable m body G init c) (h : Runs m body G c c') : Runs m body S.guard c c' := by
  induction h with
  | refl => exact .refl
  | next h he hn ih =>
    exact ih.next ((pool_of_reachable hinit hfin hbody (hc.runs h)).enabled he) hn

theorem taken_guard {body : Call → Prog Op Unit} {init : σ} {c c' : Config Op σ} {e : Event Call}
    (hinit : S.inv init 0) (hfin : ∀ i, S.fin i init) (hbody : S.Verifies body)
    (h : Taken m body G init c e c') : Taken m body S.guard init c e c' where
  reach := reachable_guard hinit hfin hbody h.reach
  enabled := (pool_of_reachable hinit hfin hbody h.reach).enabled h.enabled
  next := h.next

theorem inv_of_reachable {body : Call → Prog Op Unit} {init : σ} {c : Config Op σ}
    (hinit : S.inv init 0) (hfin : ∀ i, S.fin i init) (hbody : S.Verifies body)
    (hc : Reachable m body G init c) :
    ∃ r, S.inv c.shared r := by
  obtain ⟨share, -, -, h⟩ := pool_of_reachable hinit hfin hbody hc
  exact ⟨_, h⟩

/-- Once every goroutine has returned nobody owns anything. -/
theorem inv_of_quiet {body : Call → Prog Op Unit} {init : σ} {c : Config Op σ}
    (hinit : S.inv init 0) (hfin : ∀ i, S.fin i init) (hbody : S.Verifies body)
    (hc : Reachable m body G init c) (hq : c.Quiet) : S.inv c.shared 0 := by
  obtain ⟨share, hsafe, -, hinv⟩ := pool_of_reachable hinit hfin hbody hc
  suffices ∑ i ∈ Finset.range c.threads.length, share i = 0 by rwa [this] at hinv
  refine Finset.sum_eq_zero fun i hi => ?_
  have hi := Finset.mem_range.1 hi
  have hs := hsafe i _ (List.getElem?_eq_getElem hi)
  rw [hq _ (List.getElem_mem hi)] at hs
  exact (hs _ (S.rely_refl i _)).1

/-- A goroutine that has returned has finished what `fin` asks for. -/
theorem fin_of_returned {body : Call → Prog Op Unit} {init : σ} {c : Config Op σ}
    (hinit : S.inv init 0) (hfin : ∀ i, S.fin i init) (hbody : S.Verifies body)
    (hc : Reachable m body G init c) (hi : ∀ p, c.threads[i]? = some p → p = .ret ()) :
    S.fin i c.shared := by
  obtain ⟨share, hsafe, hlen, -⟩ := pool_of_reachable hinit hfin hbody hc
  cases hp : c.threads[i]? with
  | none => exact hlen i (List.getElem?_eq_none_iff.1 hp)
  | some p =>
    have hs := hsafe i p hp
    rw [hi p hp] at hs
    exact (hs _ (S.rely_refl i _)).2

end Spec

end PoseidonServer.Concurrent
