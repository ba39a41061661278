import PoseidonServer.Concurrent.Logic

/-! Disciplines: what a goroutine must hold to run an operation, and what it holds afterwards.
That a program follows one is read off its text; every run of such programs then keeps it. -/

namespace PoseidonServer.Concurrent

variable {Op : Type → Type} {σ τ Call : Type}

structure Discipline (Op : Type → Type) (τ : Type) where
  start : τ
  ok : τ → {β : Type} → Op β → Prop
  after : τ → {β : Type} → Op β → τ

namespace Discipline

/-- Started with `h`, the program runs its operations as the discipline asks, and ends as `Q`
says. -/
def Follows (D : Discipline Op τ) : τ → Prog Op α → (α → τ → Prop) → Prop
  | h, .ret a, Q => Q a h
  | h, .op o k, Q => D.ok h o ∧ ∀ b, D.Follows (D.after h o) (k b) Q
  | h, .fork p k, Q => D.Follows D.start p (fun _ h' => h' = D.start) ∧ D.Follows h k Q
  | h, .iter body _ k, Q => (∀ t, D.Follows h (body t) fun _ h' => h' = h) ∧
      ∀ b, D.Follows h (k b) Q

def Keeps (D : Discipline Op τ) (h : τ) (p : Prog Op α) : Prop := D.Follows h p fun _ h' => h' = h

variable {D : Discipline Op τ} {h : τ} {Q : α → τ → Prop}

@[simp] theorem follows_ret (a : α) : D.Follows h (.ret a) Q ↔ Q a h := Iff.rfl

@[simp] theorem follows_op (o : Op β) (k : β → Prog Op α) :
    D.Follows h (.op o k) Q ↔ D.ok h o ∧ ∀ b, D.Follows (D.after h o) (k b) Q := Iff.rfl

@[simp] theorem follows_lift (o : Op α) :
    D.Follows h (.lift o) Q ↔ D.ok h o ∧ ∀ b, Q b (D.after h o) := Iff.rfl

@[simp] theorem follows_fork (p : Prog Op Unit) (k : Prog Op α) :
    D.Follows h (.fork p k) Q ↔ D.Keeps D.start p ∧ D.Follows h k Q := Iff.rfl

@[simp] theorem follows_iter (body : β → Prog Op (β ⊕ γ)) (t : β) (k : γ → Prog Op α) :
    D.Follows h (.iter body t k) Q ↔ (∀ t, D.Keeps h (body t)) ∧ ∀ b, D.Follows h (k b) Q :=
  Iff.rfl

@[simp] theorem follows_ite (c : Prop) [Decidable c] (p q : Prog Op α) :
    D.Follows h (if c then p else q) Q ↔ (c → D.Follows h p Q) ∧ (¬c → D.Follows h q Q) := by
  split <;> simp [*]

theorem Follows.mono {p : Prog Op α} {Q' : α → τ → Prop} (hp : D.Follows h p Q)
    (hQ : ∀ a h, Q a h → Q' a h) : D.Follows h p Q' := by
  induction p generalizing h with
  | ret a => exact hQ _ _ hp
  | op o k ih => exact ⟨hp.1, fun b => ih b (hp.2 b) hQ⟩
  | fork q k _ ih => exact ⟨hp.1, ih hp.2 hQ⟩
  | iter body t k _ ih => exact ⟨hp.1, fun b => ih b (hp.2 b) hQ⟩

theorem Follows.bind {p : Prog Op α} {f : α → Prog Op β} {Q' : β → τ → Prop}
    (hp : D.Follows h p Q) (hf : ∀ a h, Q a h → D.Follows h (f a) Q') :
    D.Follows h (p.bind f) Q' := by
  induction p generalizing h with
  | ret a => exact hf _ _ hp
  | op o k ih => exact ⟨hp.1, fun b => ih b (hp.2 b) hf⟩
  | fork q k _ ih => exact ⟨hp.1, ih hp.2 hf⟩
  | iter body t k _ ih => exact ⟨hp.1, fun b => ih b (hp.2 b) hf⟩

theorem Keeps.bind {p : Prog Op α} {f : α → Prog Op β} {Q : β → τ → Prop} (hp : D.Keeps h p)
    (hf : ∀ a, D.Follows h (f a) Q) : D.Follows h (p.bind f) Q :=
  Follows.bind hp fun a _ hh => hh ▸ hf a

end Discipline

/-- What it means in a state that goroutine `i` holds `h`: its own steps change that as the
discipline says, and nobody else's steps do. -/
structure Realizes (m : Machine Op σ) (G : Guard Op σ Call) (D : Discipline Op τ)
    (holds : Nat → σ → τ → Prop) : Prop where
  start : ∀ i s, holds i s D.start
  own : ∀ {i s h β} {o : Op β} {b s'}, holds i s h → D.ok h o → (b, s') ∈ m.exec i o s →
    holds i s' (D.after h o)
  other : ∀ {i j s h h' β} {o : Op β} {b s'}, j ≠ i → holds i s h → D.ok h o →
    (b, s') ∈ m.exec i o s → holds j s h' → holds j s' h'

namespace Discipline

variable {m : Machine Op σ} {G : Guard Op σ Call} {D : Discipline Op τ}
  {holds : Nat → σ → τ → Prop}

def spec (m : Machine Op σ) (G : Guard Op σ Call) (D : Discipline Op τ)
    (holds : Nat → σ → τ → Prop) : Spec m G PUnit where
  inv _ _ := True
  rely i s s' := ∀ h, holds i s h → holds i s' h
  rely_refl _ _ _ hh := hh
  rely_trans h₁ h₂ h hh := h₂ h (h₁ h hh)
  pre i s _ o := ∃ h, holds i s h ∧ D.ok h o

theorem Follows.safe (R : Realizes m G D holds) {p : Prog Op α} {Q : α → τ → Prop} {i : Nat}
    {s : σ} {h : τ} (hp : D.Follows h p Q) (hs : holds i s h) :
    (spec m G D holds).Safe i p 0 (fun a _ s => ∃ h, Q a h ∧ holds i s h) s := by
  induction p generalizing i h s with
  | ret a => exact fun s' hs' => ⟨h, hp, hs' h hs⟩
  | op o k ih =>
    intro s' hs' _ _
    refine ⟨⟨h, hs' h hs, hp.1⟩, fun b s'' hb => ⟨0, fun _ _ => trivial, ?_, ?_⟩⟩
    · exact fun j hj h' hh' => R.other hj (hs' h hs) hp.1 hb hh'
    · exact ih b (hp.2 b) (R.own (hs' h hs) hp.1 hb)
  | fork q k ihq ih =>
    refine ⟨0, 0, rfl, fun j s' _ _ => ?_, ih hp.2 hs⟩
    exact (ihq hp.1 (R.start j s')).mono fun _ _ _ _ => ⟨rfl, trivial⟩
  | iter body t k ihb ih =>
    refine ⟨fun _ _ s => holds i s h, fun s' hs' => hs' h hs, fun t _ s hh => ?_⟩
    refine (ihb t (hp.1 t) hh).mono fun r _ s' hr => ?_
    obtain ⟨h', rfl, hh'⟩ := hr
    cases r with
    | inl t' => exact hh'
    | inr b => exact ih b (hp.2 b) hh'

section Rest

variable {l : List (Prog Op Unit)} {p q : Prog Op Unit} {i j : Nat}

/-- What is left of the program of goroutine `i`: nothing if it has not been started. -/
def rest (l : List (Prog Op Unit)) (i : Nat) : Prog Op Unit := l[i]?.getD (.ret ())

theorem rest_of_getElem? (h : l[i]? = some p) : rest l i = p := by simp [rest, h]

theorem rest_length : rest l l.length = .ret () := by simp [rest]

theorem rest_append (l : List (Prog Op Unit)) (p : Prog Op Unit) (i : Nat) :
    rest (l ++ [p]) i = if i = l.length then p else rest l i := by
  rw [rest, rest, List.getElem?_append]
  grind

theorem rest_set (hq : l[j]? = some q) (p : Prog Op Unit) (i : Nat) :
    rest (l.set j p) i = if i = j then p else rest l i := by
  rw [rest, rest, List.getElem?_set]
  grind

end Rest

/-- In every run, what is left of each program follows the discipline from what its goroutine
holds; one that has returned, or has not been started, holds what a program starts with. -/
theorem follows_rest {body : Call → Prog Op Unit}
    (hbody : ∀ q s, G.callOk s q → D.Keeps D.start (body q)) {init : σ}
    (start : ∀ i, holds i init D.start)
    (own : ∀ {i s h β} {o : Op β} {b s'}, holds i s h → D.ok h o → (b, s') ∈ m.exec i o s →
      holds i s' (D.after h o))
    (other : ∀ {i j s h h' β} {o : Op β} {b s'}, j ≠ i → holds i s h → D.ok h o →
      (b, s') ∈ m.exec i o s → holds j s h' → holds j s' h')
    {c : Config Op σ} (hc : Reachable m body G init c) (i : Nat) :
    ∃ h, holds i c.shared h ∧ D.Follows h (rest c.threads i) fun _ h' => h' = D.start := by
  induction hc generalizing i with
  | init => exact ⟨D.start, start i, rfl⟩
  | @next c e c' _ he hn ih =>
    have hfree : holds c.threads.length c.shared D.start := by
      obtain ⟨h, hh, hf⟩ := ih c.threads.length
      rw [rest_length] at hf
      exact hf ▸ hh
    cases e with
    | call q =>
      cases hn
      rw [rest_append]
      split
      · subst i
        exact ⟨D.start, hfree, hbody q _ he⟩
      · exact ih i
    | step j pick =>
      cases hq : c.threads[j]? with
      | none => simp [Config.next, hq] at hn
      | some q =>
        obtain ⟨h, hh, hf⟩ := ih j
        rw [rest_of_getElem? hq] at hf
        cases q with
        | ret a => simp [Config.next, hq] at hn
        | op o k =>
          simp only [Config.next, hq] at hn
          split at hn
          · rename_i b s hb
            cases hn
            have hb := List.mem_of_getElem? hb
            rw [rest_set hq]
            split
            · subst i
              exact ⟨D.after h o, own hh hf.1 hb, hf.2 b⟩
            · obtain ⟨h', hh', hf'⟩ := ih i
              exact ⟨h', other ‹_› hh hf.1 hb hh', hf'⟩
          · cases hn
        | fork r k =>
          simp only [Config.next, hq] at hn
          cases hn
          rw [rest_append, rest_set hq, List.length_set]
          split
          · subst i
            exact ⟨D.start, hfree, hf.1⟩
          split
          · subst i
            exact ⟨h, hh, hf.2⟩
          · exact ih i
        | iter loop t k =>
          simp only [Config.next, hq] at hn
          cases hn
          rw [rest_set hq]
          split
          · subst i
            refine ⟨h, hh, Keeps.bind (hf.1 t) fun r => ?_⟩
            cases r with
            | inl t' => exact hf
            | inr b => exact hf.2 b
          · exact ih i

theorem follows_of_reachable (R : Realizes m G D holds) {body : Call → Prog Op Unit}
    (hbody : ∀ q s, G.callOk s q → D.Keeps D.start (body q)) {init : σ} {c : Config Op σ}
    (hc : Reachable m body G init c) {i : Nat} {p : Prog Op Unit} (hp : c.threads[i]? = some p) :
    ∃ h, holds i c.shared h ∧ D.Follows h p fun _ h' => h' = D.start :=
  rest_of_getElem? hp ▸ follows_rest hbody (fun i => R.start i init) R.own R.other hc i

/-- The guard that also asks every step to be as the discipline says. -/
def guard (D : Discipline Op τ) (G : Guard Op σ Call) (holds : Nat → σ → τ → Prop) :
    Guard Op σ Call where
  callOk := G.callOk
  opOk i s _ o := G.opOk i s o ∧ ∃ h, holds i s h ∧ D.ok h o

theorem verifies (R : Realizes m G D holds) {body : Call → Prog Op Unit}
    (hbody : ∀ q s, G.callOk s q → D.Keeps D.start (body q)) : (spec m G D holds).Verifies body :=
  fun q i s hq _ _ => ((hbody q s hq).safe R (R.start i s)).mono fun _ _ _ _ => ⟨rfl, trivial⟩

theorem enabled (R : Realizes m G D holds) {body : Call → Prog Op Unit}
    (hbody : ∀ q s, G.callOk s q → D.Keeps D.start (body q)) {init : σ} {c : Config Op σ}
    {e : Event Call} (hc : Reachable m body G init c) (he : G.Enabled c e) :
    (D.guard G holds).Enabled c e := by
  have hpool := Spec.pool_of_reachable trivial (fun _ => trivial) (verifies R hbody) hc
  refine Guard.Enabled.mono (G := (spec m G D holds).guard) ?_ ?_ (hpool.enabled he)
  · exact fun _ _ h => h.1
  · exact fun _ _ _ _ h => ⟨h.1, h.2.1⟩

/-- Every run of programs that follow a discipline keeps it. -/
theorem reachable_guard (R : Realizes m G D holds) {body : Call → Prog Op Unit}
    (hbody : ∀ q s, G.callOk s q → D.Keeps D.start (body q)) {init : σ} {c : Config Op σ}
    (hc : Reachable m body G init c) : Reachable m body (D.guard G holds) init c :=
  (Spec.reachable_guard trivial (fun _ => trivial) (verifies R hbody) hc).mono
    (fun _ _ h => h.1) fun _ _ _ _ h => ⟨h.1, h.2.1⟩

theorem taken_guard (R : Realizes m G D holds) {body : Call → Prog Op Unit}
    (hbody : ∀ q s, G.callOk s q → D.Keeps D.start (body q)) {init : σ} {c c' : Config Op σ}
    {e : Event Call} (h : Taken m body G init c e c') :
    Taken m body (D.guard G holds) init c e c' where
  reach := reachable_guard R hbody h.reach
  enabled := enabled R hbody h.reach h.enabled
  next := h.next

end Discipline

end PoseidonServer.Concurrent
