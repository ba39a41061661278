import PoseidonServer.Concurrent.Prog

/-! Machines with an observer, who takes notes after each operation. The notes are for conditions
on runs that the state alone does not show; they do not change what the goroutines do. -/

namespace PoseidonServer.Concurrent

variable {Op : Type → Type} {σ τ Call : Type}

def Machine.observed (m : Machine Op σ) (see : Nat → {β : Type} → Op β → β → τ → τ) :
    Machine Op (σ × τ) where
  exec i _ o s := (m.exec i o s.1).map fun r => (r.1, r.2, see i o r.1 s.2)

def Config.noted (c : Config Op σ) (t : τ) : Config Op (σ × τ) := ⟨(c.shared, t), c.threads⟩

def Guard.noted (G : Guard Op σ Call) : Guard Op (σ × τ) Call where
  callOk s q := G.callOk s.1 q
  opOk i s _ o := G.opOk i s.1 o

variable {m : Machine Op σ} {see : Nat → {β : Type} → Op β → β → τ → τ}
  {body : Call → Prog Op Unit} {G : Guard Op σ Call}

theorem mem_observed {i : Nat} {o : Op β} {b : β} {s s' : σ × τ}
    (h : (b, s') ∈ (m.observed see).exec i o s) :
    (b, s'.1) ∈ m.exec i o s.1 ∧ s'.2 = see i o b s.2 := by
  obtain ⟨⟨b', w⟩, hw, hb⟩ := List.mem_map.1 h
  cases hb
  exact ⟨hw, rfl⟩

theorem Config.next_noted {c c' : Config Op σ} {e : Event Call} (t : τ)
    (h : c.next m body e = some c') :
    ∃ t', (c.noted t).next (m.observed see) body e = some (c'.noted t') := by
  cases e with
  | call q =>
    cases h
    exact ⟨t, rfl⟩
  | step i pick =>
    simp only [next] at h
    split at h
    · rename_i o k hp
      split at h
      · rename_i b s hb
        cases h
        exact ⟨see i o b t, by simp [next, noted, Machine.observed, hp, hb]⟩
      · cases h
    · rename_i hp
      cases h
      exact ⟨t, by simp [next, noted, hp]⟩
    · rename_i hp
      cases h
      exact ⟨t, by simp [next, noted, hp]⟩
    · cases h

theorem Config.next_of_noted {c : Config Op σ} {c' : Config Op (σ × τ)} {t : τ} {e : Event Call}
    (h : (c.noted t).next (m.observed see) body e = some c') :
    c.next m body e = some ⟨c'.shared.1, c'.threads⟩ := by
  cases e with
  | call q =>
    cases h
    rfl
  | step i pick =>
    simp only [next, noted] at h
    split at h
    · rename_i o k hp
      simp only [Machine.observed, List.getElem?_map] at h
      cases hb : (m.exec i o c.shared)[pick]? with
      | none => simp [hb] at h
      | some r =>
        simp only [hb, Option.map_some, Option.some.injEq] at h
        subst h
        simp [next, hp, hb]
    · rename_i hp
      cases h
      simp [next, hp]
    · rename_i hp
      cases h
      simp [next, hp]
    · cases h

/-- The runs of the machine are the runs of the observed one without the notes. -/
theorem reachable_observed_iff {init : σ} {c : Config Op σ} (t₀ : τ) :
    Reachable m body G init c ↔
      ∃ t, Reachable (m.observed see) body G.noted (init, t₀) (c.noted t) := by
  refine ⟨fun h => ?_, fun ⟨t, h⟩ => ?_⟩
  · induction h with
    | init => exact ⟨t₀, .init⟩
    | next _ he hn ih =>
      obtain ⟨t, ih⟩ := ih
      obtain ⟨t', hn⟩ := Config.next_noted t hn
      exact ⟨t', ih.next he hn⟩
  · have hall {c' : Config Op (σ × τ)} (h : Reachable (m.observed see) body G.noted (init, t₀) c') :
        Reachable m body G init ⟨c'.shared.1, c'.threads⟩ := by
      induction h with
      | init => exact .init
      | @next c₁ e c₂ _ he hn ih => exact ih.next he (Config.next_of_noted (t := c₁.shared.2) hn)
    exact hall h

end PoseidonServer.Concurrent
