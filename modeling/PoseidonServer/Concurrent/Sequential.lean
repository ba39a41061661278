import PoseidonServer.Concurrent.Prog

/-! One goroutine on its own: what a program without loops and without `go` returns, and in
which states. -/

namespace PoseidonServer.Concurrent

variable {Op : Type → Type} {σ : Type}

/-- The results of running the program alone, with the states after. A program that loops or
forks has none. -/
def Prog.outcomes (m : Machine Op σ) (i : Nat) : Prog Op α → σ → List (α × σ)
  | .ret a, s => [(a, s)]
  | .op o k, s => (m.exec i o s).flatMap fun r => (k r.1).outcomes m i r.2
  | .fork .., _ => []
  | .iter .., _ => []

def Yields (m : Machine Op σ) (i : Nat) (p : Prog Op α) (s : σ) (Q : α → σ → Prop) : Prop :=
  p.outcomes m i s ≠ [] ∧ ∀ r ∈ p.outcomes m i s, Q r.1 r.2

variable {m : Machine Op σ} {i : Nat} {s : σ} {Q R : α → σ → Prop}

@[simp] theorem yields_ret (a : α) : Yields m i (.ret a) s Q ↔ Q a s := by
  simp [Yields, Prog.outcomes]

theorem yields_op {o : Op β} {k : β → Prog Op α} (hne : m.exec i o s ≠ [])
    (h : ∀ r ∈ m.exec i o s, Yields m i (k r.1) r.2 Q) : Yields m i (.op o k) s Q := by
  constructor
  · obtain ⟨r, hr⟩ := List.exists_mem_of_ne_nil _ hne
    obtain ⟨r', hr'⟩ := List.exists_mem_of_ne_nil _ (h r hr).1
    exact List.ne_nil_of_mem (List.mem_flatMap.2 ⟨r, hr, hr'⟩)
  · intro r' hr'
    obtain ⟨r, hr, hr'⟩ := List.mem_flatMap.1 hr'
    exact (h r hr).2 r' hr'

theorem yields_op_of_eq {o : Op β} {k : β → Prog Op α} {r : β × σ} (ho : m.exec i o s = [r]) :
    Yields m i (.op o k) s Q ↔ Yields m i (k r.1) r.2 Q := by
  simp [Yields, Prog.outcomes, ho]

theorem Prog.outcomes_bind (p : Prog Op α) (f : α → Prog Op β) (s : σ) :
    (p.bind f).outcomes m i s = (p.outcomes m i s).flatMap fun r => (f r.1).outcomes m i r.2 := by
  induction p generalizing s with
  | ret a => simp [outcomes]
  | op o k ih => simp [outcomes, ih, List.flatMap_assoc]
  | fork | iter => rfl

theorem Yields.bind {p : Prog Op β} {f : β → Prog Op α} {R : β → σ → Prop} (hp : Yields m i p s R)
    (hf : ∀ b s, R b s → Yields m i (f b) s Q) : Yields m i (p.bind f) s Q := by
  unfold Yields
  rw [Prog.outcomes_bind]
  constructor
  · obtain ⟨r, hr⟩ := List.exists_mem_of_ne_nil _ hp.1
    obtain ⟨r', hr'⟩ := List.exists_mem_of_ne_nil _ (hf _ _ (hp.2 r hr)).1
    exact List.ne_nil_of_mem (List.mem_flatMap.2 ⟨r, hr, hr'⟩)
  · intro r' hr'
    obtain ⟨r, hr, hr'⟩ := List.mem_flatMap.1 hr'
    exact (hf _ _ (hp.2 r hr)).2 r' hr'

end PoseidonServer.Concurrent
