import Mathlib.Data.Set.Finite.Basic
import Mathlib.Logic.Relation

/-! Computations that may fault or fail to end. A loop is given fuel, and what it computes is
what it computes with enough of it. -/

namespace PoseidonServer

inductive Outcome (α : Type)
  | ok (a : α)
  | fault
  | running
  deriving DecidableEq

namespace Outcome

def bind : Outcome α → (α → Outcome β) → Outcome β
  | .ok a, f => f a
  | .fault, _ => .fault
  | .running, _ => .running

instance : Monad Outcome where
  pure := .ok
  bind := bind

@[simp] theorem pure_eq (a : α) : (pure a : Outcome α) = .ok a := rfl

@[simp] theorem ok_bind (a : α) (f : α → Outcome β) : (ok a >>= f) = f a := rfl

@[simp] theorem fault_bind (f : α → Outcome β) : (fault >>= f) = fault := rfl

@[simp] theorem running_bind (f : α → Outcome β) : (running >>= f) = running := rfl

theorem bind_eq_ok {o : Outcome α} {f : α → Outcome β} {b : β} :
    (o >>= f) = .ok b ↔ ∃ a, o = .ok a ∧ f a = .ok b := by
  cases o <;> simp

theorem exists_map_eq_ok {o : Outcome α} (g : α → β) :
    (∃ b, (o >>= fun a => .ok (g a)) = .ok b) ↔ ∃ a, o = .ok a := by
  cases o <;> simp

/-- With more fuel the outcome stays what it is. -/
def Settles (f : Nat → Outcome α) : Prop := ∀ n, f n ≠ .running → f (n + 1) = f n

/-- With enough fuel the computation returns a value. -/
def Returns (f : Nat → Outcome α) : Prop := ∃ n a, f n = .ok a

theorem returns_const_iff {o : Outcome α} : Returns (fun _ => o) ↔ ∃ a, o = .ok a :=
  ⟨fun ⟨_, a, h⟩ => ⟨a, h⟩, fun ⟨a, h⟩ => ⟨0, a, h⟩⟩

variable {f : Nat → Outcome α}

theorem Settles.le (hf : Settles f) {n m : Nat} (h : n ≤ m) (hn : f n ≠ .running) :
    f m = f n := by
  induction h with
  | refl => rfl
  | step _ ih => rw [hf _ (ih ▸ hn), ih]

theorem settles_const (o : Outcome α) : Settles fun _ => o := fun _ _ => rfl

theorem Settles.bind {g : α → Nat → Outcome β} (hf : Settles f) (hg : ∀ a, Settles (g a)) :
    Settles fun n => f n >>= fun a => g a n := by
  intro n hn
  dsimp only at hn ⊢
  have hfn : f n ≠ .running := fun h => hn (by rw [h, running_bind])
  rw [hf n hfn]
  cases h : f n with
  | ok a =>
    rw [h] at hn
    exact hg a n hn
  | fault => rfl
  | running => rfl

theorem returns_bind_iff {g : α → Nat → Outcome β} (hf : Settles f) (hg : ∀ a, Settles (g a)) :
    Returns (fun n => f n >>= fun a => g a n) ↔ ∃ n a, f n = .ok a ∧ Returns (g a) := by
  constructor
  · rintro ⟨n, b, h⟩
    obtain ⟨a, ha, hb⟩ := bind_eq_ok.1 h
    exact ⟨n, a, ha, n, b, hb⟩
  · rintro ⟨n, a, ha, m, b, hb⟩
    refine ⟨max n m, b, bind_eq_ok.2 ⟨a, ?_, ?_⟩⟩
    · rw [hf.le (le_max_left n m) (by simp [ha]), ha]
    · rw [(hg a).le (le_max_right n m) (by simp [hb]), hb]

theorem returns_map_iff (g : α → β) : Returns (fun n => f n >>= fun a => .ok (g a)) ↔ Returns f :=
  exists_congr fun _ => exists_map_eq_ok g

/-- `for { body }`: each round leaves with a value or goes on from a new state. -/
def loop (body : σ → Nat → Outcome (σ ⊕ α)) : σ → Nat → Outcome α
  | _, 0 => .running
  | s, n + 1 => body s n >>= fun
    | .inl s' => loop body s' n
    | .inr a => .ok a

variable {body : σ → Nat → Outcome (σ ⊕ α)}

theorem settles_loop (hbody : ∀ s, Settles (body s)) (s : σ) :
    Settles (loop body s) := by
  intro n
  induction n generalizing s with
  | zero => intro hn; exact absurd rfl hn
  | succ n ih =>
    intro hn
    simp only [loop] at hn ih ⊢
    have hb : body s n ≠ .running := fun h => hn (by rw [h, running_bind])
    rw [hbody s n hb]
    cases h : body s n with
    | ok r =>
      cases r with
      | inl s' =>
        rw [h] at hn
        exact ih s' hn
      | inr a => rfl
    | fault => rfl
    | running => rfl

section Walk

open Relation

variable {pos : σ → ι} {leads : ι → ι → Prop}

/-- A loop whose rounds only depend on a position returns a value exactly when every position
on its way is good and none is met again. -/
theorem returns_loop_iff (good : ι → Prop) (hbody : ∀ s, Settles (body s))
    (hgood : ∀ s, Returns (body s) ↔ good (pos s))
    (hnext : ∀ s n r, body s n = .ok r →
      ∀ p, leads (pos s) p ↔ ∃ s', r = .inl s' ∧ pos s' = p)
    (hfin : {p | ∃ q, leads p q}.Finite) (s : σ) :
    Returns (loop body s) ↔
      ∀ p, ReflTransGen leads (pos s) p → good p ∧ ¬TransGen leads p p := by
  constructor
  · rintro ⟨n, a, h⟩
    induction n generalizing s with
    | zero => cases h
    | succ n ih =>
      simp only [loop] at h
      cases hb : body s n with
      | fault => simp [hb] at h
      | running => simp [hb] at h
      | ok r =>
        have hs : good (pos s) := (hgood s).1 ⟨n, r, hb⟩
        cases r with
        | inr a =>
          have hstop : ∀ q, ¬leads (pos s) q := fun q hq => by
            obtain ⟨s', hs', -⟩ := (hnext s n _ hb q).1 hq
            cases hs'
          intro p hp
          obtain rfl : pos s = p := by
            obtain rfl | ⟨q, hq, -⟩ := hp.cases_head
            · rfl
            · exact absurd hq (hstop q)
          exact ⟨hs, fun hc => by
            obtain ⟨q, hq, -⟩ := TransGen.head'_iff.1 hc
            exact hstop q hq⟩
        | inl s' =>
          simp only [hb, ok_bind] at h
          have ih := ih s' h
          have honly : ∀ q, leads (pos s) q → q = pos s' := fun q hq => by
            obtain ⟨t, ht, rfl⟩ := (hnext s n _ hb q).1 hq
            cases ht
            rfl
          intro p hp
          obtain rfl | ⟨q, hq, hqp⟩ := hp.cases_head
          · refine ⟨hs, fun hc => ?_⟩
            obtain ⟨q, hq, hqs⟩ := TransGen.head'_iff.1 hc
            rw [honly q hq] at hqs
            exact (ih _ hqs).2 hc
          · rw [honly q hq] at hqp
            exact ih p hqp
  · -- by induction on the positions that can still be passed
    suffices ∀ (F : Finset ι) s, (∀ p q, ReflTransGen leads (pos s) p → leads p q → p ∈ F) →
        (∀ p, ReflTransGen leads (pos s) p → good p ∧ ¬TransGen leads p p) →
        Returns (loop body s) by
      exact this hfin.toFinset s fun p q _ hq => by simpa using ⟨q, hq⟩
    classical
    intro F
    induction F using Finset.strongInduction with
    | H F ih =>
      intro s hF h
      obtain ⟨n, r, hb⟩ := (hgood s).2 (h _ .refl).1
      cases r with
      | inr a => exact ⟨n + 1, a, by simp [loop, hb]⟩
      | inl s' =>
        have hs' : leads (pos s) (pos s') := (hnext s n _ hb _).2 ⟨s', rfl, rfl⟩
        have hmem : pos s ∈ F := hF _ _ .refl hs'
        obtain ⟨m, a, hm⟩ := ih (F.erase (pos s)) (Finset.erase_ssubset hmem) s'
          (fun p q hp hq => Finset.mem_erase.2
            ⟨fun hps => (h _ .refl).2 (.head' hs' (hps ▸ hp)), hF p q (.head hs' hp) hq⟩)
          (fun p hp => h p (.head hs' hp))
        refine ⟨max n m + 1, a, ?_⟩
        have hbody' := (hbody s).le (le_max_left n m) (by rw [hb]; simp)
        have hloop' := (settles_loop hbody s').le (le_max_right n m) (by rw [hm]; simp)
        simp only [loop]
        rw [hbody', hb, ok_bind]
        exact hloop'.trans hm

end Walk

end Outcome

end PoseidonServer
