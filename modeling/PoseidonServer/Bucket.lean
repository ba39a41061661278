import Mathlib.Algebra.Order.Field.Basic
import Mathlib.Data.List.Chain
import Mathlib.Tactic.Linarith

/-! Token buckets over an ordered field. -/

namespace PoseidonServer

/-- The tokens of a bucket and the time at which it had them. -/
structure Bucket (α : Type) where
  tokens : α
  last : α

namespace Bucket

variable {α : Type} [Field α] [LinearOrder α]

section Defs

variable (rate burst : α)

def level (b : Bucket α) (t : α) : α := min (b.tokens + rate * (t - b.last)) burst

def take (b : Bucket α) (t : α) : Bool × Bucket α :=
  if 1 ≤ b.level rate burst t then (true, ⟨b.level rate burst t - 1, t⟩)
  else (false, ⟨b.level rate burst t, t⟩)

def trace (b : Bucket α) : List α → List (α × Bool)
  | [] => []
  | t :: ts => (t, (b.take rate burst t).1) :: (b.take rate burst t).2.trace ts

end Defs

def admitted (x y : α) (calls : List (α × Bool)) : Nat :=
  calls.countP fun c => c.2 && decide (x ≤ c.1 ∧ c.1 ≤ y)

def Proper (burst : α) (b : Bucket α) : Prop := 0 ≤ b.tokens ∧ b.tokens ≤ burst

variable {rate burst : α} {b : Bucket α} {t x y : α} {ts : List α}

theorem level_le (rate burst : α) (b : Bucket α) (t : α) : b.level rate burst t ≤ burst :=
  min_le_right _ _

theorem level_le_add (rate burst : α) (b : Bucket α) (t : α) :
    b.level rate burst t ≤ b.tokens + rate * (t - b.last) := min_le_left _ _

theorem take_spec (rate burst : α) (b : Bucket α) (t : α) :
    (b.take rate burst t).2.last = t ∧
    (b.take rate burst t).2.tokens + (if (b.take rate burst t).1 then 1 else 0) =
      b.level rate burst t := by
  unfold take
  split <;> simp

theorem take_congr {b' : Bucket α} (h : b.level rate burst t = b'.level rate burst t) :
    b.take rate burst t = b'.take rate burst t := by
  rw [take, take, h]

theorem trace_congr {b' : Bucket α}
    (h : ∀ t ∈ ts.head?, b.level rate burst t = b'.level rate burst t) :
    b.trace rate burst ts = b'.trace rate burst ts := by
  cases ts with
  | nil => rfl
  | cons t ts => rw [trace, trace, take_congr (h t rfl)]

theorem trace_take (n : Nat) :
    (b.trace rate burst ts).take n = b.trace rate burst (ts.take n) := by
  induction ts generalizing b n with
  | nil => simp [trace]
  | cons t ts ih =>
    cases n with
    | zero => rfl
    | succ n => rw [trace, List.take_succ_cons, ih, List.take_succ_cons, trace]

variable [IsStrictOrderedRing α]

theorem level_full (hrate : 0 ≤ rate) (hb : b.tokens = burst) (ht : b.last ≤ t) :
    b.level rate burst t = burst := by
  rw [level, hb]
  exact min_eq_right (le_add_of_nonneg_right (mul_nonneg hrate (sub_nonneg.2 ht)))

theorem level_refilled (hb : b.Proper burst) (h : burst ≤ rate * (t - b.last)) :
    b.level rate burst t = burst :=
  min_eq_right (h.trans (le_add_of_nonneg_left hb.1))

theorem tokens_le_level (hrate : 0 ≤ rate) (hb : b.Proper burst) (ht : b.last ≤ t) :
    b.tokens ≤ b.level rate burst t :=
  le_min (le_add_of_nonneg_right (mul_nonneg hrate (sub_nonneg.2 ht))) hb.2

theorem take_proper (hrate : 0 ≤ rate) (hb : b.Proper burst) (ht : b.last ≤ t) :
    (b.take rate burst t).2.Proper burst := by
  have h0 : 0 ≤ b.level rate burst t := hb.1.trans (tokens_le_level hrate hb ht)
  have h1 := level_le rate burst b t
  unfold take
  split
  · rename_i h
    exact ⟨sub_nonneg.2 h, (sub_le_self _ zero_le_one).trans h1⟩
  · exact ⟨h0, h1⟩

def budget (rate burst x y : α) (b : Bucket α) : α :=
  if b.last < x then burst + rate * (y - x)
  else if b.last ≤ y then b.tokens + rate * (y - b.last)
  else 0

theorem budget_nonneg (hrate : 0 ≤ rate) (hb : b.Proper burst) (hxy : x ≤ y) :
    0 ≤ b.budget rate burst x y := by
  unfold budget
  split
  · exact add_nonneg (hb.1.trans hb.2) (mul_nonneg hrate (sub_nonneg.2 hxy))
  split
  · rename_i h
    exact add_nonneg hb.1 (mul_nonneg hrate (sub_nonneg.2 h))
  · exact le_rfl

theorem budget_take (hrate : 0 ≤ rate) (hb : b.Proper burst) (ht : b.last ≤ t) (hxy : x ≤ y) :
    (b.take rate burst t).2.budget rate burst x y +
      (if (b.take rate burst t).1 && decide (x ≤ t ∧ t ≤ y) then 1 else 0) ≤
      b.budget rate burst x y := by
  obtain ⟨hlast, htokens⟩ := take_spec rate burst b t
  generalize b.take rate burst t = r at hlast htokens
  by_cases hx : t < x
  · rw [budget, hlast, if_pos hx, budget, if_pos (ht.trans_lt hx)]
    simp [not_le.2 hx]
  rw [budget, hlast, if_neg hx]
  by_cases hy : t ≤ y
  · have hle := level_le rate burst b t
    have hadd := level_le_add rate burst b t
    have hflow : rate * (y - t) ≤ rate * (y - x) :=
      mul_le_mul_of_nonneg_left (sub_le_sub_left (not_lt.1 hx) y) hrate
    have hind : (if r.1 && decide (x ≤ t ∧ t ≤ y) then (1 : α) else 0) = if r.1 then 1 else 0 := by
      simp [not_lt.1 hx, hy]
    rw [if_pos hy, hind, budget]
    by_cases hlx : b.last < x
    · rw [if_pos hlx]
      linarith
    · rw [if_neg hlx, if_pos (ht.trans hy)]
      linarith
  · rw [if_neg hy]
    simpa [hy] using budget_nonneg hrate hb hxy

/-- Between any two times a bucket admits no more than its size and what flows into it. -/
theorem admitted_le (hrate : 0 ≤ rate) (hb : b.Proper burst) (hxy : x ≤ y)
    (hts : List.IsChain (· ≤ ·) (b.last :: ts)) :
    (admitted x y (b.trace rate burst ts) : α) ≤ b.budget rate burst x y := by
  induction ts generalizing b with
  | nil => simpa [admitted, trace] using budget_nonneg hrate hb hxy
  | cons t ts ih =>
    obtain ⟨ht, hts⟩ := List.isChain_cons_cons.1 hts
    have hlast := (take_spec rate burst b t).1
    have htail := ih (take_proper hrate hb ht) (by rwa [hlast])
    calc (admitted x y (b.trace rate burst (t :: ts)) : α)
      _ = admitted x y ((b.take rate burst t).2.trace rate burst ts) +
          (if (b.take rate burst t).1 && decide (x ≤ t ∧ t ≤ y) then 1 else 0) := by
        rw [trace, admitted, List.countP_cons, Nat.cast_add, Nat.cast_ite, Nat.cast_one,
          Nat.cast_zero]
        rfl
      _ ≤ _ := add_le_add_left htail _
      _ ≤ _ := budget_take hrate hb ht hxy

theorem budget_le (hrate : 0 ≤ rate) (hb : b.Proper burst) (hxy : x ≤ y) :
    b.budget rate burst x y ≤ burst + rate * (y - x) := by
  unfold budget
  split
  · exact le_rfl
  split
  · rename_i h _
    have hflow : rate * (y - b.last) ≤ rate * (y - x) :=
      mul_le_mul_of_nonneg_left (sub_le_sub_left (not_lt.1 h) y) hrate
    linarith [hb.2]
  · exact add_nonneg (hb.1.trans hb.2) (mul_nonneg hrate (sub_nonneg.2 hxy))

theorem trace_all (hrate : 0 ≤ rate) (hb : b.Proper burst)
    (hts : List.IsChain (· ≤ ·) (b.last :: ts))
    (hlevel : ∀ t ∈ ts.head?, (ts.length : α) ≤ b.level rate burst t) :
    ∀ c ∈ b.trace rate burst ts, c.2 = true := by
  induction ts generalizing b with
  | nil => simp [trace]
  | cons t ts ih =>
    obtain ⟨ht, hts⟩ := List.isChain_cons_cons.1 hts
    obtain ⟨hlast, htokens⟩ := take_spec rate burst b t
    have hlen : (ts.length : α) + 1 ≤ b.level rate burst t := by
      simpa using hlevel t (by simp)
    have hone : 1 ≤ b.level rate burst t := le_trans (by simp) hlen
    have hok : (b.take rate burst t).1 = true := by
      rw [take, if_pos hone]
    have hproper := take_proper hrate hb ht
    rw [hok, if_pos rfl] at htokens
    refine List.forall_mem_cons.2 ⟨hok, ih hproper (by rwa [hlast]) ?_⟩
    intro t' ht'
    have hle : t ≤ t' := by
      cases ts with
      | nil => cases ht'
      | cons t'' ts =>
        cases ht'
        exact (List.isChain_cons_cons.1 hts).1
    have := tokens_le_level hrate hproper (hlast.le.trans hle)
    linarith

end Bucket

end PoseidonServer
