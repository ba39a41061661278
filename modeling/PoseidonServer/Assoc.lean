import Mathlib.Data.List.Nodup

/-! Maps as lists of keys and values, with the latest insertion in front. -/

namespace PoseidonServer.Assoc

variable {κ ν : Type} {m m' : List (κ × ν)} {k k' : κ} {v : ν}

def Distinct (m : List (κ × ν)) : Prop := (m.map (·.1)).Nodup

theorem Distinct.sublist (h : Distinct m) (hs : m'.Sublist m) : Distinct m' :=
  List.Nodup.sublist (hs.map _) h

variable [DecidableEq κ]

def get (m : List (κ × ν)) (k : κ) : Option ν := (m.find? (·.1 = k)).map (·.2)

def replace (m : List (κ × ν)) (k : κ) (v : ν) : List (κ × ν) :=
  m.map fun e => if e.1 = k then (k, v) else e

theorem get_cons (e : κ × ν) : get (e :: m) k = if e.1 = k then some e.2 else get m k := by
  unfold get
  rw [List.find?_cons]
  by_cases h : e.1 = k <;> simp [h]

theorem mem_of_get (h : get m k = some v) : (k, v) ∈ m := by
  induction m with
  | nil => cases h
  | cons e m ih =>
    rw [get_cons] at h
    split at h
    · rename_i hk
      cases h
      subst hk
      exact List.mem_cons_self
    · exact List.mem_cons_of_mem e (ih h)

theorem get_eq_none : get m k = none ↔ k ∉ m.map (·.1) := by
  induction m with
  | nil => simp [get]
  | cons e m ih =>
    rw [get_cons, List.map_cons, List.mem_cons]
    by_cases h : e.1 = k
    · simp [h]
    · simp [h, ih, Ne.symm h]

theorem get_eq_some (hm : Distinct m) : get m k = some v ↔ (k, v) ∈ m := by
  refine ⟨mem_of_get, fun h => ?_⟩
  induction m with
  | nil => cases h
  | cons e m ih =>
    obtain ⟨he, hm⟩ := List.nodup_cons.1 hm
    rw [get_cons]
    obtain rfl | h := List.mem_cons.1 h
    · rw [if_pos rfl]
    · have hk : e.1 ≠ k := by
        rintro rfl
        exact he (List.mem_map.2 ⟨_, h, rfl⟩)
      rw [if_neg hk, ih hm h]

theorem get_replace : get (replace m k' v) k =
    if k = k' then (get m k').map fun _ => v else get m k := by
  induction m with
  | nil => simp [replace, get]
  | cons e m ih =>
    rw [replace, List.map_cons, get_cons, get_cons, get_cons]
    rw [replace] at ih
    rw [ih]
    by_cases he : e.1 = k' <;> by_cases hk : k = k'
    · simp [he, hk]
    · simp [he, hk, Ne.symm hk]
    · subst hk
      simp [he]
    · simp [he, hk]

theorem map_fst_replace : (replace m k v).map (·.1) = m.map (·.1) := by
  rw [replace, List.map_map]
  apply List.map_congr_left
  intro e _
  by_cases h : e.1 = k <;> simp [h]

theorem get_sublist (h : Distinct m) (hs : m'.Sublist m) (hg : get m' k = some v) :
    get m k = some v :=
  (get_eq_some h).2 (hs.subset (mem_of_get hg))

theorem get_filter (h : Distinct m) (p : κ × ν → Bool) :
    get (m.filter p) k = (get m k).filter fun v => p (k, v) := by
  ext v
  rw [get_eq_some (h.sublist List.filter_sublist), List.mem_filter, Option.filter_eq_some_iff,
    get_eq_some h]

end PoseidonServer.Assoc
