import Mathlib.Data.List.Basic

/-! Streams that a reader cuts into items, and loops that take one item after the other until
one of them is refused. -/

namespace PoseidonServer

/-- Calls give the values `as` one after the other, and then fail for the first time. -/
inductive Drains (call : σ → Except ε α × σ) : σ → List α → ε → Prop
  | stop : call s = (.error e, s') → Drains call s [] e
  | more : call s = (.ok a, s') → Drains call s' as e → Drains call s (a :: as) e

theorem Drains.map {call : σ → Except ε α × σ} {call' : σ' → Except ε α × σ'} {g : σ → σ'}
    (hg : ∀ s, call' (g s) = ((call s).1, g (call s).2)) {s : σ} {as : List α} {e : ε}
    (h : Drains call s as e) : Drains call' (g s) as e := by
  induction h with
  | stop hs => exact .stop ((hg _).trans (by rw [hs]))
  | more hs _ ih => exact .more ((hg _).trans (by rw [hs])) ih

theorem Drains.unique {call : σ → Except ε α × σ} {s : σ} {as as' : List α} {e e' : ε}
    (h : Drains call s as e) (h' : Drains call s as' e') : as = as' ∧ e = e' := by
  induction h generalizing as' with
  | stop hs =>
    cases h' with
    | stop hs' =>
      cases hs.symm.trans hs'
      exact ⟨rfl, rfl⟩
    | more hs' => cases hs.symm.trans hs'
  | more hs _ ih =>
    cases h' with
    | stop hs' => cases hs.symm.trans hs'
    | more hs' h' =>
      cases hs.symm.trans hs'
      obtain ⟨rfl, rfl⟩ := ih h'
      exact ⟨rfl, rfl⟩

/-- Takes an item off the front of a stream, from a non-empty part of it. -/
structure Reader (ι τ : Type) where
  next : List ι → Option (τ × List ι)
  shorter : ∀ {s t rest}, next s = some (t, rest) → rest.length < s.length

namespace Reader

variable {ι τ : Type} (R : Reader ι τ)

inductive Cuts : List ι → List τ → List ι → Prop
  | stop : R.next s = none → Cuts s [] s
  | item : R.next s = some (t, s') → Cuts s' ts rest → Cuts s (t :: ts) rest

theorem exists_cuts (s : List ι) : ∃ ts rest, R.Cuts s ts rest := by
  induction hn : s.length using Nat.strongRecOn generalizing s with
  | ind n ih =>
    cases hs : R.next s with
    | none => exact ⟨[], s, .stop hs⟩
    | some r =>
      obtain ⟨ts, rest, h⟩ := ih _ (hn ▸ R.shorter hs) r.2 rfl
      exact ⟨r.1 :: ts, rest, .item hs h⟩

variable {R} {s rest : List ι} {ts : List τ}

theorem Cuts.unique {ts' : List τ} {rest' : List ι} (h : R.Cuts s ts rest)
    (h' : R.Cuts s ts' rest') : ts = ts' ∧ rest = rest' := by
  induction h generalizing ts' with
  | stop hs =>
    cases h' with
    | stop => exact ⟨rfl, rfl⟩
    | item hs' => simp [hs] at hs'
  | item hs _ ih =>
    cases h' with
    | stop hs' => simp [hs] at hs'
    | item hs' h' =>
      rw [hs] at hs'
      cases hs'
      obtain ⟨rfl, rfl⟩ := ih h'
      exact ⟨rfl, rfl⟩

theorem Cuts.stuck (h : R.Cuts s ts rest) : R.next rest = none := by
  induction h with
  | stop hs => exact hs
  | item _ _ ih => exact ih

def Stable (R : Reader ι τ) : Prop :=
  ∀ {s t rest}, R.next s = some (t, rest) → ∀ u, R.next (s ++ u) = some (t, rest ++ u)

theorem Cuts.append (hR : R.Stable) {u rest' : List ι} {ts' : List τ} (h : R.Cuts s ts rest)
    (h' : R.Cuts (rest ++ u) ts' rest') : R.Cuts (s ++ u) (ts ++ ts') rest' := by
  induction h with
  | stop => exact h'
  | item hs _ ih => exact .item (hR hs u) (ih h')

variable (R) in
/-- `for { item, err := read(); ... }` with the number of rounds it can take. -/
def process (step : σ → τ → Except ε σ) (stop : σ → List ι → Except ε α) :
    Nat → σ → List ι → Except ε α
  | 0, st, s => stop st s
  | n + 1, st, s => match R.next s with
    | none => stop st s
    | some (t, rest) => step st t >>= fun st => process step stop n st rest

theorem Cuts.process_eq (h : R.Cuts s ts rest) (step : σ → τ → Except ε σ)
    (stop : σ → List ι → Except ε α) {n : Nat} (hn : s.length < n) (st : σ) :
    R.process step stop n st s = ts.foldlM step st >>= fun st => stop st rest := by
  induction h generalizing n st with
  | stop hs =>
    cases n with
    | zero => simp at hn
    | succ n => simp [process, hs]
  | item hs _ ih =>
    cases n with
    | zero => simp at hn
    | succ n =>
      have hlt := R.shorter hs
      simp only [process, hs, List.foldlM_cons, bind_assoc]
      exact bind_congr fun st => ih (by omega) st

theorem Cuts.drains {call : σ → Except ε α × σ} (view : σ → List ι) (f : τ → α) (err : List ι → ε)
    (hitem : ∀ s t rest, R.next (view s) = some (t, rest) →
      ∃ s', call s = (.ok (f t), s') ∧ view s' = rest)
    (hstop : ∀ s, R.next (view s) = none → ∃ s', call s = (.error (err (view s)), s'))
    {st : σ} (h : R.Cuts (view st) ts rest) : Drains call st (ts.map f) (err rest) := by
  generalize hs : view st = s at h
  induction h generalizing st with
  | stop hn =>
    subst hs
    obtain ⟨s', hcall⟩ := hstop _ hn
    exact .stop hcall
  | item hn _ ih =>
    subst hs
    obtain ⟨s', hcall, hview⟩ := hitem _ _ _ hn
    exact .more hcall (ih hview)

end Reader

theorem except_ok_bind (a : α) (f : α → Except ε β) : (.ok a >>= f) = f a := rfl

theorem except_bind_eq_ok {x : Except ε α} {f : α → Except ε β} {b : β} :
    (x >>= f) = .ok b ↔ ∃ a, x = .ok a ∧ f a = .ok b := by
  cases x <;> simp [bind, Except.bind]

theorem except_bind_eq_error {x : Except ε α} {f : α → Except ε β} {e : ε} :
    (x >>= f) = .error e ↔ x = .error e ∨ ∃ a, x = .ok a ∧ f a = .error e := by
  cases x <;> simp [bind, Except.bind]

theorem foldlM_eq_error {step : σ → τ → Except ε σ} {ts : List τ} {st : σ} {e : ε} :
    ts.foldlM step st = .error e ↔ ∃ before t after st', ts = before ++ t :: after ∧
      before.foldlM step st = .ok st' ∧ step st' t = .error e := by
  constructor
  · intro h
    induction ts generalizing st with
    | nil => cases h
    | cons t ts ih =>
      rw [List.foldlM_cons, except_bind_eq_error] at h
      obtain h | ⟨st', ht, h⟩ := h
      · exact ⟨[], t, ts, st, rfl, rfl, h⟩
      · obtain ⟨before, u, after, st'', rfl, hb, hu⟩ := ih h
        refine ⟨t :: before, u, after, st'', rfl, ?_, hu⟩
        rw [List.foldlM_cons, ht]
        exact hb
  · rintro ⟨before, t, after, st', rfl, hb, ht⟩
    rw [List.foldlM_append, hb]
    simp [List.foldlM_cons, ht, bind, Except.bind]

end PoseidonServer
