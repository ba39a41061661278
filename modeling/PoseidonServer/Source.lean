import Mathlib.Data.List.Basic
import Mathlib.Data.Prod.Lex

/-! Readers that hand out a stream chunk by chunk, and reads that wait for a number of items. -/

namespace PoseidonServer

/-- The reads that a reader still has to answer, each with the items it can give. With `eager`
the read that takes the last item also reports the end of the stream. -/
structure Source (α : Type) where
  chunks : List (List α)
  eager : Bool := false
  deriving DecidableEq

namespace Source

inductive ReadError
  | eof | unexpectedEOF
  deriving DecidableEq

def content (s : Source α) : List α := s.chunks.flatten

def read (s : Source α) (n : Nat) : List α × Bool × Source α :=
  match s.chunks with
  | [] => ([], true, s)
  | c :: cs =>
    if c.length ≤ n then (c, s.eager && cs.isEmpty, { s with chunks := cs })
    else (c.take n, false, { s with chunks := c.drop n :: cs })

def fill (n : Nat) : Nat → List α → Source α → Except ReadError (List α) × Source α
  | 0, _, s => (.error .unexpectedEOF, s)
  | fuel + 1, got, s =>
    if n ≤ got.length then (.ok got, s)
    else
      let (p, atEnd, s) := s.read (n - got.length)
      let got := got ++ p
      if atEnd then
        (if n ≤ got.length then .ok got else .error (if got = [] then .eof else .unexpectedEOF), s)
      else fill n fuel got s

/-- A round of `fill` that is not the last one uses up a chunk, which bounds their number. -/
def readFull (s : Source α) (n : Nat) : Except ReadError (List α) × Source α :=
  fill n (s.chunks.length + 1) [] s

variable {s : Source α} {n fuel : Nat} {got : List α}

def Filled (n : Nat) (u : List α) (r : Except ReadError (List α) × Source α) : Prop :=
  r.1 = (if n ≤ u.length then .ok (u.take n) else .error (if u = [] then .eof else .unexpectedEOF)) ∧
  r.2.content = u.drop n

theorem filled_ok {u v : List α} {s : Source α} (hn : n = u.length) (hv : s.content = v) :
    Filled n (u ++ v) (.ok u, s) := by
  subst hn hv
  simp [Filled]

theorem filled_end {u : List α} {s : Source α} (hs : s.content = []) (hu : u.length ≤ n) :
    Filled n u (if n ≤ u.length then .ok u else
      .error (if u = [] then .eof else .unexpectedEOF), s) := by
  constructor
  · split
    · rw [List.take_of_length_le hu]
    · rfl
  · rw [hs, List.drop_eq_nil_of_le hu]

theorem fill_filled (hfuel : s.chunks.length < fuel) (hgot : got.length ≤ n) :
    Filled n (got ++ s.content) (fill n fuel got s) := by
  induction fuel generalizing s got with
  | zero => exact absurd hfuel (Nat.not_lt_zero _)
  | succ fuel ih =>
    rw [fill]
    split
    · rename_i hn
      exact filled_ok (by omega) rfl
    rename_i hn
    obtain ⟨chunks, eager⟩ := s
    cases chunks with
    | nil => exact filled_end rfl (by simpa [content] using hgot)
    | cons c cs =>
      simp only [read, content, List.flatten_cons, ← List.append_assoc]
      simp only [List.length_cons] at hfuel
      split
      · rename_i hc
        dsimp only
        have hlen : (got ++ c).length ≤ n := by
          rw [List.length_append]
          omega
        split
        · rename_i hend
          obtain ⟨-, rfl⟩ : eager = true ∧ cs = [] := by simpa using hend
          simpa using filled_end (s := ⟨[], eager⟩) rfl hlen
        · exact ih (by simpa using hfuel) hlen
      · -- the buffer is full after this read, and the next round sees it
        rename_i hc
        have hlen : n = (got ++ c.take (n - got.length)).length := by
          rw [List.length_append, List.length_take]
          omega
        obtain ⟨fuel, rfl⟩ : ∃ k, fuel = k + 1 := ⟨fuel - 1, by omega⟩
        simp only [Bool.false_eq_true, if_false, fill, if_pos (Nat.le_of_eq hlen)]
        have h := filled_ok (s := ⟨c.drop (n - got.length) :: cs, eager⟩) hlen rfl
        rwa [content, List.flatten_cons, ← List.append_assoc, List.append_assoc got,
          List.take_append_drop] at h

theorem readFull_filled (s : Source α) (n : Nat) : Filled n s.content (s.readFull n) :=
  fill_filled (Nat.lt_succ_self _) (Nat.zero_le _)

theorem readFull_of_le (h : n ≤ s.content.length) :
    ∃ s', s.readFull n = (.ok (s.content.take n), s') ∧ s'.content = s.content.drop n := by
  obtain ⟨hr, hs⟩ := readFull_filled s n
  rw [if_pos h] at hr
  exact ⟨_, Prod.ext hr rfl, hs⟩

theorem readFull_of_lt (h : s.content.length < n) :
    ∃ s', s.readFull n = (.error (if s.content = [] then .eof else .unexpectedEOF), s') ∧
      s'.content = [] := by
  obtain ⟨hr, hs⟩ := readFull_filled s n
  rw [if_neg (Nat.not_le.2 h)] at hr
  exact ⟨_, Prod.ext hr rfl, hs.trans (List.drop_eq_nil_of_le (Nat.le_of_lt h))⟩

end Source

/-- A reader with the contract of `io.Reader` for buffers that are not empty: it hands out its content
in order, reports the end only behind the last item, and neither gives nothing nor reports nothing
forever. -/
structure IOReader (σ α : Type) where
  read : σ → Nat → List α × Bool × σ
  content : σ → List α
  /-- How many reads may give nothing before one gives an item or reports the end. -/
  idle : σ → Nat
  fits : ∀ s n, (read s n).1.length ≤ n
  splits : ∀ s n, 0 < n → content s = (read s n).1 ++ content (read s n).2.2
  ends : ∀ s n, (read s n).2.1 = true → content (read s n).2.2 = []
  live : ∀ s n, 0 < n → (read s n).1 = [] → (read s n).2.1 = false →
    idle (read s n).2.2 < idle s

namespace IOReader

variable {σ α : Type} (r : IOReader σ α)

def progress (s : σ) : Nat ×ₗ Nat := toLex ((r.content s).length, r.idle s)

theorem progress_lt {s : σ} {n : Nat} (hn : 0 < n) (hend : (r.read s n).2.1 = false) :
    r.progress (r.read s n).2.2 < r.progress s := by
  have hsplit := congrArg List.length (r.splits s n hn)
  rw [List.length_append] at hsplit
  rw [progress, progress, Prod.Lex.toLex_lt_toLex]
  by_cases hp : (r.read s n).1 = []
  · rw [hp, List.length_nil, Nat.zero_add] at hsplit
    exact .inr ⟨hsplit.symm, r.live s n hn hp hend⟩
  · have := List.length_pos_of_ne_nil hp
    exact .inl (by omega)

end IOReader

theorem Source.read_cons (c : List α) (cs : List (List α)) (eager : Bool) (n : Nat) :
    Source.read ⟨c :: cs, eager⟩ n =
      if c.length ≤ n then (c, eager && cs.isEmpty, ⟨cs, eager⟩)
      else (c.take n, false, ⟨c.drop n :: cs, eager⟩) := rfl

def Source.reader : IOReader (Source α) α where
  read := Source.read
  content := Source.content
  idle s := s.chunks.length
  fits s n := by
    obtain ⟨chunks, eager⟩ := s
    cases chunks with
    | nil => exact Nat.zero_le n
    | cons c cs =>
      rw [Source.read_cons]
      split
      · assumption
      · exact List.length_take_le _ _
  splits s n _ := by
    obtain ⟨chunks, eager⟩ := s
    cases chunks with
    | nil => rfl
    | cons c cs =>
      rw [Source.read_cons]
      split
      · simp [Source.content]
      · rw [Source.content, Source.content, List.flatten_cons, List.flatten_cons, ← List.append_assoc,
          List.take_append_drop]
  ends s n h := by
    obtain ⟨chunks, eager⟩ := s
    cases chunks with
    | nil => rfl
    | cons c cs =>
      rw [Source.read_cons] at h ⊢
      split at h
      · rename_i hc
        rw [if_pos hc]
        simp_all [Source.content]
      · cases h
  live s n hn hp hend := by
    obtain ⟨chunks, eager⟩ := s
    cases chunks with
    | nil => cases hend
    | cons c cs =>
      rw [Source.read_cons] at hp ⊢
      split at hp
      · rename_i hc
        rw [if_pos hc]
        exact Nat.lt_succ_self _
      · rename_i hc
        rw [List.take_eq_nil_iff] at hp
        rcases hp with rfl | rfl
        · omega
        · exact absurd (Nat.zero_le n) hc

end PoseidonServer
