import Mathlib.Data.PNat.Defs
import PoseidonServer.HttpFields
import PoseidonServer.Source

/-! The bounded reader of `DecompressBodyLimit`. -/

namespace PoseidonServer.Middleware.Decompress

inductive ReadErr
  | eof | bodyTooLarge
  deriving DecidableEq

structure LimitedDecompressReader (σ : Type) where
  gr : σ
  n : Int

/-- What `DecompressBodyLimit` returns: without a limit, the gzip reader as it is. -/
inductive BodyReader (σ : Type)
  | gzip (gr : σ)
  | limited (l : LimitedDecompressReader σ)

def decompressBodyLimit (gr : σ) (maxBytes : Int) : BodyReader σ :=
  if maxBytes ≤ 0 then .gzip gr else .limited ⟨gr, maxBytes⟩

variable {σ : Type} (r : IOReader σ UInt8)

def endOf (atEnd : Bool) : Option ReadErr := if atEnd then some .eof else none

def probe (gr : σ) : ReadErr × σ :=
  if (r.read gr 1).1 ≠ [] then (.bodyTooLarge, (r.read gr 1).2.2)
  else if (r.read gr 1).2.1 then (.eof, (r.read gr 1).2.2)
  else probe (r.read gr 1).2.2
termination_by r.idle gr
decreasing_by exact r.live gr 1 Nat.one_pos (by simp_all) (by simp_all)

def LimitedDecompressReader.read (l : LimitedDecompressReader σ) (len : Nat) :
    Bytes × Option ReadErr × LimitedDecompressReader σ :=
  if l.n ≤ 0 then
    let (err, gr) := probe r l.gr
    ([], some err, { l with gr })
  else
    let len := if (len : Int) > l.n then l.n.toNat else len
    let (p, atEnd, gr) := r.read l.gr len
    (p, endOf atEnd, ⟨gr, l.n - p.length⟩)

def BodyReader.read : BodyReader σ → Nat → Bytes × Option ReadErr × BodyReader σ
  | .gzip gr, len =>
    let (p, atEnd, gr) := r.read gr len
    (p, endOf atEnd, .gzip gr)
  | .limited l, len =>
    let (p, err, l) := l.read r len
    (p, err, .limited l)

def BodyReader.gr : BodyReader σ → σ
  | .gzip gr => gr
  | .limited l => l.gr

theorem LimitedDecompressReader.progress_lt {l : LimitedDecompressReader σ} {len : Nat} (hlen : 0 < len)
    (h : (l.read r len).2.1 = none) : r.progress (l.read r len).2.2.gr < r.progress l.gr := by
  rw [read] at h ⊢
  split at h
  · cases h
  · rename_i hn
    rw [if_neg hn]
    refine r.progress_lt ?_ ?_
    · split <;> omega
    · simpa [endOf] using h

theorem BodyReader.progress_lt {b : BodyReader σ} {len : Nat} (hlen : 0 < len)
    (h : (b.read r len).2.1 = none) : r.progress (b.read r len).2.2.gr < r.progress b.gr := by
  cases b with
  | gzip gr => exact r.progress_lt hlen (by simpa [read, endOf] using h)
  | limited l => exact l.progress_lt r hlen h

def readAll (b : BodyReader σ) (sizes : Nat → ℕ+) : Bytes × ReadErr :=
  match _h : (b.read r (sizes 0)).2.1 with
  | some err => ((b.read r (sizes 0)).1, err)
  | none =>
    let (rest, err) := readAll (b.read r (sizes 0)).2.2 fun i => sizes (i + 1)
    ((b.read r (sizes 0)).1 ++ rest, err)
termination_by r.progress b.gr
decreasing_by exact b.progress_lt r (sizes 0).pos (by assumption)

theorem readAll_some {b b' : BodyReader σ} {sizes : Nat → ℕ+} {p : Bytes} {err : ReadErr}
    (h : b.read r (sizes 0) = (p, some err, b')) : readAll r b sizes = (p, err) := by
  rw [readAll]
  split <;> simp_all

theorem readAll_none {b b' : BodyReader σ} {sizes : Nat → ℕ+} {p : Bytes}
    (h : b.read r (sizes 0) = (p, none, b')) :
    readAll r b sizes = (p ++ (readAll r b' fun i => sizes (i + 1)).1,
      (readAll r b' fun i => sizes (i + 1)).2) := by
  rw [readAll]
  split <;> simp_all

theorem probe_eq (gr : σ) :
    (probe r gr).1 = if r.content gr = [] then .eof else .bodyTooLarge := by
  induction hk : r.idle gr using Nat.strongRecOn generalizing gr with
  | ind k ih =>
    subst hk
    have hsplit := r.splits gr 1 Nat.one_pos
    rw [probe]
    split
    · rename_i hp
      rw [if_neg (by simp_all)]
    rename_i hp
    rw [not_not] at hp
    rw [hp, List.nil_append] at hsplit
    split
    · rename_i hend
      rw [hsplit, if_pos (r.ends gr 1 hend)]
    · rename_i hend
      rw [hsplit]
      exact ih _ (r.live gr 1 Nat.one_pos hp (by simpa using hend)) _ rfl

def bounded (u : Bytes) (n : Int) : Bytes × ReadErr :=
  (u.take n.toNat, if (u.length : Int) ≤ n then .eof else .bodyTooLarge)

theorem bounded_append {p u : Bytes} {n : Int} (hp : (p.length : Int) ≤ n) :
    bounded (p ++ u) n = (p ++ (bounded u (n - p.length)).1, (bounded u (n - p.length)).2) := by
  have hn : n.toNat - p.length = (n - p.length).toNat := by omega
  have hlen : ((p ++ u).length : Int) ≤ n ↔ (u.length : Int) ≤ n - p.length := by
    rw [List.length_append]
    omega
  rw [bounded, bounded, List.take_append, List.take_of_length_le (by omega), hn]
  simp only [hlen]

theorem readAll_limited (l : LimitedDecompressReader σ) (hn : 0 ≤ l.n) (sizes : Nat → ℕ+) :
    readAll r (.limited l) sizes = bounded (r.content l.gr) l.n := by
  induction hk : r.progress l.gr using WellFoundedLT.induction generalizing l sizes with
  | ind k ih =>
    subst hk
    by_cases hspent : l.n ≤ 0
    · -- the probe ends the reading
      have hzero : l.n = 0 := by omega
      have hread : (BodyReader.limited l).read r (sizes 0) =
          ([], some (probe r l.gr).1, .limited { l with gr := (probe r l.gr).2 }) := by
        simp [BodyReader.read, LimitedDecompressReader.read, hspent]
      rw [readAll_some r hread, probe_eq, bounded, hzero]
      simp
    · -- the read takes at most the budget
      obtain ⟨len, hlen, hle, hread⟩ : ∃ len : Nat, 0 < len ∧ (len : Int) ≤ l.n ∧
          (BodyReader.limited l).read r (sizes 0) = ((r.read l.gr len).1,
            endOf (r.read l.gr len).2.1,
            .limited ⟨(r.read l.gr len).2.2, l.n - (r.read l.gr len).1.length⟩) := by
        have hpos := (sizes 0).pos
        refine ⟨if ((sizes 0 : Nat) : Int) > l.n then l.n.toNat else sizes 0, ?_, ?_, ?_⟩
        · split <;> omega
        · split <;> omega
        · simp only [BodyReader.read, LimitedDecompressReader.read, if_neg hspent]
      have hfits := r.fits l.gr len
      have hp : ((r.read l.gr len).1.length : Int) ≤ l.n := by omega
      rw [r.splits l.gr len hlen, bounded_append hp]
      cases hend : (r.read l.gr len).2.1 with
      | true =>
        rw [hend] at hread
        rw [readAll_some r hread, r.ends l.gr len hend, bounded]
        simpa using hp
      | false =>
        rw [hend] at hread
        rw [readAll_none r hread,
          ih _ (r.progress_lt hlen hend) ⟨_, _⟩ (by simpa using hp) _ rfl]

/-- Whatever the reader and the buffers, the body is cut off exactly at the limit. -/
theorem decompress_limit (gr : σ) (maxBytes : Int) (hmax : 0 < maxBytes) (sizes : Nat → ℕ+) :
    readAll r (decompressBodyLimit gr maxBytes) sizes =
      ((r.content gr).take maxBytes.toNat,
        if ((r.content gr).length : Int) ≤ maxBytes then .eof else .bodyTooLarge) := by
  rw [decompressBodyLimit, if_neg (not_le.2 hmax)]
  exact readAll_limited r ⟨gr, maxBytes⟩ hmax.le sizes

theorem decompress_limit_of_three :
    readAll Source.reader (decompressBodyLimit ⟨[[1, 2], [], [3]], true⟩ 2) (fun _ => 1) =
      ([1, 2], .bodyTooLarge) ∧
    readAll Source.reader (decompressBodyLimit ⟨[[1, 2], [], [3]], true⟩ 3) (fun _ => 1) =
      ([1, 2, 3], .eof) :=
  ⟨decompress_limit Source.reader _ 2 (by decide) _, decompress_limit Source.reader _ 3 (by decide) _⟩

end PoseidonServer.Middleware.Decompress
