import PoseidonServer.Decimal
import Mathlib.Data.Int.DivMod

/-! The deadline of a gRPC call, as `parseGRPCTimeout` of `grpcserver` reads it. -/

namespace PoseidonServer.Grpc

open Decimal

def headerGRPCTimeout : Bytes := ascii "grpc-timeout"

def maxInt64 : Int := 2 ^ 63 - 1

/-- The product of two values of type `int64`. -/
def mulInt64 (a b : Int) : Int := (a * b).bmod (2 ^ 64)

def timeoutUnit (c : UInt8) : Option Int :=
  if c = 0x48 then some 3600000000000
  else if c = 0x4d then some 60000000000
  else if c = 0x53 then some 1000000000
  else if c = 0x6d then some 1000000
  else if c = 0x75 then some 1000
  else if c = 0x6e then some 1
  else none

def timeoutOf (v : Bytes) : Option Int := do
  if v.length < 2 then none
  let n ← parseInt 64 v.dropLast
  if n ≤ 0 then none
  let unit ← timeoutUnit (v.getLastD 0)
  if n > maxInt64 / unit then some maxInt64 else some (mulInt64 n unit)

def parseGRPCTimeout : List HeaderField → Option Int
  | [] => none
  | h :: headers =>
    if h.name ≠ headerGRPCTimeout then parseGRPCTimeout headers else timeoutOf h.val

def grpcTimeout (headers : List HeaderField) : Option Bytes :=
  (headers.find? fun h => h.name = headerGRPCTimeout).map HeaderField.val

/-- A value that stands for a timeout of `n` units, with `sign` before its digits. -/
structure TimeoutText (sign digits : Bytes) (c : UInt8) (unit : Int) (v : Bytes) : Prop where
  text : v = sign ++ digits ++ [c]
  digits_ne : digits ≠ []
  digits_form : digits.all isDigit = true
  positive : 0 < value digits
  unit_eq : timeoutUnit c = some unit

/-- The grammar of gRPC: at most eight digits and a unit. -/
def TimeoutValue (v : Bytes) (d : Int) : Prop :=
  ∃ digits c unit, TimeoutText [] digits c unit v ∧ digits.length ≤ 8 ∧
    d = min (value digits * unit) maxInt64

/-- What `strconv.ParseInt` takes beyond the grammar: a plus sign, or more than eight digits. -/
def Lenient (v : Bytes) : Prop :=
  ∃ sign digits c unit, TimeoutText sign digits c unit v ∧ value digits < 2 ^ 63 ∧
    (sign = [] ∧ 8 < digits.length ∨ sign = [0x2b])

theorem parseGRPCTimeout_eq (headers : List HeaderField) :
    parseGRPCTimeout headers = (grpcTimeout headers).bind timeoutOf := by
  induction headers with
  | nil => rfl
  | cons h headers ih =>
    by_cases hname : h.name = headerGRPCTimeout <;>
      simp_all [parseGRPCTimeout, grpcTimeout]

theorem timeoutUnit_pos {c : UInt8} {unit : Int} (h : timeoutUnit c = some unit) : 0 < unit := by
  unfold timeoutUnit at h
  grind

theorem saturated {n unit : Int} (hn : 0 < n) (hunit : 0 < unit) :
    (if n > maxInt64 / unit then maxInt64 else mulInt64 n unit) = min (n * unit) maxInt64 := by
  split
  · rename_i hlt
    have : maxInt64 < n * unit := (Int.ediv_lt_iff_lt_mul hunit).1 hlt
    omega
  · rename_i hle
    have hle : n * unit ≤ maxInt64 := (Int.le_ediv_iff_mul_le hunit).1 (not_lt.1 hle)
    have hpos : 0 < n * unit := mul_pos hn hunit
    rw [mulInt64, Int.bmod_eq_of_le (by omega) (by unfold maxInt64 at hle; omega)]
    omega

theorem parseInt_pos_iff {s : Bytes} {n : Int} (hn : 0 < n) : parseInt 64 s = some n ↔
    ∃ sign digits, s = sign ++ digits ∧ (sign = [] ∨ sign = [0x2b]) ∧ digits ≠ [] ∧
      digits.all isDigit = true ∧ value digits < 2 ^ 63 ∧ n = value digits := by
  -- the digits of either form, read as a number below the bound
  have hread (v : Bytes) : ((parseUint 64 v).bind fun un =>
      if un < 2 ^ (64 - 1) then some (un : Int) else none) = some n ↔
      v ≠ [] ∧ v.all isDigit = true ∧ value v < 2 ^ 63 ∧ n = value v := by
    simp only [Option.bind_eq_some_iff, parseUint_eq_some]
    constructor
    · rintro ⟨un, ⟨hne, hall, -, rfl⟩, h⟩
      split at h
      · cases h
        exact ⟨hne, hall, by assumption, rfl⟩
      · cases h
    · rintro ⟨hne, hall, hlt, rfl⟩
      exact ⟨value v, ⟨hne, hall, by omega, rfl⟩, if_pos hlt⟩
  unfold parseInt
  split
  · rename_i v
    constructor
    · intro h
      obtain ⟨un, -, h⟩ := Option.bind_eq_some_iff.1 h
      split at h
      · cases h
        omega
      · cases h
    · rintro ⟨sign, digits, hs, rfl | rfl, hne, hall, -⟩
      · cases hs
        cases hall
      · cases hs
  · rename_i v
    rw [hread]
    constructor
    · intro h
      exact ⟨[0x2b], v, rfl, .inr rfl, h⟩
    · rintro ⟨sign, digits, hs, rfl | rfl, h⟩
      · cases hs
        cases h.2.1
      · cases hs
        exact h
  · rename_i hminus hplus
    rw [hread]
    constructor
    · intro h
      exact ⟨[], s, rfl, .inl rfl, h⟩
    · rintro ⟨sign, digits, hs, rfl | rfl, h⟩
      · cases hs
        exact h
      · exact absurd hs (hplus _)

theorem timeoutOf_eq_some {v : Bytes} {d : Int} : timeoutOf v = some d ↔
    ∃ sign digits c unit, TimeoutText sign digits c unit v ∧ (sign = [] ∨ sign = [0x2b]) ∧
      value digits < 2 ^ 63 ∧ d = min (value digits * unit) maxInt64 := by
  constructor
  · intro h
    simp only [timeoutOf, Option.bind_eq_bind] at h
    split at h
    · cases h
    rename_i hlen
    obtain ⟨n, hparse, h⟩ := Option.bind_eq_some_iff.1 h
    split at h
    · cases h
    rename_i hn
    obtain ⟨unit, hunit, h⟩ := Option.bind_eq_some_iff.1 h
    obtain ⟨sign, digits, hdrop, hsign, hne, hall, hlt, rfl⟩ :=
      (parseInt_pos_iff (not_le.1 hn)).1 hparse
    have hv : v ≠ [] := by
      rintro rfl
      simp at hlen
    refine ⟨sign, digits, v.getLastD 0, unit, ⟨?_, hne, hall, by omega, hunit⟩, hsign, hlt, ?_⟩
    · rw [← hdrop, List.getLastD_eq_getLast?, List.getLast?_eq_some_getLast hv]
      exact (List.dropLast_concat_getLast hv).symm
    · rw [← saturated (not_le.1 hn) (timeoutUnit_pos hunit)]
      split at h <;> simp_all
  · rintro ⟨sign, digits, c, unit, ⟨rfl, hne, hall, hpos, hunit⟩, hsign, hlt, rfl⟩
    have hlen : ¬(sign ++ digits ++ [c]).length < 2 := by
      have := List.length_pos_of_ne_nil hne
      simp only [List.length_append, List.length_singleton]
      omega
    have hn : (0 : Int) < value digits := by omega
    have hparse : parseInt 64 (sign ++ digits) = some (value digits : Int) :=
      (parseInt_pos_iff hn).2 ⟨sign, digits, rfl, hsign, hne, hall, hlt, rfl⟩
    rw [← saturated hn (timeoutUnit_pos hunit)]
    simp only [timeoutOf, Option.bind_eq_bind, if_neg hlen, List.dropLast_concat, hparse,
      Option.bind_some, if_neg (not_le.2 hn), List.getLastD_concat, hunit]
    split <;> rfl

theorem not_lenient {v : Bytes} {d : Int} (h : TimeoutValue v d) : ¬Lenient v := by
  obtain ⟨digits, c, unit, ⟨rfl, -, hall, -, -⟩, hlen, -⟩ := h
  rintro ⟨sign, digits', c', unit', ⟨htext, -, -, -, -⟩, -, hmore⟩
  obtain ⟨hdigits, -⟩ := List.append_inj' htext rfl
  rcases hmore with ⟨rfl, hmore⟩ | rfl
  · rw [List.nil_append, List.nil_append] at hdigits
    rw [hdigits] at hlen
    omega
  · rw [List.nil_append] at hdigits
    rw [hdigits] at hall
    cases hall

theorem timeoutOf_value {v : Bytes} {d : Int} (h : TimeoutValue v d) : timeoutOf v = some d := by
  obtain ⟨digits, c, unit, htext, hlen, hd⟩ := h
  refine timeoutOf_eq_some.2 ⟨[], digits, c, unit, htext, .inl rfl, ?_, hd⟩
  exact (value_lt htext.digits_form).trans_le
    ((Nat.pow_le_pow_right (by decide) hlen).trans (by decide))

theorem timeoutOf_iff {v : Bytes} :
    (∀ d, timeoutOf v = some d ↔ TimeoutValue v d) ↔ ¬Lenient v := by
  constructor
  · intro h hlenient
    obtain ⟨sign, digits, c, unit, htext, hlt, hmore⟩ := hlenient
    have hsign : sign = [] ∨ sign = [0x2b] := hmore.imp_left And.left
    have hvalue := (h _).1 (timeoutOf_eq_some.2 ⟨sign, digits, c, unit, htext, hsign, hlt, rfl⟩)
    exact not_lenient hvalue ⟨sign, digits, c, unit, htext, hlt, hmore⟩
  · intro hlenient d
    refine ⟨fun h => ?_, timeoutOf_value⟩
    obtain ⟨sign, digits, c, unit, htext, hsign, hlt, hd⟩ := timeoutOf_eq_some.1 h
    rcases hsign with rfl | rfl
    · refine ⟨digits, c, unit, htext, ?_, hd⟩
      by_contra hmore
      exact hlenient ⟨[], digits, c, unit, htext, hlt, .inl ⟨rfl, by omega⟩⟩
    · exact absurd ⟨_, digits, c, unit, htext, hlt, .inr rfl⟩ hlenient

theorem timeoutOf_pos {v : Bytes} {d : Int} (h : timeoutOf v = some d) : 0 < d := by
  obtain ⟨sign, digits, c, unit, htext, -, -, rfl⟩ := timeoutOf_eq_some.1 h
  have hn : (0 : Int) < value digits := by exact_mod_cast htext.positive
  exact lt_min (mul_pos hn (timeoutUnit_pos htext.unit_eq)) (by decide)

theorem timeoutOf_number {v : Bytes} {n d : Int} (h : timeoutOf v = some d)
    (hn : parseInt 64 v.dropLast = some n) :
    ∃ c unit, v.getLast? = some c ∧ timeoutUnit c = some unit ∧ d = min (n * unit) maxInt64 := by
  obtain ⟨sign, digits, c, unit, htext, hsign, hlt, rfl⟩ := timeoutOf_eq_some.1 h
  obtain ⟨rfl, hne, hall, hpos, hunit⟩ := htext
  have hparse : parseInt 64 (sign ++ digits) = some (value digits : Int) :=
    (parseInt_pos_iff (by exact_mod_cast hpos)).2 ⟨sign, digits, rfl, hsign, hne, hall, hlt, rfl⟩
  rw [List.dropLast_concat, hparse] at hn
  cases hn
  exact ⟨c, unit, List.getLast?_concat, hunit, rfl⟩

theorem timeoutOf_mono {v v' : Bytes} {n n' d d' : Int} (h : timeoutOf v = some d)
    (h' : timeoutOf v' = some d') (hunit : v.getLast? = v'.getLast?)
    (hn : parseInt 64 v.dropLast = some n) (hn' : parseInt 64 v'.dropLast = some n')
    (hle : n ≤ n') : d ≤ d' := by
  obtain ⟨c, unit, hc, hu, rfl⟩ := timeoutOf_number h hn
  obtain ⟨c', unit', hc', hu', rfl⟩ := timeoutOf_number h' hn'
  have hsame : c = c' := Option.some.inj (by rw [← hc, hunit, hc'])
  rw [hsame, hu'] at hu
  cases hu
  exact min_le_min_right _ (mul_le_mul_of_nonneg_right hle (timeoutUnit_pos hu').le)

/-- A deadline follows the grammar exactly if its text is not one that only `strconv.ParseInt` takes.
Every deadline is positive, and grows with the number before the unit. -/
theorem grpc_timeout_iff (headers : List HeaderField) :
    ((∀ d, parseGRPCTimeout headers = some d ↔
        ∃ v, grpcTimeout headers = some v ∧ TimeoutValue v d) ↔
      ∀ v, grpcTimeout headers = some v → ¬Lenient v) ∧
    (∀ d, parseGRPCTimeout headers = some d → 0 < d) ∧
    ∀ headers' v v' n n' d d',
      grpcTimeout headers = some v → parseGRPCTimeout headers = some d →
      grpcTimeout headers' = some v' → parseGRPCTimeout headers' = some d' →
      v.getLast? = v'.getLast? → parseInt 64 v.dropLast = some n →
      parseInt 64 v'.dropLast = some n' → n ≤ n' → d ≤ d' := by
  refine ⟨?_, fun d h => ?_, ?_⟩
  · rw [parseGRPCTimeout_eq]
    cases grpcTimeout headers with
    | none => simp
    | some v => simpa using timeoutOf_iff
  · rw [parseGRPCTimeout_eq] at h
    obtain ⟨v, -, hv⟩ := Option.bind_eq_some_iff.1 h
    exact timeoutOf_pos hv
  · intro headers' v v' n n' d d' hv hd hv' hd' hunit hn hn' hle
    rw [parseGRPCTimeout_eq, hv, Option.bind_some] at hd
    rw [parseGRPCTimeout_eq, hv', Option.bind_some] at hd'
    exact timeoutOf_mono hd hd' hunit hn hn' hle

def timeoutHeader (v : String) : List HeaderField := [⟨headerGRPCTimeout, some (ascii v), .incremental⟩]

theorem grpc_timeout_of_hours :
    (∀ d, parseGRPCTimeout (timeoutHeader "99999999H") = some d ↔
      ∃ v, grpcTimeout (timeoutHeader "99999999H") = some v ∧ TimeoutValue v d) ∧
    parseGRPCTimeout (timeoutHeader "99999999H") = some maxInt64 ∧ 0 < maxInt64 := by
  have hd : parseGRPCTimeout (timeoutHeader "99999999H") = some maxInt64 := by decide
  have hvalue : TimeoutValue (ascii "99999999H") maxInt64 :=
    ⟨ascii "99999999", 0x48, _, ⟨rfl, by decide, by decide, by decide, rfl⟩, by decide, by decide⟩
  refine ⟨(grpc_timeout_iff _).1.2 ?_, hd, (grpc_timeout_iff _).2.1 _ hd⟩
  intro v hv
  cases hv
  exact not_lenient hvalue

/-- A signed value gives a deadline, and so does one of nine digits. -/
theorem lenient_timeouts :
    parseGRPCTimeout (timeoutHeader "+5S") = some 5000000000 ∧
    parseGRPCTimeout (timeoutHeader "123456789n") = some 123456789 ∧
    (∀ d, ¬TimeoutValue (ascii "+5S") d) ∧ ∀ d, ¬TimeoutValue (ascii "123456789n") d := by
  refine ⟨by decide, by decide, fun d h => not_lenient h ?_, fun d h => not_lenient h ?_⟩
  · exact ⟨ascii "+", ascii "5", 0x53, _, ⟨rfl, by decide, by decide, by decide, rfl⟩, by decide,
      .inr rfl⟩
  · exact ⟨[], ascii "123456789", 0x6e, _, ⟨rfl, by decide, by decide, by decide, rfl⟩, by decide,
      .inl ⟨rfl, by decide⟩⟩

end PoseidonServer.Grpc
