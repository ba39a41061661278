import Mathlib.Data.List.Induction
import Mathlib.Tactic.IntervalCases
import PoseidonServer.HttpFields

/-! Decimal numbers as the standard library prints and reads them. -/

namespace PoseidonServer.Decimal

/-- `strconv.FormatInt` of a number that is not negative. -/
def format (n : Nat) : Bytes := ascii (toString n)

def isDigit (c : UInt8) : Bool := 0x30 ≤ c && c ≤ 0x39

def value (v : Bytes) : Nat := v.foldl (fun n c => n * 10 + (c.toNat - 0x30)) 0

/-- `strconv.ParseUint` in base 10. -/
def parseUint (bits : Nat) (v : Bytes) : Option Nat :=
  if v ≠ [] ∧ v.all isDigit = true ∧ value v < 2 ^ bits then some (value v) else none

/-- `strconv.ParseInt` in base 10. -/
def parseInt (bits : Nat) (s : Bytes) : Option Int :=
  match s with
  | 0x2d :: v => (parseUint bits v).bind fun un => if un ≤ 2 ^ (bits - 1) then some (-un) else none
  | 0x2b :: v => (parseUint bits v).bind fun un => if un < 2 ^ (bits - 1) then some un else none
  | v => (parseUint bits v).bind fun un => if un < 2 ^ (bits - 1) then some un else none

def octet (d : Nat) : UInt8 := UInt8.ofNat (0x30 + d)

theorem octet_digitChar {d : Nat} (h : d < 10) :
    UInt8.ofNat (Nat.digitChar d).toNat = octet d := by
  interval_cases d <;> rfl

theorem isDigit_octet {d : Nat} (h : d < 10) : isDigit (octet d) = true := by
  interval_cases d <;> rfl

theorem toNat_octet {d : Nat} (h : d < 10) : (octet d).toNat - 0x30 = d := by
  interval_cases d <;> rfl

theorem format_eq (n : Nat) :
    format n = (if n < 10 then [] else format (n / 10)) ++ [octet (n % 10)] := by
  have h := Nat.toDigits_eq_if (b := 10) (n := n) (by decide)
  simp only [format, ascii, Nat.toString_eq_ofList_toDigits, String.toList_ofList]
  rw [h]
  split
  · rename_i hn
    rw [List.map_singleton, octet_digitChar hn, Nat.mod_eq_of_lt hn]
    rfl
  · rw [List.map_append, List.map_singleton, octet_digitChar (Nat.mod_lt _ (by decide))]

theorem format_ne_nil (n : Nat) : format n ≠ [] := by
  rw [format_eq]
  simp

theorem value_append (v : Bytes) (c : UInt8) : value (v ++ [c]) = value v * 10 + (c.toNat - 0x30) := by
  simp [value]

theorem value_lt {v : Bytes} (h : v.all isDigit = true) : value v < 10 ^ v.length := by
  induction v using List.reverseRecOn with
  | nil => exact Nat.one_pos
  | append_singleton v c ih =>
    rw [List.all_append, Bool.and_eq_true] at h
    have hv := ih h.1
    have hc : c.toNat ≤ 0x39 := by
      have : isDigit c = true := by simpa using h.2
      simp only [isDigit, Bool.and_eq_true, decide_eq_true_eq] at this
      exact this.2
    rw [value_append, List.length_append, List.length_singleton, pow_succ]
    omega

theorem all_isDigit_format (n : Nat) : (format n).all isDigit = true := by
  induction n using Nat.strongRecOn with
  | ind n ih =>
    have hd := isDigit_octet (Nat.mod_lt n (by decide : 10 > 0))
    rw [format_eq]
    split
    · simp [hd]
    · rename_i hn
      rw [List.all_append, ih (n / 10) (by omega)]
      simp [hd]

@[simp] theorem value_format (n : Nat) : value (format n) = n := by
  induction n using Nat.strongRecOn with
  | ind n ih =>
    rw [format_eq, value_append, toNat_octet (Nat.mod_lt n (by decide : 10 > 0))]
    split
    · simp only [value, List.foldl_nil]
      omega
    · rename_i hn
      rw [ih (n / 10) (by omega)]
      omega

theorem parseUint_eq_some {bits n : Nat} {v : Bytes} : parseUint bits v = some n ↔
    v ≠ [] ∧ v.all isDigit = true ∧ value v < 2 ^ bits ∧ n = value v := by
  unfold parseUint
  split <;> grind

theorem parseUint_format {bits n : Nat} (h : n < 2 ^ bits) : parseUint bits (format n) = some n := by
  rw [parseUint, if_pos ⟨format_ne_nil n, all_isDigit_format n, by simpa using h⟩, value_format]

theorem parseInt_format_eq {bits n : Nat} (h : n < 2 ^ bits) :
    parseInt bits (format n) = if n < 2 ^ (bits - 1) then some (n : Int) else none := by
  have hdigits := all_isDigit_format n
  unfold parseInt
  split
  · rename_i v hv
    rw [hv] at hdigits
    cases hdigits
  · rename_i v hv
    rw [hv] at hdigits
    cases hdigits
  · rw [parseUint_format h, Option.bind_some]

theorem parseInt_format {bits n : Nat} (h : n < 2 ^ (bits - 1)) :
    parseInt bits (format n) = some (n : Int) := by
  rw [parseInt_format_eq (h.trans_le (Nat.pow_le_pow_right (by decide) (Nat.sub_le bits 1))), if_pos h]

end PoseidonServer.Decimal
