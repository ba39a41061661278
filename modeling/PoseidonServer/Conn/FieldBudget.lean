import PoseidonServer.Conn.Types

/-! What `fieldsFitFrame` allows for besides names and values, against the octets of the largest
block that an HPACK encoder may make of the fields. -/

namespace PoseidonServer.Conn

namespace Hpack

def continuation (v : Nat) : Bytes :=
  if v < 128 then [UInt8.ofNat v] else UInt8.ofNat (v % 128 + 128) :: continuation (v / 128)

/-- An integer with a prefix of `n` bits, below the bits `flags` of its first octet. -/
def integer (n flags v : Nat) : Bytes :=
  if v < 2 ^ n - 1 then [UInt8.ofNat (flags + v)]
  else UInt8.ofNat (flags + (2 ^ n - 1)) :: continuation (v - (2 ^ n - 1))

def string (s : Bytes) : Bytes := integer 7 0 s.length ++ s

def literal (f : HeaderField) : Bytes := 0 :: (string f.name ++ string f.val)

def sizeUpdate (v : Nat) : Bytes := integer 5 0x20 v

/-- Every field as a literal with a literal name and raw strings, behind the dynamic table size
updates that are pending. -/
def largestBlock (updates : List Nat) (fields : List HeaderField) : Bytes :=
  updates.flatMap sizeUpdate ++ fields.flatMap literal

def lengthOctets (f : HeaderField) : Nat :=
  (integer 7 0 f.name.length).length + (integer 7 0 f.val.length).length

theorem length_continuation_le {k v : Nat} (h : v < 128 ^ (k + 1)) :
    (continuation v).length ≤ k + 1 := by
  induction k generalizing v with
  | zero =>
    rw [continuation, if_pos (by omega)]
    rfl
  | succ k ih =>
    rw [continuation]
    split
    · exact Nat.le_add_left ..
    · have hdiv : v / 128 < 128 ^ (k + 1) := Nat.div_lt_of_lt_mul (by rwa [← Nat.pow_succ'])
      exact Nat.succ_le_succ (ih hdiv)

theorem length_integer_le {v : Nat} (h : v < 2 ^ 21 + 127) : (integer 7 0 v).length ≤ 4 := by
  rw [integer]
  split
  · exact Nat.le_add_left ..
  · exact Nat.succ_le_succ (length_continuation_le (k := 2) (by omega))

end Hpack

open Hpack

def sectionSize (fields : List HeaderField) : Nat :=
  (fields.map fun f => f.name.length + f.val.length + fieldLineOverhead).sum

theorem fieldsFitFrame_go {fields : List HeaderField} {limit total : Nat} (h : total ≤ limit) :
    fieldsFitFrame.go limit total fields = true ↔ total + sectionSize fields ≤ limit := by
  induction fields generalizing total with
  | nil => simpa [fieldsFitFrame.go, sectionSize] using h
  | cons f fields ih =>
    have hcons : sectionSize (f :: fields) =
        f.name.length + f.val.length + fieldLineOverhead + sectionSize fields := rfl
    have hcast : (total : Int) + f.name.length + f.val.length + fieldLineOverhead =
        ((total + f.name.length + f.val.length + fieldLineOverhead : Nat) : Int) := by push_cast; rfl
    rw [fieldsFitFrame.go, hcast, hcons]
    split
    · simp only [Bool.false_eq_true, false_iff]
      omega
    · rw [ih (by omega)]
      omega

theorem fieldsFitFrame_iff (fields : List HeaderField) (limit : Nat) :
    fieldsFitFrame fields limit = true ↔ sectionSize fields ≤ limit := by
  rw [fieldsFitFrame, ← Nat.zero_add (sectionSize fields)]
  exact fieldsFitFrame_go (Nat.zero_le limit)

theorem length_flatMap_literal (fields : List HeaderField) :
    (fields.flatMap literal).length + 8 * fields.length =
      sectionSize fields + (fields.map lengthOctets).sum := by
  induction fields with
  | nil => rfl
  | cons f fields ih =>
    have hcons : sectionSize (f :: fields) = f.name.length + f.val.length + 9 + sectionSize fields := rfl
    simp only [List.flatMap_cons, List.length_append, literal, string, List.length_cons,
      List.map_cons, List.sum_cons, lengthOctets, hcons]
    omega

theorem sum_lengthOctets_le {fields : List HeaderField}
    (h : ∀ f ∈ fields, f.name.length < 2 ^ 21 + 127 ∧ f.val.length < 2 ^ 21 + 127) :
    (fields.map lengthOctets).sum ≤ 8 * fields.length := by
  induction fields with
  | nil => exact Nat.le_refl 0
  | cons f fields ih =>
    rw [List.forall_mem_cons] at h
    have hname := length_integer_le h.1.1
    have hval := length_integer_le h.1.2
    have hrest := ih h.2
    simp only [List.map_cons, List.sum_cons, lengthOctets, List.length_cons]
    omega

/-- A section that passed the check is within the budget exactly if its size updates and length
integers take no more than eight octets a field and what is left of the budget. They do if no string
has 2^21+127 octets and the updates fit into what is left. -/
theorem checked_block_fits_iff (updates : List Nat) (fields : List HeaderField) (budget : Nat)
    (h : fieldsFitFrame fields budget = true) :
    ((largestBlock updates fields).length ≤ budget ↔
      (updates.flatMap sizeUpdate).length + (fields.map lengthOctets).sum ≤
        8 * fields.length + (budget - sectionSize fields)) ∧
    ((∀ f ∈ fields, f.name.length < 2 ^ 21 + 127 ∧ f.val.length < 2 ^ 21 + 127) →
      (updates.flatMap sizeUpdate).length ≤ budget - sectionSize fields →
      (largestBlock updates fields).length ≤ budget) := by
  have hsize := (fieldsFitFrame_iff fields budget).1 h
  have hfields := length_flatMap_literal fields
  rw [largestBlock, List.length_append]
  refine ⟨by omega, fun hshort hupdates => ?_⟩
  have := sum_lengthOctets_le hshort
  omega

theorem checked_block_fits_one :
    fieldsFitFrame [{ name := ascii "etag", value := some (ascii "x") }] 16384 = true ∧
      (largestBlock [4096] [{ name := ascii "etag", value := some (ascii "x") }]).length ≤ 16384 :=
  ⟨by decide, (checked_block_fits_iff _ _ 16384 (by decide)).2 (by decide) (by decide +kernel)⟩

def fieldOf (n v : Nat) : HeaderField where
  name := List.replicate n 0x61
  value := some (List.replicate v 0x61)

/-- Two updates behind a change of the table size take the block past the least frame size, and two
strings of 2^21+127 octets take more than their allowance. -/
theorem checked_block_is_too_large :
    (fieldsFitFrame [fieldOf 1 16374] 16384 = true ∧
      16384 < (largestBlock [0, 2 ^ 32 - 1] [fieldOf 1 16374]).length) ∧
    let n := 2 ^ 21 + 127
    fieldsFitFrame [fieldOf n n] (2 * n + 9 : Nat) = true ∧
      2 * n + 9 < (largestBlock [] [fieldOf n n]).length := by
  have hfit (n v : Nat) : fieldsFitFrame [fieldOf n v] (n + v + 9 : Nat) = true := by
    rw [fieldsFitFrame_iff]
    simp [sectionSize, fieldOf, HeaderField.val, fieldLineOverhead]
  have hlength (updates : List Nat) (n v : Nat) : (largestBlock updates [fieldOf n v]).length =
      (updates.flatMap sizeUpdate).length +
        (1 + ((integer 7 0 n).length + n) + ((integer 7 0 v).length + v)) := by
    simp [largestBlock, literal, string, fieldOf, HeaderField.val]
    omega
  have hlong : (integer 7 0 (2 ^ 21 + 127)).length = 5 := by decide +kernel
  refine ⟨⟨hfit 1 16374, ?_⟩, ?_, ?_⟩
  · rw [hlength]
    decide +kernel
  · rw [Nat.two_mul]
    exact hfit ..
  · rw [hlength, hlong]
    simp

end PoseidonServer.Conn
