import PoseidonServer.Grpc.Wire
import PoseidonServer.Protobuf

/-! What the readers of package `grpcserver` find in a well-formed message. -/

namespace PoseidonServer.Grpc

open Outcome Protobuf

theorem ofNat_split {low v : Nat} (hlow : low < 128) :
    UInt64.ofNat (low + 128 * v) = UInt64.ofNat low ||| UInt64.ofNat v <<< 7 := by
  apply UInt64.toNat_inj.1
  have hor := Nat.two_pow_add_eq_or_of_lt (i := 7) hlow (v % 2 ^ 57)
  have h7 : (7 : UInt64).toNat % 64 = 7 := rfl
  rw [UInt64.toNat_or, UInt64.toNat_shiftLeft, h7, UInt64.toNat_ofNat', UInt64.toNat_ofNat',
    UInt64.toNat_ofNat', Nat.shiftLeft_eq, Nat.or_comm,
    show v % 2 ^ 64 * 2 ^ 7 % 2 ^ 64 = 2 ^ 7 * (v % 2 ^ 57) by omega,
    show low % 2 ^ 64 = low by omega, ← hor]
  omega

/-- The seven bits of one octet and those of the octets behind it. -/
theorem shift_split {i low v : Nat} (hi : i ≤ 8) (hlow : low < 128) :
    UInt64.ofNat low <<< UInt64.ofNat (7 * i) ||| UInt64.ofNat v <<< UInt64.ofNat (7 * (i + 1)) =
      UInt64.ofNat (low + 128 * v) <<< UInt64.ofNat (7 * i) := by
  have hlt {k : Nat} (hk : k < 64) : UInt64.ofNat k < 64 := by
    rw [UInt64.lt_iff_toNat_lt, UInt64.toNat_ofNat', Nat.mod_eq_of_lt (by omega)]
    exact hk
  have hadd : UInt64.ofNat (7 * (i + 1)) = UInt64.ofNat 7 + UInt64.ofNat (7 * i) := by
    rw [← UInt64.ofNat_add, Nat.mul_succ, Nat.add_comm]
  have hsum := hlt (k := 7 * (i + 1)) (by omega)
  rw [hadd] at hsum ⊢
  rw [ofNat_split hlow, UInt64.shiftLeft_or, UInt64.shiftLeft_add (hlt (by omega)) (hlt (by omega)) hsum]
  rfl

theorem low_bits (b : UInt8) : (b &&& 0x7F).toUInt64 = UInt64.ofNat (b.toNat % 128) := by
  apply UInt64.toNat_inj.1
  have h : (0x7F : UInt8).toNat = 2 ^ 7 - 1 := rfl
  rw [UInt8.toNat_toUInt64, UInt8.toNat_and, h, Nat.and_two_pow_sub_one_eq_mod, UInt64.toNat_ofNat']
  omega

theorem high_bit (b : UInt8) : b &&& 0x80 = 0 ↔ b.toNat < 128 := by
  have h : ∀ n : Fin 256, UInt8.ofNat n.val &&& 0x80 = 0 ↔ n.val < 128 := by decide +kernel
  have hb := h ⟨b.toNat, b.toNat_lt⟩
  rwa [UInt8.ofNat_toNat] at hb

variable {v : Nat} {bs : Bytes}

theorem decodeVarint_go_append (h : Varint v bs) {i : Nat} (hlen : i + bs.length ≤ 10)
    (result : UInt64) (rest : Bytes) :
    decodeVarint.go i result (UInt64.ofNat (7 * i)) (bs ++ rest) =
      (result ||| UInt64.ofNat v <<< UInt64.ofNat (7 * i), i + bs.length) := by
  induction h generalizing i result with
  | @last b hb =>
    simp only [List.length_singleton] at hlen
    have hi : ¬i ≥ 10 := by omega
    simp only [List.cons_append, decodeVarint.go, hi, if_false, (high_bit b).2 hb, if_true, low_bits,
      Nat.mod_eq_of_lt hb, List.length_singleton]
  | @more b v bs hb hv ih =>
    have hpos := hv.length_pos
    simp only [List.length_cons] at hlen
    have hi : ¬i ≥ 10 := by omega
    have hadd : UInt64.ofNat (7 * i) + 7 = UInt64.ofNat (7 * (i + 1)) := by
      rw [Nat.mul_succ, UInt64.ofNat_add]
      rfl
    have hmore : ¬(b &&& 0x80 = 0) := by
      rw [high_bit]
      omega
    simp only [List.cons_append, decodeVarint.go, hi, if_false, hmore, hadd]
    rw [ih (by omega), low_bits, UInt64.or_assoc, shift_split (by omega) (by omega),
      List.length_cons, Nat.add_right_comm, Nat.add_assoc]

/-- An integer that was encoded is read back with its length. -/
theorem decodeVarint_append (h : Varint v bs) (hlen : bs.length ≤ 10) (rest : Bytes) :
    decodeVarint (bs ++ rest) = (UInt64.ofNat v, bs.length) := by
  have := decodeVarint_go_append h (i := 0) (by omega) 0 rest
  simpa [decodeVarint] using this

theorem toNat_ofNat_of_lt (hv : v < 2 ^ 64) : (UInt64.ofNat v).toNat = v := by
  rw [UInt64.toNat_ofNat', Nat.mod_eq_of_lt hv]

theorem fieldNumber_tag {number : Nat} {p : Payload} (h : number < 2 ^ 29) :
    fieldNumber (UInt64.ofNat (8 * number + p.wireType)) = number := by
  have hw := p.wireType_lt
  have h3 : (3 : UInt64).toNat % 64 = 3 := rfl
  rw [fieldNumber, UInt64.toNat_shiftRight, h3, toNat_ofNat_of_lt (by omega), Nat.shiftRight_eq_div_pow]
  omega

theorem wireType_tag {number : Nat} {p : Payload} (h : number < 2 ^ 29) :
    wireType (UInt64.ofNat (8 * number + p.wireType)) = p.wireType := by
  have hw := p.wireType_lt
  have h7 : (7 : UInt64).toNat = 2 ^ 3 - 1 := rfl
  rw [wireType, UInt64.toNat_and, h7, Nat.and_two_pow_sub_one_eq_mod, toNat_ofNat_of_lt (by omega)]
  omega

variable (pre rest : Bytes)

theorem slice_append (s : Bytes) :
    slice (pre ++ s ++ rest) pre.length (pre ++ s).length = .ok s := by
  have h : (0 : Int) ≤ pre.length ∧ (pre.length : Int) ≤ (pre ++ s).length ∧
      ((pre ++ s).length : Int) ≤ (pre ++ s ++ rest).length := by
    simp only [List.length_append]
    omega
  rw [slice, if_pos h, Int.toNat_natCast, Int.toNat_natCast, List.take_left, List.drop_left]

theorem readVarint_append (h : Varint v bs) (hlen : bs.length ≤ 10)
    (hdata : (pre ++ bs ++ rest).length < 2 ^ 63) :
    readVarint (pre ++ bs ++ rest) pre.length =
      .ok (some (UInt64.ofNat v, (pre ++ bs).length)) := by
  have hs := slice_append pre [] (bs ++ rest)
  rw [List.append_nil, ← List.append_assoc] at hs
  have hpos := h.length_pos
  simp only [List.length_append] at hdata
  simp only [readVarint, hs, ok_bind, decodeVarint_append h hlen, pure_eq]
  rw [if_neg (by omega), int64_of_range (by omega) (by omega), List.length_append, Nat.cast_add]

theorem index_append (b : UInt8) :
    index (pre ++ b :: rest) pre.length = .ok b := by
  simp [index]

theorem skipVarint_append (h : Varint v bs) {k : Nat} (hk : bs.length ≤ k) :
    skipVarint (pre ++ bs ++ rest) k pre.length = .ok (pre ++ bs).length := by
  induction h generalizing pre k with
  | @last b hb =>
    obtain ⟨k, rfl⟩ : ∃ j, k = j + 1 := ⟨k - 1, by simp at hk; omega⟩
    simp [skipVarint, index_append, (high_bit b).2 hb]
  | @more b v bs hb _ ih =>
    obtain ⟨k, rfl⟩ : ∃ j, k = j + 1 := ⟨k - 1, by simp at hk; omega⟩
    have hmore : ¬(b &&& 0x80 = 0) := by
      rw [high_bit]
      omega
    have ih := ih (pre ++ [b]) (k := k) (by simpa using hk)
    simp only [List.append_assoc, List.cons_append, List.nil_append, List.length_append,
      List.length_singleton, Nat.cast_add, Nat.cast_one] at ih
    rw [List.append_assoc, List.cons_append, skipVarint, index_append, ok_bind, if_neg hmore, ih]
    simp only [List.length_append, List.length_cons]
    congr 1

/-- A field that was encoded is found, and the reader goes on behind it. -/
theorem fieldAt_append {f : WireField} {tag value : Bytes} (h : f.Encodes tag value)
    (hdata : (pre ++ (tag ++ value) ++ rest).length < 2 ^ 63) :
    ∃ start, fieldAt (pre ++ (tag ++ value) ++ rest) pre.length =
        some ⟨f.number, f.payload.wireType, start, (pre ++ (tag ++ value)).length⟩ ∧
      ∀ s, f.payload = .len s →
        slice (pre ++ (tag ++ value) ++ rest) start (pre ++ (tag ++ value)).length = .ok s := by
  have htag : readVarint (pre ++ (tag ++ value) ++ rest) pre.length =
      .ok (some (UInt64.ofNat (8 * f.number + f.payload.wireType), (pre ++ tag).length)) := by
    have := readVarint_append pre (value ++ rest) h.tagged h.short
    simp only [List.append_assoc] at this hdata ⊢
    exact this hdata
  have hassoc : pre ++ (tag ++ value) ++ rest = pre ++ tag ++ value ++ rest := by
    simp only [List.append_assoc]
  have hlen := hdata
  simp only [List.length_append] at hlen
  obtain ⟨number, payload⟩ := f
  simp only [fieldAt, htag, wireType_tag h.number_lt, fieldNumber_tag h.number_lt]
  cases h.valued with
  | varint hv hvalue hshort =>
    have hskip := skipVarint_append (pre ++ tag) rest hvalue
      (k := ((pre ++ tag ++ value ++ rest).length - (pre ++ tag).length : Int).toNat) (by simp; omega)
    refine ⟨(pre ++ tag).length, ?_, by simp⟩
    rw [hassoc]
    simp only [Payload.wireType, skipField, hskip]
    simp
    omega
  | i64 hvalue =>
    refine ⟨(pre ++ tag).length, ?_, by simp⟩
    simp only [Payload.wireType, skipField, pure_eq]
    rw [int64_of_range (by simp; omega) (by simp; omega)]
    simp [hvalue]
    omega
  | i32 hvalue =>
    refine ⟨(pre ++ tag).length, ?_, by simp⟩
    simp only [Payload.wireType, skipField, pure_eq]
    rw [int64_of_range (by simp; omega) (by simp; omega)]
    simp [hvalue]
    omega
  | @len s ls hvalue hshort =>
    have hlength : readVarint (pre ++ (tag ++ (ls ++ s)) ++ rest) (pre ++ tag).length =
        .ok (some (UInt64.ofNat s.length, (pre ++ tag ++ ls).length)) := by
      have := readVarint_append (pre ++ tag) (s ++ rest) hvalue hshort
      simp only [List.append_assoc] at this hdata ⊢
      exact this hdata
    simp only [List.length_append] at hlen
    refine ⟨(pre ++ tag ++ ls).length, ?_, fun s' hs' => ?_⟩
    · have hs : int64 (s.length : Int) = s.length := int64_of_range (by omega) (by omega)
      simp only [Payload.wireType, hlength]
      rw [if_true, toNat_ofNat_of_lt (by omega), hs,
        int64_of_range (by simp; omega) (by simp; omega)]
      simp
      omega
    · cases hs'
      have := slice_append (pre ++ tag ++ ls) rest s
      simpa only [List.append_assoc] using this

def octetsOf (number : Nat) (f : WireField) : Option Bytes :=
  match f.payload with
  | .len s => if f.number = number then some s else none
  | _ => none

theorem eq_of_octetsOf {number : Nat} {f : WireField} {s : Bytes} (h : octetsOf number f = some s) :
    f = ⟨number, .len s⟩ := by
  obtain ⟨k, p⟩ := f
  cases p <;> simp_all [octetsOf]

end PoseidonServer.Grpc
