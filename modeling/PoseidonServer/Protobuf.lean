import Mathlib.Algebra.Order.Ring.Int
import Mathlib.Data.List.Basic

/-! The wire format of protocol buffers: base-128 integers, and messages as sequences of fields. -/

namespace PoseidonServer.Protobuf

/-- Seven bits an octet, the lowest first; every octet but the last has its high bit set. -/
inductive Varint : Nat → List UInt8 → Prop
  | last {b : UInt8} (h : b.toNat < 128) : Varint b.toNat [b]
  | more {b : UInt8} {v : Nat} {bs : List UInt8} (h : 128 ≤ b.toNat) (hv : Varint v bs) :
      Varint (b.toNat % 128 + 128 * v) (b :: bs)

theorem Varint.of_lt {v : Nat} (h : v < 128) : Varint v [UInt8.ofNat v] := by
  have hv : (UInt8.ofNat v).toNat = v := by
    rw [UInt8.toNat_ofNat']
    omega
  have hlast := Varint.last (b := UInt8.ofNat v) (by omega)
  rwa [hv] at hlast

theorem Varint.length_pos {v : Nat} {bs : List UInt8} (h : Varint v bs) : 0 < bs.length := by
  cases h <;> simp

inductive Payload
  | varint (v : Nat)
  | i64 (octets : List UInt8)
  | len (octets : List UInt8)
  | i32 (octets : List UInt8)
  deriving DecidableEq

def Payload.wireType : Payload → Nat
  | .varint _ => 0
  | .i64 _ => 1
  | .len _ => 2
  | .i32 _ => 5

structure WireField where
  number : Nat
  payload : Payload
  deriving DecidableEq

inductive Payload.Encodes : Payload → List UInt8 → Prop
  | varint {v : Nat} {bs : List UInt8} (hv : v < 2 ^ 64) (h : Varint v bs) (hlen : bs.length ≤ 10) :
      Encodes (.varint v) bs
  | i64 {bs : List UInt8} (h : bs.length = 8) : Encodes (.i64 bs) bs
  | len {s ls : List UInt8} (h : Varint s.length ls) (hlen : ls.length ≤ 10) :
      Encodes (.len s) (ls ++ s)
  | i32 {bs : List UInt8} (h : bs.length = 4) : Encodes (.i32 bs) bs

structure WireField.Encodes (f : WireField) (tag value : List UInt8) : Prop where
  number_lt : f.number < 2 ^ 29
  tagged : Varint (8 * f.number + f.payload.wireType) tag
  short : tag.length ≤ 10
  valued : f.payload.Encodes value

inductive Message : List WireField → List UInt8 → Prop
  | nil : Message [] []
  | cons {f : WireField} {fs : List WireField} {tag value rest : List UInt8}
      (h : f.Encodes tag value) (hrest : Message fs rest) :
      Message (f :: fs) (tag ++ value ++ rest)

theorem Payload.Encodes.length_le {s value : List UInt8} (h : (Payload.len s).Encodes value) :
    s.length ≤ value.length := by
  cases h
  simp

theorem Message.single {f : WireField} {tag value : List UInt8} (h : f.Encodes tag value) :
    Message [f] (tag ++ value) := by
  simpa using Message.cons h .nil

/-- A field of few octets with a small number. -/
theorem Message.short {number : Nat} {s : List UInt8} (hk : number < 15) (hs : s.length < 128) :
    Message [⟨number, .len s⟩] (UInt8.ofNat (8 * number + 2) :: UInt8.ofNat s.length :: s) := by
  have hvalue : (Payload.len s).Encodes ([UInt8.ofNat s.length] ++ s) := .len (.of_lt hs) (by simp)
  have htag : Varint (8 * number + 2) [UInt8.ofNat (8 * number + 2)] := .of_lt (by omega)
  have hfield : WireField.Encodes ⟨number, .len s⟩ [UInt8.ofNat (8 * number + 2)] _ :=
    ⟨by dsimp only; omega, htag, by simp, hvalue⟩
  exact .single hfield

theorem Message.append {fs gs : List WireField} {bs cs : List UInt8} (h : Message fs bs)
    (h' : Message gs cs) : Message (fs ++ gs) (bs ++ cs) := by
  induction h with
  | nil => exact h'
  | cons h _ ih => simpa only [List.append_assoc, List.cons_append] using Message.cons h ih

theorem Message.length_le {fs : List WireField} {bs : List UInt8} (h : Message fs bs) :
    fs.length ≤ bs.length := by
  induction h with
  | nil => simp
  | cons h _ ih =>
    have htag := h.tagged.length_pos
    simp only [List.length_cons, List.length_append]
    omega

theorem Message.octets_length_le {fs : List WireField} {bs s : List UInt8} (h : Message fs bs)
    {number : Nat} (hs : ⟨number, .len s⟩ ∈ fs) : s.length ≤ bs.length := by
  induction h with
  | nil => cases hs
  | cons h _ ih =>
    simp only [List.length_append]
    rcases List.mem_cons.1 hs with rfl | hs
    · have := h.valued.length_le
      omega
    · have := ih hs
      omega

/-! A reader of that format. -/

/-- A base-128 integer of at most so many octets, and what is behind it. -/
def takeVarint : Nat → List UInt8 → Option (Nat × List UInt8)
  | 0, _ => none
  | _, [] => none
  | k + 1, b :: bs =>
    if b.toNat < 128 then some (b.toNat, bs)
    else match takeVarint k bs with
      | some (v, rest) => some (b.toNat % 128 + 128 * v, rest)
      | none => none

def takeOctets (n : Nat) (bs : List UInt8) : Option (List UInt8 × List UInt8) :=
  if n ≤ bs.length then some (bs.splitAt n) else none

def takePayload (wireType : Nat) (bs : List UInt8) : Option (Payload × List UInt8) :=
  match wireType with
  | 0 => (takeVarint 10 bs).map fun r => (.varint r.1, r.2)
  | 1 => (takeOctets 8 bs).map fun r => (.i64 r.1, r.2)
  | 2 => (takeVarint 10 bs).bind fun r => (takeOctets r.1 r.2).map fun r => (.len r.1, r.2)
  | 5 => (takeOctets 4 bs).map fun r => (.i32 r.1, r.2)
  | _ => none

def scan (bs : List UInt8) : Option (List WireField) :=
  go bs.length bs
where
  go : Nat → List UInt8 → Option (List WireField)
    | _, [] => some []
    | 0, _ => none
    | k + 1, bs => do
      let (tag, bs) ← takeVarint 10 bs
      let (payload, bs) ← takePayload (tag % 8) bs
      let fs ← go k bs
      some (⟨tag / 8, payload⟩ :: fs)

variable {v k : Nat} {bs rest : List UInt8}

theorem takeVarint_append (h : Varint v bs) (hk : bs.length ≤ k) (rest : List UInt8) :
    takeVarint k (bs ++ rest) = some (v, rest) := by
  induction h generalizing k with
  | last hb =>
    obtain ⟨k, rfl⟩ : ∃ j, k = j + 1 := ⟨k - 1, by simp at hk; omega⟩
    simp [takeVarint, hb]
  | more hb _ ih =>
    obtain ⟨k, rfl⟩ : ∃ j, k = j + 1 := ⟨k - 1, by simp at hk; omega⟩
    simp only [List.length_cons, Nat.add_le_add_iff_right] at hk
    simp [takeVarint, ih hk, Nat.not_lt.2 hb]

theorem takeOctets_append (s rest : List UInt8) : takeOctets s.length (s ++ rest) = some (s, rest) := by
  simp [takeOctets]

theorem takePayload_append {p : Payload} (h : p.Encodes bs) (rest : List UInt8) :
    takePayload p.wireType (bs ++ rest) = some (p, rest) := by
  cases h with
  | varint _ h hlen => simp [takePayload, Payload.wireType, takeVarint_append h hlen]
  | i64 h =>
    have := takeOctets_append bs rest
    rw [h] at this
    simp [takePayload, Payload.wireType, this]
  | len h hlen =>
    simp [takePayload, Payload.wireType, takeVarint_append h hlen, takeOctets_append]
  | i32 h =>
    have := takeOctets_append bs rest
    rw [h] at this
    simp [takePayload, Payload.wireType, this]

theorem Payload.wireType_lt (p : Payload) : p.wireType < 8 := by
  cases p <;> simp [wireType]

theorem scan_go_message {fs : List WireField} (h : Message fs bs) (hk : bs.length ≤ k) :
    scan.go k bs = some fs := by
  induction h generalizing k with
  | nil => cases k <;> rfl
  | @cons f fs tag value rest h _ ih =>
    have htag := h.tagged.length_pos
    have hw := f.payload.wireType_lt
    simp only [List.length_append] at hk
    obtain ⟨k, rfl⟩ : ∃ j, k = j + 1 := ⟨k - 1, by omega⟩
    obtain ⟨b, bs, hb⟩ : ∃ b bs, tag = b :: bs := List.exists_cons_of_length_pos htag
    have hne : tag ++ value ++ rest = b :: (bs ++ value ++ rest) := by simp [hb]
    rw [hne, scan.go, ← hne, List.append_assoc, takeVarint_append h.tagged h.short]
    · simp only [Option.bind_eq_bind, Option.bind_some]
      rw [show (8 * f.number + f.payload.wireType) % 8 = f.payload.wireType by omega,
        show (8 * f.number + f.payload.wireType) / 8 = f.number by omega,
        takePayload_append h.valued]
      simp [ih (k := k) (by omega)]
    · exact nofun

/-- What was encoded is found, in its order. -/
theorem scan_message {fs : List WireField} (h : Message fs bs) : scan bs = some fs :=
  scan_go_message h (Nat.le_refl _)

end PoseidonServer.Protobuf
