import PoseidonServer.Decimal

/-! The status of a call and its trailers: `status.go`, `percent.go` and `statusToHPack`. -/

namespace PoseidonServer.Grpc

abbrev Code := UInt32

namespace Code

def ok : Code := 0
def canceled : Code := 1
def deadlineExceeded : Code := 4
def resourceExhausted : Code := 8
def unimplemented : Code := 12
def internal : Code := 13

end Code

structure RPCStatus where
  code : Code
  message : Bytes
  deriving DecidableEq

def statusOK : RPCStatus := ⟨.ok, []⟩

def codeNames : List String :=
  ["OK", "Canceled", "Unknown", "InvalidArgument", "DeadlineExceeded", "NotFound", "AlreadyExists",
    "PermissionDenied", "ResourceExhausted", "FailedPrecondition", "Aborted", "OutOfRange",
    "Unimplemented", "Internal", "Unavailable", "DataLoss", "Unauthenticated"]

def Code.string (c : Code) : Bytes :=
  match codeNames[c.toNat]? with
  | some name => ascii name
  | none => ascii "Code(" ++ Decimal.format c.toNat ++ ascii ")"

/-- The errors that the package compares with. -/
inductive Sentinel
  | eof | unexpectedEOF | deadlineExceeded | canceled | messageTooLarge | invalidHeader
  deriving DecidableEq

/-- An error by what the package can tell of it: the status that `errors.As` finds, the
sentinels for which `errors.Is` holds and its text. -/
structure GoError where
  status : Option RPCStatus := none
  is : List Sentinel := []
  text : Bytes
  deriving DecidableEq

def RPCStatus.error (s : RPCStatus) : GoError where
  status := some s
  text := ascii "rpc error: code = " ++ s.code.string ++ ascii " desc = " ++ s.message

def errToStatus (err : GoError) : RPCStatus :=
  match err.status with
  | some st => st
  | none =>
    if .deadlineExceeded ∈ err.is then ⟨.deadlineExceeded, ascii "deadline exceeded"⟩
    else if .canceled ∈ err.is then ⟨.canceled, ascii "context canceled"⟩
    else if .messageTooLarge ∈ err.is then
      ⟨.resourceExhausted, ascii "received message larger than max"⟩
    else ⟨.internal, err.text⟩

def digits : Bytes := ascii "0123456789"

def twoDigitStrings (i : Nat) : Bytes :=
  if i < 10 then (digits.drop i).take 1
  else [UInt8.ofNat (0x30 + i / 10), UInt8.ofNat (0x30 + i % 10)]

def reversedDigits (v : Nat) : Bytes :=
  if v = 0 then [] else UInt8.ofNat (0x30 + v % 10) :: reversedDigits (v / 10)

def uint32ToString (v : UInt32) : Bytes :=
  if v < 10 then (digits.drop v.toNat).take 1
  else if v < 100 then twoDigitStrings v.toNat
  else (reversedDigits v.toNat).reverse

def upperHex : Bytes := ascii "0123456789ABCDEF"

def mustEncode (c : UInt8) : Bool := c < 0x20 || c == 0x25 || c > 0x7e

def percentEncodeOctet (c : UInt8) : Bytes :=
  if mustEncode c then [0x25, upperHex.getD (c >>> 4).toNat 0, upperHex.getD (c &&& 0x0f).toNat 0]
  else [c]

def percentEncodeMessage (s : Bytes) : Bytes :=
  let extra := s.foldl (fun extra c => if mustEncode c then extra + 2 else extra) 0
  if s = [] then [] else if extra = 0 then s else s.flatMap percentEncodeOctet

def headerGRPCStatus : Bytes := ascii "grpc-status"
def headerGRPCMessage : Bytes := ascii "grpc-message"

def statusToHPack (st : RPCStatus) : List HeaderField :=
  let msg := percentEncodeMessage st.message
  if msg.length = 0 then [{ name := headerGRPCStatus, value := some (uint32ToString st.code) }]
  else [{ name := headerGRPCStatus, value := some (uint32ToString st.code) },
    { name := headerGRPCMessage, value := some msg }]

def statusToTrailers (s : RPCStatus) : List (Bytes × Bytes) :=
  [(headerGRPCStatus, Decimal.format s.code.toNat), (headerGRPCMessage, s.message)]

def readTrailers (st : RPCStatus) : List (Bytes × Bytes) → RPCStatus
  | [] => st
  | (key, v) :: trailers =>
    if key = headerGRPCStatus then match Decimal.parseInt 32 v with
      | none => ⟨.internal, ascii "invalid grpc-status: " ++ v⟩
      | some code => readTrailers { st with code := .ofInt code } trailers
    else if key = headerGRPCMessage then readTrailers { st with message := v } trailers
    else readTrailers st trailers

def trailersToStatus (trailers : List (Bytes × Bytes)) : RPCStatus :=
  readTrailers ⟨.internal, ascii "missing grpc-status"⟩ trailers

section Decimal

open Decimal

theorem digit_eq {d : Nat} (h : d < 10) : (digits.drop d).take 1 = [octet d] := by
  interval_cases d <;> rfl

theorem reversedDigits_eq {v : Nat} (h : v ≠ 0) : (reversedDigits v).reverse = format v := by
  induction v using Nat.strongRecOn with
  | ind v ih =>
    rw [reversedDigits, if_neg h, List.reverse_cons, format_eq]
    split
    · rename_i hv
      rw [show v / 10 = 0 by omega, reversedDigits]
      rfl
    · rw [ih (v / 10) (by omega) (by omega)]
      rfl

/-- The three paths of `uint32ToString` print the same. -/
theorem uint32ToString_eq (v : UInt32) : uint32ToString v = format v.toNat := by
  unfold uint32ToString
  split
  · rename_i h
    have h : v.toNat < 10 := UInt32.lt_iff_toNat_lt.1 h
    rw [digit_eq h, format_eq, if_pos h, Nat.mod_eq_of_lt h]
    rfl
  split
  · rename_i h₁ h₂
    have h₁ : ¬v.toNat < 10 := fun h => h₁ (UInt32.lt_iff_toNat_lt.2 h)
    have h₂ : v.toNat < 100 := UInt32.lt_iff_toNat_lt.1 h₂
    have h₃ : v.toNat / 10 < 10 := by omega
    rw [twoDigitStrings, if_neg h₁, format_eq, if_neg h₁, format_eq (v.toNat / 10), if_pos h₃,
      Nat.mod_eq_of_lt h₃]
    rfl
  · rename_i h
    apply reversedDigits_eq
    intro h0
    exact h (UInt32.lt_iff_toNat_lt.2 (h0 ▸ by decide))

end Decimal

def Unencoded (c : UInt8) : Prop := 0x20 ≤ c ∧ c ≤ 0x24 ∨ 0x26 ≤ c ∧ c ≤ 0x7e

def HexDigit (c : UInt8) : Prop := 0x30 ≤ c ∧ c ≤ 0x39 ∨ 0x41 ≤ c ∧ c ≤ 0x46

inductive PercentBytes : Bytes → Prop
  | nil : PercentBytes []
  | unencoded : Unencoded c → PercentBytes v → PercentBytes (c :: v)
  | encoded : HexDigit a → HexDigit b → PercentBytes v → PercentBytes (0x25 :: a :: b :: v)

def PercentEncoded (v : Bytes) : Prop := v ≠ [] ∧ PercentBytes v

def hexValue (c : UInt8) : Option UInt8 :=
  if 0x30 ≤ c ∧ c ≤ 0x39 then some (c - 0x30)
  else if 0x41 ≤ c ∧ c ≤ 0x46 then some (c - 0x37)
  else if 0x61 ≤ c ∧ c ≤ 0x66 then some (c - 0x57)
  else none

/-- What the receiver of a `grpc-message` makes of its value. -/
def percentDecode : Bytes → Option Bytes
  | [] => some []
  | c :: v =>
    if c = 0x25 then match v with
      | a :: b :: v => do
        let hi ← hexValue a
        let lo ← hexValue b
        return (hi * 16 + lo) :: (← percentDecode v)
      | _ => none
    else do return c :: (← percentDecode v)

theorem mustEncode_iff (c : UInt8) : mustEncode c = false ↔ Unencoded c := by
  apply forall_octet (P := fun c => mustEncode c = false ↔ Unencoded c)
  unfold Unencoded
  decide +kernel

theorem hexDigit_upperHex (n : Fin 16) : HexDigit (upperHex.getD n 0) := by
  revert n
  unfold HexDigit
  decide

theorem percentDecode_plain {c : UInt8} (h : c ≠ 0x25) (v : Bytes) :
    percentDecode (c :: v) = (percentDecode v).map (c :: ·) := by
  rw [percentDecode.eq_def]
  simp only [h, if_false]
  cases percentDecode v <;> rfl

theorem hexValue_upperHex (n : Fin 16) :
    hexValue (upperHex.getD n 0) = some (UInt8.ofNat n) := by
  revert n
  decide

theorem nibbles (c : UInt8) : ∃ hi lo : Fin 16, (c >>> 4).toNat = hi ∧ (c &&& 0x0f).toNat = lo ∧
    UInt8.ofNat hi * 16 + UInt8.ofNat lo = c := by
  have hlt : ∀ c : UInt8, (c >>> 4).toNat < 16 ∧ (c &&& 0x0f).toNat < 16 :=
    forall_octet (by decide +kernel)
  have hsum : ∀ c : UInt8,
      UInt8.ofNat (c >>> 4).toNat * 16 + UInt8.ofNat (c &&& 0x0f).toNat = c :=
    forall_octet (by decide +kernel)
  exact ⟨⟨_, (hlt c).1⟩, ⟨_, (hlt c).2⟩, rfl, rfl, hsum c⟩

theorem percentDecode_octet (c : UInt8) (v : Bytes) :
    percentDecode (percentEncodeOctet c ++ v) = (percentDecode v).map (c :: ·) := by
  unfold percentEncodeOctet
  split
  · obtain ⟨hi, lo, hhi, hlo, hc⟩ := nibbles c
    rw [hhi, hlo, List.cons_append, percentDecode.eq_def]
    simp only [if_true, List.cons_append, List.nil_append, hexValue_upperHex]
    cases percentDecode v <;> simp [hc]
  · rename_i hm
    apply percentDecode_plain
    rintro rfl
    exact hm rfl

theorem percentBytes_octet {c : UInt8} {v : Bytes} (h : PercentBytes v) :
    PercentBytes (percentEncodeOctet c ++ v) := by
  unfold percentEncodeOctet
  split
  · obtain ⟨hi, lo, hhi, hlo, -⟩ := nibbles c
    rw [hhi, hlo]
    exact .encoded (hexDigit_upperHex hi) (hexDigit_upperHex lo) h
  · rename_i hm
    exact .unencoded ((mustEncode_iff c).1 (by simpa using hm)) h

theorem PercentBytes.printable {v : Bytes} (h : PercentBytes v) : ∀ c ∈ v, 0x20 ≤ c ∧ c ≤ 0x7e := by
  have hu : ∀ c, Unencoded c → 0x20 ≤ c ∧ c ≤ 0x7e :=
    forall_octet (by unfold Unencoded; decide +kernel)
  have hx : ∀ c, HexDigit c → 0x20 ≤ c ∧ c ≤ 0x7e :=
    forall_octet (by unfold HexDigit; decide +kernel)
  induction h with
  | nil => simp
  | unencoded hc _ ih => exact List.forall_mem_cons.2 ⟨hu _ hc, ih⟩
  | encoded ha hb _ ih =>
    simp only [List.forall_mem_cons]
    exact ⟨by decide, hx _ ha, hx _ hb, ih⟩

theorem flatMap_plain {s : Bytes} (h : ∀ c ∈ s, mustEncode c = false) :
    s.flatMap percentEncodeOctet = s := by
  induction s with
  | nil => rfl
  | cons c s ih =>
    rw [List.forall_mem_cons] at h
    rw [List.flatMap_cons, ih h.2, percentEncodeOctet, h.1]
    rfl

theorem extra_eq (s : Bytes) (n : Nat) :
    s.foldl (fun extra c => if mustEncode c then extra + 2 else extra) n =
      n + 2 * s.countP mustEncode := by
  induction s generalizing n with
  | nil => rfl
  | cons c s ih =>
    rw [List.foldl_cons, ih, List.countP_cons]
    split <;> omega

/-- The count of `percentEncodeMessage` only saves work. -/
theorem percentEncodeMessage_eq (s : Bytes) : percentEncodeMessage s = s.flatMap percentEncodeOctet := by
  simp only [percentEncodeMessage, extra_eq]
  split
  · rename_i h
    rw [h]
    rfl
  split
  · rename_i h
    have hs : s.countP mustEncode = 0 := by omega
    exact (flatMap_plain fun c hc => by simpa using List.countP_eq_zero.1 hs c hc).symm
  · rfl

theorem length_flatMap (s : Bytes) :
    (s.flatMap percentEncodeOctet).length = s.length + 2 * s.countP mustEncode := by
  induction s with
  | nil => rfl
  | cons c s ih =>
    rw [List.flatMap_cons, List.length_append, ih, List.countP_cons, percentEncodeOctet,
      List.length_cons]
    split <;> simp <;> omega

theorem flatMap_eq_iff {s : Bytes} :
    s.flatMap percentEncodeOctet = s ↔ ∀ c ∈ s, mustEncode c = false := by
  constructor
  · intro h c hc
    have hlen := length_flatMap s
    have hs : s.countP mustEncode = 0 := by
      rw [h] at hlen
      omega
    simpa using List.countP_eq_zero.1 hs c hc
  · exact flatMap_plain

theorem percentDecode_message (s : Bytes) : percentDecode (percentEncodeMessage s) = some s := by
  rw [percentEncodeMessage_eq]
  induction s with
  | nil => rfl
  | cons c s ih => rw [List.flatMap_cons, percentDecode_octet, ih, Option.map_some]

theorem percentBytes_message (s : Bytes) : PercentBytes (percentEncodeMessage s) := by
  rw [percentEncodeMessage_eq]
  induction s with
  | nil => exact .nil
  | cons c s ih =>
    rw [List.flatMap_cons]
    exact percentBytes_octet ih

theorem percentEncodeMessage_eq_nil {s : Bytes} : percentEncodeMessage s = [] ↔ s = [] := by
  constructor
  · intro h
    have hs := percentDecode_message s
    rw [h] at hs
    exact (Option.some.inj hs).symm
  · rintro rfl
    rfl

def valuesOf (name : Bytes) (fields : List HeaderField) : List Bytes :=
  (fields.filter (·.name = name)).map (·.val)

def pairs (fields : List HeaderField) : List (Bytes × Bytes) := fields.map fun f => (f.name, f.val)

theorem statusToHPack_nil {st : RPCStatus} (h : st.message = []) :
    pairs (statusToHPack st) = [(headerGRPCStatus, Decimal.format st.code.toNat)] := by
  rw [statusToHPack, h, uint32ToString_eq]
  rfl

theorem statusToHPack_cons {st : RPCStatus} (h : st.message ≠ []) :
    pairs (statusToHPack st) = [(headerGRPCStatus, Decimal.format st.code.toNat),
      (headerGRPCMessage, percentEncodeMessage st.message)] := by
  have hm : ¬(percentEncodeMessage st.message).length = 0 := fun hl =>
    h (percentEncodeMessage_eq_nil.1 (List.length_eq_zero_iff.1 hl))
  rw [statusToHPack, uint32ToString_eq]
  simp only [hm, if_false]
  rfl

theorem valuesOf_eq (name : Bytes) (fields : List HeaderField) :
    valuesOf name fields = ((pairs fields).filter (·.1 = name)).map (·.2) := by
  simp [valuesOf, pairs, List.filter_map, Function.comp_def]

theorem valuesOf_status (st : RPCStatus) :
    valuesOf headerGRPCStatus (statusToHPack st) = [ascii (toString st.code.toNat)] := by
  by_cases hm : st.message = []
  · rw [valuesOf_eq, statusToHPack_nil hm]
    rfl
  · rw [valuesOf_eq, statusToHPack_cons hm]
    rfl

theorem readTrailers_code {st : RPCStatus} {code : Code} (h : code.toNat < 2 ^ 31)
    (trailers : List (Bytes × Bytes)) :
    readTrailers st ((headerGRPCStatus, Decimal.format code.toNat) :: trailers) =
      readTrailers { st with code } trailers := by
  have hparse : Decimal.parseInt 32 _ = _ := Decimal.parseInt_format h
  have hcode : UInt32.ofInt (code.toNat : Int) = code := by
    rw [UInt32.ofInt, Int.emod_eq_of_lt (by omega) (by exact_mod_cast code.toNat_lt),
      Int.toNat_natCast, UInt32.ofNat_toNat]
  simp only [readTrailers, if_true, hparse, hcode]

/-- A code with the highest bit set is printed as an unsigned number and read as a signed one. -/
theorem status_pairs_survive_iff (st : RPCStatus) :
    trailersToStatus (statusToTrailers st) = st ↔ st.code.toNat < 2 ^ 31 := by
  constructor
  · intro hst
    by_contra hge
    have hparse : Decimal.parseInt 32 _ = _ := Decimal.parseInt_format_eq st.code.toNat_lt
    rw [if_neg hge] at hparse
    simp only [trailersToStatus, statusToTrailers, readTrailers, if_true, hparse] at hst
    have hcode : Code.internal = st.code := congrArg RPCStatus.code hst
    exact hge (hcode ▸ by decide)
  · intro h
    rw [trailersToStatus, statusToTrailers, readTrailers_code h]
    rfl

theorem trailersToStatus_iff {st : RPCStatus} (h : st.code.toNat < 2 ^ 31) :
    trailersToStatus (pairs (statusToHPack st)) = st ↔
      st.message ≠ [] ∧ ∀ c ∈ st.message, mustEncode c = false := by
  by_cases hm : st.message = []
  · rw [trailersToStatus, statusToHPack_nil hm, readTrailers_code h]
    constructor
    · intro hst
      have : ascii "missing grpc-status" = st.message := congrArg RPCStatus.message hst
      rw [hm] at this
      exact absurd this (by decide)
    · intro hne
      exact absurd hm hne.1
  · have hread : trailersToStatus (pairs (statusToHPack st)) =
        ⟨st.code, percentEncodeMessage st.message⟩ := by
      rw [trailersToStatus, statusToHPack_cons hm, readTrailers_code h]
      rfl
    rw [hread, and_iff_right hm, ← flatMap_eq_iff, ← percentEncodeMessage_eq]
    exact ⟨fun hst => congrArg RPCStatus.message hst, fun hs => by rw [hs]⟩

/-- A status on the wire. The server's own reader of trailers does not decode the message, and
takes one that was left out for a missing status. -/
theorem status_trailers_survive (st : RPCStatus) (h : st.code.toNat < 2 ^ 31) :
    valuesOf headerGRPCStatus (statusToHPack st) = [ascii (toString st.code.toNat)] ∧
    (st.message = [] → valuesOf headerGRPCMessage (statusToHPack st) = []) ∧
    (st.message ≠ [] → ∃ v, valuesOf headerGRPCMessage (statusToHPack st) = [v] ∧
      PercentEncoded v ∧ (∀ c ∈ v, 0x20 ≤ c ∧ c ≤ 0x7e) ∧ percentDecode v = some st.message) ∧
    (trailersToStatus (pairs (statusToHPack st)) = st ↔
      st.message ≠ [] ∧ ∀ c ∈ st.message, mustEncode c = false) := by
  refine ⟨valuesOf_status st, fun hm => ?_,
    fun hm => ⟨percentEncodeMessage st.message, ?_, ?_, ?_, ?_⟩, trailersToStatus_iff h⟩
  · rw [valuesOf_eq, statusToHPack_nil hm]
    rfl
  · rw [valuesOf_eq, statusToHPack_cons hm]
    rfl
  · exact ⟨fun hnil => hm (percentEncodeMessage_eq_nil.1 hnil), percentBytes_message _⟩
  · exact (percentBytes_message _).printable
  · exact percentDecode_message _

theorem status_trailers_survive_notFound :
    trailersToStatus (pairs (statusToHPack ⟨5, ascii "user 42"⟩)) = ⟨5, ascii "user 42"⟩ :=
  (status_trailers_survive ⟨5, ascii "user 42"⟩ (by decide)).2.2.2.2 (by decide +kernel)

/-- A percent sign comes back encoded, and an empty message as the text for a missing status. -/
theorem trailersToStatus_not_inverse :
    trailersToStatus (pairs (statusToHPack ⟨5, ascii "50%"⟩)) = ⟨5, ascii "50%25"⟩ ∧
    trailersToStatus (pairs (statusToHPack statusOK)) = ⟨0, ascii "missing grpc-status"⟩ := by
  decide +kernel

end PoseidonServer.Grpc
