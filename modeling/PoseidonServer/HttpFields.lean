import Mathlib.Algebra.Order.Ring.Int
import Mathlib.Data.List.Basic

/-! The field rules of `internal/httpfields`. -/

namespace PoseidonServer

abbrev Bytes := List UInt8

instance : LawfulBEq Bytes := inferInstance

theorem forall_octet {P : UInt8 → Prop} (h : ∀ n, P (UInt8.ofFin n)) (c : UInt8) : P c := by
  rw [← UInt8.ofFin_toFin c]
  exact h _

def ascii (s : String) : Bytes := s.toList.map fun c => UInt8.ofNat c.toNat

inductive IndexingMode
  | incremental | withoutIndexing | neverIndexed
  deriving DecidableEq

def lowerASCII (s : Bytes) : Bytes := s.map fun c => if 0x41 ≤ c && c ≤ 0x5a then c + 0x20 else c

/-- A decoded or outgoing field line. The value is `none` for a nil slice. -/
structure HeaderField where
  name : Bytes
  value : Option Bytes
  indexing : IndexingMode := .incremental
  deriving DecidableEq

def HeaderField.val (f : HeaderField) : Bytes := f.value.getD []

namespace HttpFields

def hasProhibitedFieldChar (value : Bytes) : Bool :=
  (value.head?.any fun c => c == 0x20 || c == 0x09) ||
  (value.getLast?.any fun c => c == 0x20 || c == 0x09) ||
  value.any fun c => c == 0x0d || c == 0x0a || c == 0x00

def prohibitedNameOctet (c : UInt8) : Bool :=
  c ≤ 0x20 || c ≥ 0x7f || (c ≥ 0x41 && c ≤ 0x5a)

def hasProhibitedFieldName : Bytes → Bool
  | [] => true
  | c :: name => prohibitedNameOctet c || name.any fun c => prohibitedNameOctet c || c == 0x3a

/-- `bytes.EqualFold` against a lower-case ASCII literal. Unicode folds U+017F to `s` and
U+212A to `k`, so their encodings match too. -/
def equalFold : Bytes → Bytes → Bool
  | [], [] => true
  | 0xc5 :: 0xbf :: s, t :: ts => t == 0x73 && equalFold s ts
  | 0xe2 :: 0x84 :: 0xaa :: s, t :: ts => t == 0x6b && equalFold s ts
  | c :: s, t :: ts => (if 0x41 ≤ c && c ≤ 0x5a then c + 0x20 else c) == t && equalFold s ts
  | _, _ => false

def isConnectionSpecificName (n : Bytes) : Bool :=
  n == ascii "upgrade" || n == ascii "connection" || n == ascii "keep-alive" ||
  n == ascii "proxy-connection" || n == ascii "transfer-encoding"

def prohibited (name value : Bytes) (isTrailer : Bool) : Bool :=
  if hasProhibitedFieldName name || hasProhibitedFieldChar value then true
  else if isTrailer && name.head? == some 0x3a then true
  else if name == ascii "te" then !equalFold value (ascii "trailers")
  else isConnectionSpecificName name

/-- The `switch` on the length comes before the comparisons, which fold letters of any length. -/
def prohibitedInResponse (name : Bytes) : Bool :=
  match name with
  | [] => true
  | c :: rest =>
    if c = 0x3a then name ≠ ascii ":status"
    else if name.length = 2 ∧ c ||| 0x20 = 0x74 ∧ rest.head?.any (· ||| 0x20 == 0x65) then true
    else if name.length = 7 then equalFold name (ascii "upgrade")
    else if name.length = 10 then
      equalFold name (ascii "connection") || equalFold name (ascii "keep-alive")
    else if name.length = 16 then equalFold name (ascii "proxy-connection")
    else if name.length = 17 then equalFold name (ascii "transfer-encoding")
    else false

def interimStatus (status : Int) : Bool := 100 ≤ status && status < 200

/-- A `none` value means that the field was absent or nil; `seenPath` tells an absent
`:path` from a present one. -/
structure RequestPseudoHeaders where
  method : Option Bytes := none
  scheme : Option Bytes := none
  path : Option Bytes := none
  authority : Option Bytes := none
  seenPath : Bool := false

def scanRequestPseudoHeaders (ph : RequestPseudoHeaders) (seenRegular : Bool) :
    List HeaderField → Option RequestPseudoHeaders
  | [] => some ph
  | f :: fields => match f.name with
    | [] => none
    | c :: _ =>
      if c != 0x3a then scanRequestPseudoHeaders ph true fields
      else if seenRegular then none
      else if f.name == ascii ":method" then
        if ph.method.isSome then none
        else scanRequestPseudoHeaders { ph with method := f.value } seenRegular fields
      else if f.name == ascii ":scheme" then
        if ph.scheme.isSome then none
        else scanRequestPseudoHeaders { ph with scheme := f.value } seenRegular fields
      else if f.name == ascii ":path" then
        if ph.seenPath then none
        else scanRequestPseudoHeaders { ph with path := f.value, seenPath := true } seenRegular fields
      else if f.name == ascii ":authority" then
        if ph.authority.isSome then none
        else scanRequestPseudoHeaders { ph with authority := f.value } seenRegular fields
      else none

def validRequestPseudoHeaders (fields : List HeaderField) : Bool :=
  match scanRequestPseudoHeaders {} false fields with
  | none => false
  | some ph => match ph.method with
    | none => false
    | some method =>
      let scheme := ph.scheme.getD []
      let httpScheme := equalFold scheme (ascii "http") || equalFold scheme (ascii "https")
      if httpScheme && (ph.authority.getD []).contains 0x40 then false
      else if method == ascii "CONNECT" then true
      else if ph.scheme.isNone || !ph.seenPath then false
      else !httpScheme || 0 < (ph.path.getD []).length

end HttpFields

end PoseidonServer
