import PoseidonServer.Framing
import PoseidonServer.HttpFields

/-! Package `http3server` from the bytes of a finished request stream to a request:
`decodeRequest`, `decodeFields` and `buildRequest`. -/

namespace PoseidonServer.Http3

def maxRequestBytes : Nat := 2 ^ 20
def maxFieldSection : Nat := 2 ^ 16
def fieldLineOverhead : Nat := 32

def frameData : Nat := 0x00
def frameHeaders : Nat := 0x01
def frameCancelPush : Nat := 0x03
def frameSettings : Nat := 0x04
def framePushPromise : Nat := 0x05
def frameMaxPushID : Nat := 0x0d

/-- What the server takes from elsewhere: the QPACK decoder, which hands out field lines before
it may fail, and `url.ParseRequestURI`. -/
structure Env where
  decodeFieldSection : Bytes → List (Bytes × Bytes) × Option String
  parseRequestURI : Bytes → Bool

structure Frame where
  typ : Nat
  payload : Bytes
  deriving DecidableEq

/-- A variable-length integer of QUIC: the two high bits of the first octet give its size. -/
def varint : Bytes → Option (Nat × Bytes)
  | [] => none
  | b :: rest =>
    let n := 2 ^ (b.toNat / 64) - 1
    if rest.length < n then none
    else some ((rest.take n).foldl (fun v c => v * 256 + c.toNat) (b.toNat % 64), rest.drop n)

def parseFrameHeader (s : Bytes) : Option (Nat × Nat × Bytes) := do
  let (typ, s) ← varint s
  let (length, s) ← varint s
  pure (typ, length, s)

inductive ReadError
  | needMore | frameTooLarge
  deriving DecidableEq

/-- `FrameReader.ReadFrame` after `SetMaxFrameLen(max)`. -/
def readFrameUpTo (max : Nat) (s : Bytes) : Except ReadError (Frame × Bytes) :=
  match parseFrameHeader s with
  | none => .error .needMore
  | some (typ, length, rest) =>
    if length > max then .error .frameTooLarge
    else if rest.length < length then .error .needMore
    else .ok (⟨typ, rest.take length⟩, rest.drop length)

def readFrame (s : Bytes) : Except ReadError (Frame × Bytes) := readFrameUpTo maxRequestBytes s

theorem varint_shorter {s rest : Bytes} {v : Nat} (h : varint s = some (v, rest)) :
    rest.length < s.length := by
  cases s with
  | nil => cases h
  | cons b s =>
    simp only [varint] at h
    split at h
    · cases h
    · cases h
      simp only [List.length_drop, List.length_cons]
      omega

theorem parseFrameHeader_shorter {s rest : Bytes} {typ length : Nat}
    (h : parseFrameHeader s = some (typ, length, rest)) : rest.length < s.length := by
  obtain ⟨r₁, h₁, h⟩ := Option.bind_eq_some_iff.1 h
  obtain ⟨r₂, h₂, h⟩ := Option.bind_eq_some_iff.1 h
  cases h
  exact Nat.lt_trans (varint_shorter h₂) (varint_shorter h₁)

theorem readFrame_shorter {max : Nat} {s rest : Bytes} {f : Frame}
    (h : readFrameUpTo max s = .ok (f, rest)) : rest.length < s.length := by
  unfold readFrameUpTo at h
  split at h
  · cases h
  · rename_i typ length r hr
    split at h
    · cases h
    split at h <;> cases h
    have := parseFrameHeader_shorter hr
    simp only [List.length_drop]
    omega

def frameReaderUpTo (max : Nat) : Reader UInt8 Frame where
  next s := (readFrameUpTo max s).toOption
  shorter {s t rest} h := by
    cases hs : readFrameUpTo max s with
    | error e => simp [hs, Except.toOption] at h
    | ok r =>
      rw [hs] at h
      cases h
      exact readFrame_shorter hs

def frameReader : Reader UInt8 Frame := frameReaderUpTo maxRequestBytes

inductive H3Code
  | frameUnexpected | frameError | missingSettings | settingsError | excessiveLoad | idError
  | streamCreationError | closedCriticalStream
  deriving DecidableEq

structure ConnFrameError where
  typ : Nat := 0
  code : H3Code
  why : String
  typUnknown : Bool := false
  deriving DecidableEq

inductive RequestError
  | conn (e : ConnFrameError)
  | reader (e : ReadError)
  | qpack (msg : String)
  | fieldsTooLarge
  | incomplete
  | message
  deriving DecidableEq

def truncatedFrame (rest : Bytes) : RequestError :=
  let why := "was truncated by the clean end of the stream (RFC 9114 §7.1)"
  match parseFrameHeader rest with
  | none => .conn { code := .frameError, why := why, typUnknown := true }
  | some (typ, _) => .conn { typ := typ, code := .frameError, why := why }

def unexpected (typ : Nat) (why : String) : RequestError :=
  .conn { typ := typ, code := .frameUnexpected, why := why }

def appendCopy (b : Bytes) : Option Bytes := if b = [] then none else some b

def collectFields (size : Nat) : List (Bytes × Bytes) → Except RequestError (List HeaderField)
  | [] => .ok []
  | (name, value) :: lines =>
    let size := size + name.length + value.length + fieldLineOverhead
    if size > maxFieldSection then .error .fieldsTooLarge
    else match collectFields size lines with
      | .error e => .error e
      | .ok fields => .ok ({ name := name, value := appendCopy value } :: fields)

def decodeFields (env : Env) (fieldSection : Bytes) : Except RequestError (List HeaderField) :=
  let (lines, err) := env.decodeFieldSection fieldSection
  match collectFields 0 lines, err with
  | .error e, _ => .error e
  | .ok _, some msg => .error (.qpack msg)
  | .ok fields, none => .ok fields

structure Sequence where
  fields : List HeaderField := []
  body : Bytes := []
  seen : Bool := false
  trailers : Bool := false

/-- The types that are not permitted on a request stream, the reserved ones included. -/
def controlFrames : List Nat :=
  [frameSettings, frameCancelPush, frameMaxPushID, framePushPromise, 0x02, 0x06, 0x08, 0x09]

def onFrame (env : Env) (st : Sequence) (f : Frame) : Except RequestError Sequence :=
  if f.typ = frameHeaders then
    if st.trailers then
      .error (unexpected f.typ "arrived after the trailing HEADERS frame (RFC 9114 §4.1)")
    else if st.seen then .ok { st with trailers := true }
    else match decodeFields env f.payload with
      | .error e => .error e
      | .ok fields => .ok { st with seen := true, fields := fields }
  else if f.typ = frameData then
    if !st.seen || st.trailers then
      .error (unexpected f.typ "arrived outside the message content (RFC 9114 §4.1)")
    else .ok { st with body := st.body ++ f.payload }
  else if f.typ ∈ controlFrames then
    .error (unexpected f.typ "is not permitted on a request stream (RFC 9114 §7.2)")
  else .ok st

def onReadError (st : Sequence) (rest : Bytes) : Except RequestError (List HeaderField × Bytes) :=
  match readFrame rest with
  | .error .needMore =>
    if st.seen && 0 < rest.length then .error (truncatedFrame rest)
    else if !st.seen then .error .incomplete
    else .ok (st.fields, st.body)
  | .error e => .error (.reader e)
  | .ok _ => .ok (st.fields, st.body)

def decodeFrames (env : Env) (stream : Bytes) : Except RequestError (List HeaderField × Bytes) :=
  frameReader.process (onFrame env) onReadError (stream.length + 1) {} stream

def validHeaderFieldByte (c : UInt8) : Bool :=
  (0x61 ≤ c && c ≤ 0x7a) || (0x41 ≤ c && c ≤ 0x5a) || (0x30 ≤ c && c ≤ 0x39) ||
  c ∈ ascii "!#$%&*+-.^_|~" || c == 0x27 || c == 0x60

def canonicalKey (name : Bytes) : Bytes :=
  if name.all validHeaderFieldByte then go true name else name
where
  go (upper : Bool) : Bytes → Bytes
    | [] => []
    | c :: cs =>
      let c := if upper && 0x61 ≤ c && c ≤ 0x7a then c - 0x20
        else if !upper && 0x41 ≤ c && c ≤ 0x5a then c + 0x20 else c
      c :: go (c == 0x2d) cs

abbrev Header := List (Bytes × Bytes)

def Header.values (h : Header) (key : Bytes) : List Bytes := (h.filter (·.1 = key)).map (·.2)

def digit (c : UInt8) : Bool := 0x30 ≤ c && c ≤ 0x39

def decimal (v : Bytes) : Nat := v.foldl (fun n c => n * 10 + (c.toNat - 0x30)) 0

def parseUint63 (v : Bytes) : Option Nat := if decimal v < 2 ^ 63 then some (decimal v) else none

def checkContentLength (header : Header) (received : Nat) : Except RequestError Unit :=
  match header.values (ascii "Content-Length") with
  | [] => .ok ()
  | v :: vs =>
    if vs.any (· != v) then .error .message
    else if v = [] then .error .message
    else if v.any (!digit ·) then .error .message
    else if parseUint63 v ≠ some received then .error .message
    else .ok ()

structure Request where
  method : Bytes
  scheme : Bytes
  path : Bytes
  authority : Bytes
  header : Header
  body : Bytes
  deriving DecidableEq

def mapFields (req : Request) : List HeaderField → Except RequestError Request
  | [] => .ok req
  | f :: fields =>
    if f.name = ascii ":method" then mapFields { req with method := f.val } fields
    else if f.name = ascii ":scheme" then mapFields { req with scheme := f.val } fields
    else if f.name = ascii ":path" then mapFields { req with path := f.val } fields
    else if f.name = ascii ":authority" then mapFields { req with authority := f.val } fields
    else if f.name.head? = some 0x3a then .error .message
    else mapFields { req with header := req.header ++ [(canonicalKey f.name, f.val)] } fields

def buildRequest (env : Env) (fields : List HeaderField) (body : Bytes) :
    Except RequestError Request := do
  if fields.any fun f => HttpFields.prohibited f.name f.val false then .error .message
  else if !HttpFields.validRequestPseudoHeaders fields then .error .message
  else
    let req ← mapFields ⟨[], [], [], [], [], body⟩ fields
    if req.method = [] ∨ req.scheme = [] ∨ req.path = [] then .error .message
    else
      checkContentLength req.header body.length
      if env.parseRequestURI req.path then .ok req else .error .message

def decodeRequest (env : Env) (stream : Bytes) : Except RequestError Request := do
  let (fields, body) ← decodeFrames env stream
  buildRequest env fields body

end PoseidonServer.Http3
