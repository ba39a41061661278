import PoseidonServer.HttpFields

/-! The data of package `conn`: settings and options, frames in and out, stream state. -/

namespace PoseidonServer.Conn

inductive ErrCode
  | noError | protocolError | internalError | flowControlError | settingsTimeout | streamClosed
  | frameSizeError | refusedStream | cancel | compressionError | connectError
  | enhanceYourCalm | inadequateSecurity | http11Required
  | other (n : Nat)
  deriving DecidableEq

inductive SettingID
  | headerTableSize | enablePush | maxConcurrentStreams | initialWindowSize | maxFrameSize
  | maxHeaderListSize
  | other (n : Nat)
  deriving DecidableEq

/-- The pairs of a SETTINGS frame, at most sixteen of them. -/
abbrev SettingsParams := List (SettingID × Nat)

def settingValue (s : SettingsParams) (id : SettingID) (dflt : Nat) : Nat :=
  match s.find? (·.1 = id) with
  | some p => p.2
  | none => dflt

def SettingID.known : SettingID → Bool
  | .other _ => false
  | _ => true

def setPeerSetting (params : SettingsParams) (id : SettingID) (val : Nat) : SettingsParams :=
  if !id.known then params
  else if params.any (·.1 = id) then replace params
  else if params.length < 16 then params ++ [(id, val)]
  else params
where
  replace : SettingsParams → SettingsParams
    | [] => []
    | p :: ps => if p.1 = id then (id, val) :: ps else p :: replace ps

def setPeerSettings (params s : SettingsParams) : SettingsParams :=
  s.foldl (fun ps p => setPeerSetting ps p.1 p.2) params

def connInitialRecvWindow : Nat := 65535
def recvWindowRefundThreshold : Nat := 32768
def maxWindow : Int := 2 ^ 31 - 1
def maxStreamID : Nat := 2 ^ 31 - 1
def noStreamLimit : Nat := 2 ^ 32 - 1
def defaultMaxHeaderBytes : Nat := 2 ^ 20
def defaultStreamEventBuffer : Nat := 8
def rapidResetFloor : Nat := 100
def maxAcceptQueueDepth : Nat := 1024
def fieldEntryOverhead : Nat := 32
def fieldLineOverhead : Nat := 9

/-- Go's conversion to `int32`. -/
def int32 (v : Int) : Int := (v + 2 ^ 31) % 2 ^ 32 - 2 ^ 31

theorem int32_of_range {v : Int} (h₁ : -2 ^ 31 ≤ v) (h₂ : v < 2 ^ 31) : int32 v = v := by
  unfold int32
  omega

structure AdvertisedSettings where
  headerTableSize : Nat := 0
  maxConcurrentStreams : Nat := 0
  initialWindowSize : Nat := 0
  maxFrameSize : Nat := 0
  maxHeaderListSize : Nat := 0

def AdvertisedSettings.defaulted (s : AdvertisedSettings) : AdvertisedSettings where
  headerTableSize := if s.headerTableSize = 0 then 4096 else s.headerTableSize
  maxConcurrentStreams := if s.maxConcurrentStreams = 0 then 100 else s.maxConcurrentStreams
  initialWindowSize := if s.initialWindowSize = 0 then 65535
    else if s.initialWindowSize > 2 ^ 31 - 1 then 2 ^ 31 - 1 else s.initialWindowSize
  maxFrameSize := if s.maxFrameSize < 16384 then 16384
    else if s.maxFrameSize > 16777215 then 16777215 else s.maxFrameSize
  maxHeaderListSize := s.maxHeaderListSize

structure ServerConnOptions where
  advertisedSettings : AdvertisedSettings := {}
  streamEventBuffer : Int := 0
  maxRapidResets : Int := 0
  connRecvWindow : Int := 0
  upgradedRequest : Option (List HeaderField) := none

namespace ServerConnOptions

variable (o : ServerConnOptions)

def acceptQueueDepth : Nat :=
  let n := o.advertisedSettings.maxConcurrentStreams
  if n = 0 || n > maxAcceptQueueDepth then maxAcceptQueueDepth else n

def defaulted : ServerConnOptions where
  advertisedSettings := o.advertisedSettings.defaulted
  streamEventBuffer := if o.streamEventBuffer ≤ 0 then defaultStreamEventBuffer
    else o.streamEventBuffer
  maxRapidResets := if o.maxRapidResets = 0 then
      max ((o.advertisedSettings.defaulted.maxConcurrentStreams : Int) * 4) rapidResetFloor
    else o.maxRapidResets
  connRecvWindow := o.connRecvWindow
  upgradedRequest := o.upgradedRequest

def rapidResetBudget : Int := if o.maxRapidResets < 0 then 0 else o.maxRapidResets

def effectiveConnRecvWindow : Int :=
  if o.connRecvWindow ≤ connInitialRecvWindow then connInitialRecvWindow
  else if o.connRecvWindow > maxWindow then maxWindow else o.connRecvWindow

def maxHeaderBytes : Nat :=
  if o.advertisedSettings.maxHeaderListSize ≤ 0 then defaultMaxHeaderBytes
  else o.advertisedSettings.maxHeaderListSize

def recvWindowSeed : Int :=
  if o.advertisedSettings.initialWindowSize ≤ 0 then connInitialRecvWindow
  else o.advertisedSettings.initialWindowSize

def eventBuf : Nat :=
  if o.streamEventBuffer ≤ 0 then defaultStreamEventBuffer else o.streamEventBuffer.toNat

end ServerConnOptions

def encodeAdvertised (a : AdvertisedSettings) : SettingsParams :=
  [(.headerTableSize, a.headerTableSize), (.enablePush, 0),
    (.maxConcurrentStreams, a.maxConcurrentStreams),
    (.initialWindowSize, a.initialWindowSize), (.maxFrameSize, a.maxFrameSize)] ++
  if a.maxHeaderListSize ≠ 0 then [(.maxHeaderListSize, a.maxHeaderListSize)] else []

structure Priority where
  streamDep : Nat
  exclusive : Bool
  weight : UInt8
  deriving DecidableEq

inductive FrameType
  | data | headers | priority | rstStream | settings | pushPromise | ping | goAway
  | windowUpdate | continuation | altSvc | origin
  | other (n : Nat)
  deriving DecidableEq

def undispatchedFrameType : FrameType → Bool
  | .other _ => true
  | _ => false

inductive CodecError
  | frameTooLarge | priorityWrongLength | rstWrongLength | pingWrongLength | windowWrongLength
  | settingsLength | settingsAck | shortRead
  | invalidStreamID | invalidPadding | zeroIncrement | protocolError
  | transport
  | other
  deriving DecidableEq

/-- What the codec hands to the reader: a frame with padding and priority octets stripped,
or the header of a frame it rejects. -/
inductive Inbound
  | data (id : Nat) (endStream : Bool) (length : Nat) (p : Bytes)
  | headers (id : Nat) (endStream endHeaders : Bool) (hb : Bytes) (prio : Option Priority)
  | priority (id : Nat)
  | rstStream (id : Nat) (code : ErrCode)
  | settings (ack : Bool) (params : SettingsParams)
  | pushPromise (id : Nat)
  | ping (ack : Bool) (payload : Bytes)
  | goAway
  | windowUpdate (id increment : Nat)
  | continuation (id : Nat) (endHeaders : Bool) (hb : Bytes)
  | altSvc (id : Nat)
  | origin (id : Nat)
  | unknown (ty id : Nat)
  | rejected (ty : FrameType) (id : Nat) (err : CodecError)
  deriving DecidableEq

namespace Inbound

def type : Inbound → FrameType
  | .data .. => .data
  | .headers .. => .headers
  | .priority _ => .priority
  | .rstStream .. => .rstStream
  | .settings .. => .settings
  | .pushPromise _ => .pushPromise
  | .ping .. => .ping
  | .goAway => .goAway
  | .windowUpdate .. => .windowUpdate
  | .continuation .. => .continuation
  | .altSvc _ => .altSvc
  | .origin _ => .origin
  | .unknown ty _ => .other ty
  | .rejected ty .. => ty

def streamID : Inbound → Nat
  | .data id .. | .headers id .. | .priority id | .rstStream id _ | .pushPromise id
  | .windowUpdate id _ | .continuation id .. | .altSvc id | .origin id | .unknown _ id
  | .rejected _ id _ => id
  | .settings .. | .ping .. | .goAway => 0

/-- What the codec promises of the frames it accepts: HEADERS, CONTINUATION, DATA and
RST_STREAM name a stream, a DATA payload is no longer than its frame, whose length has 24
bits, and a window increment is positive and has 31. -/
def WellFormed : Inbound → Prop
  | .data id _ length p => id ≠ 0 ∧ p.length ≤ length ∧ length < 2 ^ 24
  | .headers id .. | .continuation id .. | .rstStream id _ => id ≠ 0
  | .windowUpdate _ increment => 0 < increment ∧ increment < 2 ^ 31
  | .settings _ params => params.length ≤ 16 ∧ ∀ p ∈ params, p.2 < 2 ^ 32
  | _ => True

instance : DecidablePred WellFormed
  | .data .. => inferInstanceAs (Decidable (_ ∧ _ ∧ _))
  | .headers .. | .continuation .. | .rstStream .. => inferInstanceAs (Decidable (_ ≠ _))
  | .windowUpdate .. => inferInstanceAs (Decidable (_ ∧ _))
  | .settings _ params =>
    inferInstanceAs (Decidable (params.length ≤ 16 ∧ ∀ p ∈ params, p.2 < 2 ^ 32))
  | .priority _ | .pushPromise _ | .ping .. | .goAway | .altSvc _ | .origin _ | .unknown ..
  | .rejected .. => .isTrue trivial

end Inbound

inductive Outbound
  | headers (id : Nat) (fields : List HeaderField) (endStream : Bool) (prio : Option Priority)
  | data (id : Nat) (endStream : Bool) (p : Bytes)
  | rstStream (id : Nat) (code : ErrCode)
  | pushPromise (parent promised : Nat) (fields : List HeaderField)
  | settings (params : SettingsParams)
  | settingsAck
  | ping (ack : Bool) (payload : Bytes)
  | goAway (last : Nat) (code : ErrCode)
  | windowUpdate (id increment : Nat)
  deriving DecidableEq

inductive GoErr
  | connError (code : ErrCode) (msg : String)
  | codec (err : CodecError)
  | connClosed | streamClosed | headerBlockTooLarge
  | io | ctx
  | pushDisabled | pushAfterResponse | pushOnServerStream | pushMalformedPromise | pushRefused
  | peerGoAway
  deriving DecidableEq

def transportErr : GoErr → Bool
  | .codec .transport | .io | .ctx => true
  | _ => false

def codecErrCode (err : GoErr) : Option ErrCode :=
  if transportErr err then none
  else match err with
    | .codec .frameTooLarge | .codec .priorityWrongLength | .codec .rstWrongLength
    | .codec .pingWrongLength | .codec .windowWrongLength | .codec .settingsLength
    | .codec .settingsAck | .codec .shortRead => some .frameSizeError
    | _ => some .protocolError

/-- The five bits of a stream's state word. -/
structure StreamState where
  recvFields : Bool := false
  recvEnded : Bool := false
  sentFields : Bool := false
  sentEnded : Bool := false
  reset : Bool := false
  deriving DecidableEq

namespace StreamState

def terminal (s : StreamState) : Bool := s.reset || (s.recvEnded && s.sentEnded)

def writable (s : StreamState) : Bool := !(s.reset || s.sentEnded)

def union (s delta : StreamState) : StreamState where
  recvFields := s.recvFields || delta.recvFields
  recvEnded := s.recvEnded || delta.recvEnded
  sentFields := s.sentFields || delta.sentFields
  sentEnded := s.sentEnded || delta.sentEnded
  reset := s.reset || delta.reset

end StreamState

inductive StreamEvent
  | headers (fields : List HeaderField) (endStream : Bool)
  | data (p : Bytes) (endStream : Bool)
  | trailers (fields : List HeaderField) (endStream : Bool)
  | reset (code : ErrCode)
  deriving DecidableEq

def StreamEvent.octets : StreamEvent → Nat
  | .data p _ => p.length
  | _ => 0

def StreamEvent.endStream : StreamEvent → Bool
  | .headers _ e | .data _ e | .trailers _ e => e
  | .reset _ => true

def StreamEvent.isReset : StreamEvent → Bool
  | .reset _ => true
  | _ => false

def fieldsFitFrame (fields : List HeaderField) (limit : Int) : Bool :=
  go 0 fields
where
  go (total : Int) : List HeaderField → Bool
    | [] => true
    | f :: fs =>
      let total := total + f.name.length + f.val.length + fieldLineOverhead
      if total > limit then false else go total fs

def validatePeerSettings : SettingsParams → Except GoErr Unit
  | [] => .ok ()
  | (.enablePush, v) :: s =>
    if v > 1 then .error (.connError .protocolError "SETTINGS_ENABLE_PUSH must be 0 or 1")
    else validatePeerSettings s
  | (.initialWindowSize, v) :: s =>
    if (v : Int) > maxWindow then
      .error (.connError .flowControlError "SETTINGS_INITIAL_WINDOW_SIZE exceeds 2^31-1")
    else validatePeerSettings s
  | (.maxFrameSize, v) :: s =>
    if v < 16384 || v > 16777215 then
      .error (.connError .protocolError "SETTINGS_MAX_FRAME_SIZE out of range [16384, 16777215]")
    else validatePeerSettings s
  | _ :: s => validatePeerSettings s

def addWindowSaturating (win : Int) (n : Nat) : Int :=
  if win + n > maxWindow then maxWindow else int32 (win + n)

def status431Fields : List HeaderField := [{ name := ascii ":status", value := some (ascii "431") }]

theorem settingValue_replace (ps : SettingsParams) (id id' : SettingID) (v d : Nat) :
    settingValue (setPeerSetting.replace id v ps) id' d = settingValue ps id' d ∨
      id = id' ∧ settingValue (setPeerSetting.replace id v ps) id' d = v := by
  induction ps with
  | nil => exact .inl rfl
  | cons p ps ih =>
    by_cases hp : p.1 = id
    · by_cases hid : id = id' <;> simp [setPeerSetting.replace, settingValue, hp, hid]
    · by_cases hid : p.1 = id'
      · rw [setPeerSetting.replace, if_neg hp]
        exact .inl (by simp [settingValue, hid])
      · simpa [setPeerSetting.replace, settingValue, hp, hid] using ih

theorem settingValue_setPeerSetting (ps : SettingsParams) (id id' : SettingID) (v d : Nat) :
    settingValue (setPeerSetting ps id v) id' d = settingValue ps id' d ∨
      id = id' ∧ settingValue (setPeerSetting ps id v) id' d = v := by
  unfold setPeerSetting
  split
  · exact .inl rfl
  split
  · exact settingValue_replace ps id id' v d
  split
  · cases hfind : ps.find? (·.1 = id') with
    | some p => exact .inl (by simp [settingValue, List.find?_append, hfind])
    | none =>
      by_cases hid : id = id' <;> simp [settingValue, List.find?_append, hfind, hid]
  · exact .inl rfl

theorem settingValue_setPeerSettings {P : Nat → Prop} {ps s : SettingsParams} {id : SettingID}
    {d : Nat} (h : P (settingValue ps id d)) (hs : ∀ p ∈ s, p.1 = id → P p.2) :
    P (settingValue (setPeerSettings ps s) id d) := by
  induction s generalizing ps with
  | nil => exact h
  | cons p s ih =>
    refine ih ?_ fun q hq => hs q (List.mem_cons_of_mem _ hq)
    obtain hv | ⟨hid, hv⟩ := settingValue_setPeerSetting ps p.1 id p.2 d
    · rwa [hv]
    · rw [hv]
      exact hs p (List.mem_cons_self ..) hid

theorem validatePeerSettings_ok {s : SettingsParams} (h : validatePeerSettings s = .ok ()) :
    ∀ p ∈ s, (p.1 = .maxFrameSize → 16384 ≤ p.2) ∧
      (p.1 = .initialWindowSize → (p.2 : Int) ≤ maxWindow) := by
  fun_induction validatePeerSettings s with
  | case1 => simp
  | case2 | case4 | case6 => cases h
  | case3 v s hv ih | case5 v s hv ih | case7 v s hv ih =>
    refine List.forall_mem_cons.2 ⟨?_, ih h⟩
    simp_all
  | case8 p s _ _ _ ih =>
    refine List.forall_mem_cons.2 ⟨?_, ih h⟩
    obtain ⟨id, v⟩ := p
    cases id <;> simp_all

end PoseidonServer.Conn
