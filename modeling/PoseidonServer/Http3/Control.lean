import PoseidonServer.Http3.Request

/-! The peer's unidirectional streams of an HTTP/3 connection: `serviceUni` and the control
stream, which comes in over any number of passes. -/

namespace PoseidonServer.Http3

def maxControlFrameLen : Nat := 2 ^ 16

def frameGoaway : Nat := 0x07

def streamTypeControl : Nat := 0x00
def streamTypePush : Nat := 0x01
def streamTypeQPACKEncoder : Nat := 0x02
def streamTypeQPACKDecoder : Nat := 0x03

def settingMaxFieldSectionSize : Nat := 0x06

/-- Why `http3.ParseSettings` refuses a payload: with `ErrH3Frame` or otherwise. -/
inductive SettingsError
  | frame | other
  deriving DecidableEq

abbrev ParseSettings := Bytes → Except SettingsError (List (Nat × Nat))

/-- `connState`; `stopped` are the streams that `StopSending` was called on. -/
structure ConnState where
  peerMaxFieldSection : Nat := maxFieldSection
  pendingUni : List (Nat × Bytes) := []
  control : Option Nat := none
  controlFrames : Bytes := []
  settingsRead : Bool := false
  maxPushID : Nat := 0
  goawayID : Nat := 0
  goawaySeen : Bool := false
  qpackEnc : Option Nat := none
  qpackDec : Option Nat := none
  stopped : List Nat := []
  deriving DecidableEq

/-- The connection after `connError`. Octets that are left in `controlFrames` are not kept. -/
structure Closed where
  code : H3Code
  state : ConnState
  deriving DecidableEq

def connError (cs : ConnState) (code : H3Code) : Except Closed ConnState := .error ⟨code, cs⟩

/-- What `Poll` brought in since the last pass: new streams, and for each stream what `Recv` and
`Finished` return. -/
structure Arrivals where
  newUni : List Nat
  recv : Nat → Bytes
  finished : Nat → Bool

def checkCriticalStreams (finished : Nat → Bool) (cs : ConnState) : Except Closed ConnState :=
  if [cs.control, cs.qpackEnc, cs.qpackDec].any (·.any finished) then
    connError cs .closedCriticalStream
  else .ok cs

def routeUni (cs : ConnState) (typ s : Nat) (rest : Bytes) : Except Closed ConnState :=
  if typ = streamTypeControl then
    if cs.control.isSome then connError cs .streamCreationError
    else .ok { cs with control := some s, controlFrames := cs.controlFrames ++ rest }
  else if typ = streamTypeQPACKEncoder then
    if cs.qpackEnc.isSome then connError cs .streamCreationError
    else .ok { cs with qpackEnc := some s }
  else if typ = streamTypeQPACKDecoder then
    if cs.qpackDec.isSome then connError cs .streamCreationError
    else .ok { cs with qpackDec := some s }
  else if typ = streamTypePush then connError cs .streamCreationError
  else .ok { cs with stopped := cs.stopped ++ [s] }

def identify (recv : Nat → Bytes) (cs : ConnState) (u : Nat × Bytes) : Except Closed ConnState :=
  let buf := u.2 ++ recv u.1
  match varint buf with
  | none => .ok { cs with pendingUni := cs.pendingUni ++ [(u.1, buf)] }
  | some (typ, rest) => routeUni cs typ u.1 rest

def applySettings (cs : ConnState) (settings : List (Nat × Nat)) : ConnState :=
  settings.foldl (fun cs st =>
    if st.1 = settingMaxFieldSectionSize then { cs with peerMaxFieldSection := st.2 } else cs) cs

def singleVarintPayload (payload : Bytes) : Option Nat :=
  match varint payload with
  | some (v, []) => some v
  | _ => none

def identifierFault (cs : ConnState) (typ : Nat) (payload : Bytes) : Except Closed ConnState :=
  match singleVarintPayload payload with
  | none => connError cs .frameError
  | some id =>
    if typ = frameCancelPush then connError cs .idError
    else if typ = frameMaxPushID then
      if id < cs.maxPushID then connError cs .idError else .ok { cs with maxPushID := id }
    else if typ = frameGoaway then
      if cs.goawaySeen && id > cs.goawayID then connError cs .idError
      else .ok { cs with goawayID := id, goawaySeen := true }
    else .ok cs

def onControlFrame (parse : ParseSettings) (cs : ConnState) (f : Frame) :
    Except Closed ConnState :=
  if !cs.settingsRead then
    if f.typ ≠ frameSettings then connError cs .missingSettings
    else match parse f.payload with
      | .error .frame => connError cs .frameError
      | .error .other => connError cs .settingsError
      | .ok settings => .ok { applySettings cs settings with settingsRead := true }
  else if f.typ = frameSettings then connError cs .frameUnexpected
  else if f.typ ∈ [frameData, frameHeaders, framePushPromise, 0x02, 0x06, 0x08, 0x09] then
    connError cs .frameUnexpected
  else if f.typ ∈ [frameCancelPush, frameMaxPushID, frameGoaway] then
    identifierFault cs f.typ f.payload
  else .ok cs

def controlReader : Reader UInt8 Frame := frameReaderUpTo maxControlFrameLen

def onControlReadError (cs : ConnState) (rest : Bytes) : Except Closed ConnState :=
  match readFrameUpTo maxControlFrameLen rest with
  | .error .frameTooLarge => connError cs .excessiveLoad
  | _ => .ok { cs with controlFrames := rest }

def readControlFrames (parse : ParseSettings) (cs : ConnState) (buf : Bytes) :
    Except Closed ConnState :=
  controlReader.process (onControlFrame parse) onControlReadError (buf.length + 1)
    { cs with controlFrames := [] } buf

def readControl (parse : ParseSettings) (recv : Nat → Bytes) (cs : ConnState) :
    Except Closed ConnState :=
  match cs.control with
  | none => .ok cs
  | some s => readControlFrames parse cs (cs.controlFrames ++ recv s)

/-- One pass. A stream that was pending has been drained before `readControl` comes to it. -/
def serviceUni (parse : ParseSettings) (cs : ConnState) (a : Arrivals) :
    Except Closed ConnState := do
  let pending := cs.pendingUni ++ a.newUni.map (·, [])
  let cs ← pending.foldlM (identify a.recv) { cs with pendingUni := [] }
  let cs ← readControl parse (fun s => if s ∈ pending.map (·.1) then [] else a.recv s) cs
  checkCriticalStreams a.finished cs

def servicePasses (parse : ParseSettings) (cs : ConnState) (as : List Arrivals) :
    Except Closed ConnState :=
  as.foldlM (serviceUni parse) cs

/-- The passes bring in `bytes` on the stream `s`, and its end with the last one if `fin`; the
streams `new` come in with the first pass, and no other stream ends. -/
inductive Delivers (s : Nat) : List Nat → Bytes → Bool → List Arrivals → Prop
  | last (a : Arrivals) : (∀ x, a.finished x = true → x = s) →
      Delivers s a.newUni (a.recv s) (a.finished s) [a]
  | more (a : Arrivals) : (∀ x, a.finished x = false) → Delivers s [] bytes fin as →
      Delivers s a.newUni (a.recv s ++ bytes) fin (a :: as)

structure ConnState.AwaitsControl (cs : ConnState) : Prop where
  pendingUni : cs.pendingUni = []
  control : cs.control = none
  controlFrames : cs.controlFrames = []
  settingsRead : cs.settingsRead = false
  maxPushID : cs.maxPushID = 0
  goawaySeen : cs.goawaySeen = false

def identifiers (typ : Nat) (fs : List Frame) : List Nat :=
  (fs.filter (·.typ = typ)).filterMap fun f => singleVarintPayload f.payload

def refusedTypes : List Nat :=
  [frameSettings, frameData, frameHeaders, framePushPromise, frameCancelPush, 0x02, 0x06, 0x08, 0x09]

structure Follows (fs : List Frame) : Prop where
  permitted : ∀ f ∈ fs, f.typ ∉ refusedTypes
  single : ∀ f ∈ fs, f.typ = frameMaxPushID ∨ f.typ = frameGoaway →
    ∃ id, varint f.payload = some (id, [])
  maxPushID : (identifiers frameMaxPushID fs).Pairwise (· ≤ ·)
  goaway : (identifiers frameGoaway fs).Pairwise (· ≥ ·)

def Sound (parse : ParseSettings) (fs : List Frame) : Prop :=
  fs = [] ∨ ∃ payload settings rest, fs = ⟨frameSettings, payload⟩ :: rest ∧
    parse payload = .ok settings ∧ Follows rest

section Stable

variable {s rest : Bytes} {v typ length max : Nat} {f : Frame}

theorem varint_append (h : varint s = some (v, rest)) (u : Bytes) :
    varint (s ++ u) = some (v, rest ++ u) := by
  cases s with
  | nil => cases h
  | cons b s =>
    simp only [varint, List.cons_append] at h ⊢
    split at h
    · cases h
    · rename_i hlen
      cases h
      have hle : 2 ^ (b.toNat / 64) - 1 ≤ s.length := by omega
      rw [if_neg (by simp only [List.length_append]; omega), List.take_append_of_le_length hle,
        List.drop_append_of_le_length hle]

theorem parseFrameHeader_append (h : parseFrameHeader s = some (typ, length, rest)) (u : Bytes) :
    parseFrameHeader (s ++ u) = some (typ, length, rest ++ u) := by
  obtain ⟨r₁, h₁, h⟩ := Option.bind_eq_some_iff.1 h
  obtain ⟨r₂, h₂, h⟩ := Option.bind_eq_some_iff.1 h
  cases h
  simp [parseFrameHeader, varint_append h₁, varint_append h₂]

theorem readFrameUpTo_append (h : readFrameUpTo max s = .ok (f, rest)) (u : Bytes) :
    readFrameUpTo max (s ++ u) = .ok (f, rest ++ u) := by
  unfold readFrameUpTo at h
  split at h
  · cases h
  · rename_i typ length r hr
    split at h
    · cases h
    split at h <;> cases h
    rename_i hmax hlen
    have hle : length ≤ r.length := by omega
    rw [readFrameUpTo, parseFrameHeader_append hr]
    simp only [hmax, if_false, List.length_append, show ¬ r.length + u.length < length by omega,
      List.take_append_of_le_length hle, List.drop_append_of_le_length hle]

theorem tooLarge_append (h : readFrameUpTo max s = .error .frameTooLarge) (u : Bytes) :
    readFrameUpTo max (s ++ u) = .error .frameTooLarge := by
  unfold readFrameUpTo at h
  split at h
  · cases h
  · rename_i hr
    split at h
    · rename_i hmax
      rw [readFrameUpTo, parseFrameHeader_append hr]
      exact if_pos hmax
    · split at h <;> cases h

theorem controlReader_next : controlReader.next s = some (f, rest) ↔
    readFrameUpTo maxControlFrameLen s = .ok (f, rest) := by
  cases hs : readFrameUpTo maxControlFrameLen s <;>
    simp [controlReader, frameReaderUpTo, hs, Except.toOption]

theorem controlReader_stable : controlReader.Stable := by
  intro s f rest h u
  exact controlReader_next.2 (readFrameUpTo_append (controlReader_next.1 h) u)

theorem cuts_tooLarge (h : readFrameUpTo maxControlFrameLen s = .error .frameTooLarge) :
    controlReader.Cuts s [] s := by
  refine .stop ?_
  simp [controlReader, frameReaderUpTo, h, Except.toOption]

end Stable

variable {parse : ParseSettings} {cs cs' : ConnState} {f : Frame} {fs : List Frame} {s : Nat}
  {buf rest : Bytes} {a : Arrivals}

theorem readControlFrames_eq (h : controlReader.Cuts buf fs rest) (cs : ConnState) :
    readControlFrames parse cs buf =
      fs.foldlM (onControlFrame parse) { cs with controlFrames := [] } >>=
        (onControlReadError · rest) :=
  h.process_eq _ _ (Nat.lt_succ_self _) _

structure Retains (cs cs' : ConnState) : Prop where
  pendingUni : cs'.pendingUni = cs.pendingUni
  control : cs'.control = cs.control
  controlFrames : cs'.controlFrames = cs.controlFrames
  qpackEnc : cs'.qpackEnc = cs.qpackEnc
  qpackDec : cs'.qpackDec = cs.qpackDec

theorem exists_applySettings (cs : ConnState) (settings : List (Nat × Nat)) :
    ∃ max, applySettings cs settings = { cs with peerMaxFieldSection := max } := by
  induction settings generalizing cs with
  | nil => exact ⟨cs.peerMaxFieldSection, rfl⟩
  | cons st settings ih =>
    rw [applySettings, List.foldl_cons]
    split
    · exact ih { cs with peerMaxFieldSection := st.2 }
    · exact ih cs

theorem identifierFault_retains {typ : Nat} {payload : Bytes}
    (h : identifierFault cs typ payload = .ok cs') : Retains cs cs' := by
  unfold identifierFault connError at h
  split at h
  · cases h
  · split_ifs at h <;> cases h <;> exact ⟨rfl, rfl, rfl, rfl, rfl⟩

theorem onControlFrame_retains (h : onControlFrame parse cs f = .ok cs') : Retains cs cs' := by
  unfold onControlFrame connError at h
  split at h
  · split_ifs at h
    split at h <;> cases h
    rename_i settings _
    obtain ⟨max, hmax⟩ := exists_applySettings cs settings
    rw [hmax]
    exact ⟨rfl, rfl, rfl, rfl, rfl⟩
  · split_ifs at h
    · exact identifierFault_retains h
    · cases h
      exact ⟨rfl, rfl, rfl, rfl, rfl⟩

theorem foldlM_retains (h : fs.foldlM (onControlFrame parse) cs = .ok cs') : Retains cs cs' := by
  induction fs generalizing cs with
  | nil =>
    cases h
    exact ⟨rfl, rfl, rfl, rfl, rfl⟩
  | cons f fs ih =>
    rw [List.foldlM_cons, except_bind_eq_ok] at h
    obtain ⟨cs₁, hf, h⟩ := h
    obtain ⟨h₁, h₂, h₃, h₄, h₅⟩ := onControlFrame_retains hf
    obtain ⟨k₁, k₂, k₃, k₄, k₅⟩ := ih h
    exact ⟨k₁.trans h₁, k₂.trans h₂, k₃.trans h₃, k₄.trans h₄, k₅.trans h₅⟩

/-- Reading what has come in and then more is reading it all. -/
theorem readControlFrames_append (cs : ConnState) (buf c : Bytes) :
    (readControlFrames parse cs buf >>= fun cs' =>
      readControlFrames parse cs' (cs'.controlFrames ++ c)) =
      readControlFrames parse cs (buf ++ c) := by
  obtain ⟨fs, rest, h⟩ := controlReader.exists_cuts buf
  rw [readControlFrames_eq h]
  by_cases hlarge : readFrameUpTo maxControlFrameLen rest = .error .frameTooLarge
  · have h' := h.append controlReader_stable (cuts_tooLarge (tooLarge_append hlarge c))
    rw [readControlFrames_eq h', List.append_nil, bind_assoc]
    refine bind_congr fun st => ?_
    simp only [onControlReadError, hlarge, tooLarge_append hlarge c]
    rfl
  · obtain ⟨fs', rest', h'⟩ := controlReader.exists_cuts (rest ++ c)
    rw [readControlFrames_eq (h.append controlReader_stable h'), List.foldlM_append, bind_assoc,
      bind_assoc]
    cases hst : fs.foldlM (onControlFrame parse) { cs with controlFrames := [] } with
    | error e => rfl
    | ok st =>
      have hst := (foldlM_retains hst).controlFrames
      have hrest : onControlReadError st rest = .ok { st with controlFrames := rest } := by
        unfold onControlReadError
        split
        · exact absurd ‹_› hlarge
        · rfl
      rw [except_ok_bind, hrest, except_ok_bind, except_ok_bind, readControlFrames_eq h']
      cases st
      cases hst
      rfl

section Passes

def progress (parse : ParseSettings) (cs : ConnState) (s : Nat) (b : Bytes) :
    Except Closed ConnState :=
  match varint b with
  | none => .ok { cs with pendingUni := [(s, b)] }
  | some (_, rest) => readControlFrames parse { cs with control := some s } rest

def OfControl (b : Bytes) : Prop := ∀ typ rest, varint b = some (typ, rest) → typ = streamTypeControl

variable {b c : Bytes}

theorem OfControl.of_append (h : OfControl (b ++ c)) : OfControl b := by
  intro typ rest hb
  exact h typ _ (varint_append hb c)

theorem serviceUni_pending (hcs : cs.AwaitsControl) (pending : List (Nat × Bytes))
    (hp : pending ++ a.newUni.map (·, []) = [(s, b)]) (hb : OfControl (b ++ a.recv s)) :
    serviceUni parse { cs with pendingUni := pending } a =
      progress parse cs s (b ++ a.recv s) >>= checkCriticalStreams a.finished := by
  obtain ⟨hpend, hctl, hframes, -, -, -⟩ := hcs
  simp only [serviceUni, hp, List.foldlM_cons, List.foldlM_nil, bind_pure, identify, progress]
  cases hv : varint (b ++ a.recv s) with
  | none => simp [readControl, hctl, bind, Except.bind]
  | some r =>
    obtain ⟨typ, rest⟩ := r
    cases hb typ rest hv
    cases cs
    cases hpend
    cases hctl
    cases hframes
    simp only [routeUni, readControl, bind, Except.bind, List.map_cons, List.map_nil,
      List.mem_singleton, if_true, List.append_nil, List.nil_append, Option.isSome_none,
      Bool.false_eq_true, if_false]
    rfl

theorem serviceUni_open (hp : cs.pendingUni = []) (hc : cs.control = some s) (ha : a.newUni = []) :
    serviceUni parse cs a =
      readControlFrames parse cs (cs.controlFrames ++ a.recv s) >>=
        checkCriticalStreams a.finished := by
  cases cs
  cases hp
  cases hc
  simp [serviceUni, ha, readControl]

theorem progress_open (hb : varint b = some (v, rest)) (h : progress parse cs s b = .ok cs') :
    cs'.pendingUni = cs.pendingUni ∧ cs'.control = some s ∧ cs'.qpackEnc = cs.qpackEnc ∧
      cs'.qpackDec = cs.qpackDec := by
  obtain ⟨fs, rest', hcut⟩ := controlReader.exists_cuts rest
  simp only [progress, hb] at h
  rw [readControlFrames_eq hcut, except_bind_eq_ok] at h
  obtain ⟨st, hst, h⟩ := h
  obtain ⟨h₁, h₂, -, h₄, h₅⟩ := foldlM_retains hst
  unfold onControlReadError connError at h
  split at h <;> cases h
  exact ⟨h₁, h₂, h₄, h₅⟩

theorem progress_append (hb : varint b = some (v, rest)) :
    (progress parse cs s b >>= fun cs' => readControlFrames parse cs' (cs'.controlFrames ++ c)) =
      progress parse cs s (b ++ c) := by
  simp only [progress, hb, varint_append hb]
  exact readControlFrames_append ..

theorem progress_error (h : progress parse cs s b = .error e) :
    progress parse cs s (b ++ c) = .error e := by
  cases hb : varint b with
  | none => simp [progress, hb] at h
  | some r =>
    rw [← progress_append hb, h]
    rfl

theorem serviceUni_progress (hcs : cs.AwaitsControl) (ha : a.newUni = [])
    (hb : OfControl (b ++ a.recv s)) (h : progress parse cs s b = .ok cs') :
    serviceUni parse cs' a =
      progress parse cs s (b ++ a.recv s) >>= checkCriticalStreams a.finished := by
  cases hv : varint b with
  | none =>
    simp only [progress, hv] at h
    cases h
    exact serviceUni_pending hcs _ (by simp [ha]) hb
  | some r =>
    obtain ⟨hp, hc, -⟩ := progress_open hv h
    rw [← progress_append hv, h, except_ok_bind]
    exact serviceUni_open (hp.trans hcs.pendingUni) hc ha

theorem checkCriticalStreams_open (h : ∀ x, a.finished x = false) (cs : ConnState) :
    checkCriticalStreams a.finished cs = .ok cs := by
  have h : a.finished = fun _ => false := funext h
  simp [checkCriticalStreams, h]

theorem checkCriticalStreams_control (hc : cs.control = some s)
    (h : ∀ x, a.finished x = true → x = s) : checkCriticalStreams a.finished cs =
      if a.finished s then connError cs .closedCriticalStream else .ok cs := by
  by_cases hs : a.finished s = true
  · simp [checkCriticalStreams, hc, hs]
  · have hall (x : Nat) : a.finished x = false := by
      rw [Bool.eq_false_iff]
      intro hx
      exact hs (h x hx ▸ hx)
    rw [checkCriticalStreams_open hall, if_neg hs]

/-- The verdict on the stream by its octets and its end alone. -/
def verdict (parse : ParseSettings) (cs : ConnState) (s : Nat) (bytes : Bytes) (fin : Bool) :
    Except Closed ConnState :=
  progress parse cs s bytes >>= fun cs' =>
    if fin then connError cs' .closedCriticalStream else .ok cs'

inductive Before (parse : ParseSettings) (cs : ConnState) (s : Nat) :
    List Nat → Bytes → ConnState → Prop
  | new : Before parse cs s [s] [] cs
  | on {b : Bytes} {cs' : ConnState} : progress parse cs s b = .ok cs' →
      Before parse cs s [] b cs'

theorem Before.pass {start : ConnState} (h : Before parse cs s a.newUni b start)
    (hcs : cs.AwaitsControl) (hb : OfControl (b ++ a.recv s)) :
    serviceUni parse start a =
      progress parse cs s (b ++ a.recv s) >>= checkCriticalStreams a.finished := by
  generalize ha : a.newUni = new at h
  cases h with
  | new =>
    rw [← serviceUni_pending hcs [] (by simp [ha]) hb, ← hcs.pendingUni]
  | on h => exact serviceUni_progress hcs ha hb h

theorem servicePasses_eq_verdict {new : List Nat} {bytes : Bytes} {fin : Bool}
    {as : List Arrivals} {start : ConnState} (hcs : cs.AwaitsControl)
    (hd : Delivers s new bytes fin as) (hstart : Before parse cs s new b start)
    (hb : varint (b ++ bytes) = some (streamTypeControl, rest)) :
    servicePasses parse start as = verdict parse cs s (b ++ bytes) fin := by
  have hof : OfControl (b ++ bytes) := by
    intro typ rest h
    rw [hb] at h
    cases h
    rfl
  induction hd generalizing b start with
  | last a hfin =>
    simp only [servicePasses, List.foldlM_cons, List.foldlM_nil, bind_pure, hstart.pass hcs hof,
      verdict]
    cases hp : progress parse cs s (b ++ a.recv s) with
    | error e => rfl
    | ok cs' => exact checkCriticalStreams_control (progress_open hb hp).2.1 hfin
  | more a hfin _ ih =>
    rw [← List.append_assoc] at hb hof ⊢
    rw [servicePasses, List.foldlM_cons, hstart.pass hcs hof.of_append, verdict]
    cases hp : progress parse cs s (b ++ a.recv s) with
    | error e =>
      rw [progress_error hp]
      rfl
    | ok cs' =>
      rw [except_ok_bind, checkCriticalStreams_open hfin]
      exact ih (.on hp) hb hof

end Passes

section Verdict

theorem singleVarintPayload_eq_some {payload : Bytes} {id : Nat} :
    singleVarintPayload payload = some id ↔ varint payload = some (id, []) := by
  unfold singleVarintPayload
  split <;> simp_all

theorem identifiers_cons (typ : Nat) (f : Frame) (fs : List Frame) : identifiers typ (f :: fs) =
    (if f.typ = typ then (singleVarintPayload f.payload).toList else []) ++ identifiers typ fs := by
  by_cases h : f.typ = typ
  · cases hid : singleVarintPayload f.payload <;> simp [identifiers, h, hid]
  · simp [identifiers, h]

theorem onControlFrame_refused (hs : cs.settingsRead = true) (hf : f.typ ∈ refusedTypes) :
    ∃ e, onControlFrame parse cs f = .error e := by
  simp only [refusedTypes, List.mem_cons, List.not_mem_nil, or_false] at hf
  obtain h | h | h | h | h | h | h | h | h := hf
  case inr.inr.inr.inr.inl =>
    cases hid : singleVarintPayload f.payload <;>
      simp [onControlFrame, identifierFault, connError, hs, h, hid, frameSettings, frameData,
        frameHeaders, framePushPromise, frameCancelPush]
  all_goals
    simp [onControlFrame, connError, hs, h, frameSettings, frameData, frameHeaders,
      framePushPromise]

theorem onControlFrame_maxPushID (hs : cs.settingsRead = true) (hf : f.typ = frameMaxPushID) :
    onControlFrame parse cs f = match singleVarintPayload f.payload with
      | none => connError cs .frameError
      | some id =>
        if id < cs.maxPushID then connError cs .idError else .ok { cs with maxPushID := id } := by
  simp [onControlFrame, identifierFault, hs, hf, frameMaxPushID, frameSettings, frameData,
    frameHeaders, framePushPromise, frameCancelPush]

theorem onControlFrame_goaway (hs : cs.settingsRead = true) (hf : f.typ = frameGoaway) :
    onControlFrame parse cs f = match singleVarintPayload f.payload with
      | none => connError cs .frameError
      | some id =>
        if cs.goawaySeen && id > cs.goawayID then connError cs .idError
        else .ok { cs with goawayID := id, goawaySeen := true } := by
  simp [onControlFrame, identifierFault, hs, hf, frameGoaway, frameMaxPushID, frameSettings,
    frameData, frameHeaders, framePushPromise, frameCancelPush]

theorem onControlFrame_ignored (hs : cs.settingsRead = true) (hf : f.typ ∉ refusedTypes)
    (hp : f.typ ≠ frameMaxPushID) (hg : f.typ ≠ frameGoaway) : onControlFrame parse cs f = .ok cs := by
  simp only [refusedTypes, List.mem_cons, List.not_mem_nil, or_false, not_or] at hf
  simp [onControlFrame, hs, hf, hp, hg]

def ConnState.lastGoaway (cs : ConnState) : List Nat := if cs.goawaySeen then [cs.goawayID] else []

/-- The frames `fs` are taken from the state `cs` on. -/
structure Admissible (cs : ConnState) (fs : List Frame) : Prop where
  permitted : ∀ f ∈ fs, f.typ ∉ refusedTypes
  single : ∀ f ∈ fs, f.typ = frameMaxPushID ∨ f.typ = frameGoaway →
    ∃ id, varint f.payload = some (id, [])
  maxPushID : (cs.maxPushID :: identifiers frameMaxPushID fs).IsChain (· ≤ ·)
  goaway : (cs.lastGoaway ++ identifiers frameGoaway fs).IsChain (· ≥ ·)

theorem admissible_maxPushID (hf : f.typ = frameMaxPushID) : Admissible cs (f :: fs) ↔
    ∃ id, singleVarintPayload f.payload = some id ∧ cs.maxPushID ≤ id ∧
      Admissible { cs with maxPushID := id } fs := by
  have hperm : f.typ ∉ refusedTypes := by rw [hf]; decide
  have hgo : frameMaxPushID ≠ frameGoaway := by decide
  simp only [singleVarintPayload_eq_some]
  constructor
  · rintro ⟨h₁, h₂, h₃, h₄⟩
    obtain ⟨id, hid⟩ := h₂ f (by simp) (.inl hf)
    rw [identifiers_cons, if_pos hf, singleVarintPayload_eq_some.2 hid] at h₃
    rw [identifiers_cons, if_neg (hf ▸ hgo), List.nil_append] at h₄
    obtain ⟨hle, h₃⟩ := List.isChain_cons_cons.1 h₃
    exact ⟨id, hid, hle, fun g hg => h₁ g (by simp [hg]), fun g hg => h₂ g (by simp [hg]), h₃, h₄⟩
  · rintro ⟨id, hid, hle, h₁, h₂, h₃, h₄⟩
    refine ⟨List.forall_mem_cons.2 ⟨hperm, h₁⟩, List.forall_mem_cons.2 ⟨fun _ => ⟨id, hid⟩, h₂⟩, ?_, ?_⟩
    · rw [identifiers_cons, if_pos hf, singleVarintPayload_eq_some.2 hid]
      exact List.isChain_cons_cons.2 ⟨hle, h₃⟩
    · rw [identifiers_cons, if_neg (hf ▸ hgo), List.nil_append]
      exact h₄

theorem isChain_lastGoaway {id : Nat} {ids : List Nat} :
    (cs.lastGoaway ++ id :: ids).IsChain (· ≥ ·) ↔
      (cs.goawaySeen = true → id ≤ cs.goawayID) ∧ (id :: ids).IsChain (· ≥ ·) := by
  cases h : cs.goawaySeen <;> simp [ConnState.lastGoaway, h]

theorem admissible_goaway (hf : f.typ = frameGoaway) : Admissible cs (f :: fs) ↔
    ∃ id, singleVarintPayload f.payload = some id ∧ (cs.goawaySeen = true → id ≤ cs.goawayID) ∧
      Admissible { cs with goawayID := id, goawaySeen := true } fs := by
  have hperm : f.typ ∉ refusedTypes := by rw [hf]; decide
  have hmax : frameGoaway ≠ frameMaxPushID := by decide
  simp only [singleVarintPayload_eq_some]
  constructor
  · rintro ⟨h₁, h₂, h₃, h₄⟩
    obtain ⟨id, hid⟩ := h₂ f (by simp) (.inr hf)
    rw [identifiers_cons, if_neg (hf ▸ hmax), List.nil_append] at h₃
    rw [identifiers_cons, if_pos hf, singleVarintPayload_eq_some.2 hid] at h₄
    obtain ⟨hle, h₄⟩ := isChain_lastGoaway.1 h₄
    exact ⟨id, hid, hle, fun g hg => h₁ g (by simp [hg]), fun g hg => h₂ g (by simp [hg]), h₃, h₄⟩
  · rintro ⟨id, hid, hle, h₁, h₂, h₃, h₄⟩
    refine ⟨List.forall_mem_cons.2 ⟨hperm, h₁⟩, List.forall_mem_cons.2 ⟨fun _ => ⟨id, hid⟩, h₂⟩, ?_, ?_⟩
    · rw [identifiers_cons, if_neg (hf ▸ hmax), List.nil_append]
      exact h₃
    · rw [identifiers_cons, if_pos hf, singleVarintPayload_eq_some.2 hid]
      exact isChain_lastGoaway.2 ⟨hle, h₄⟩

theorem admissible_ignored (hf : f.typ ∉ refusedTypes) (hp : f.typ ≠ frameMaxPushID)
    (hg : f.typ ≠ frameGoaway) : Admissible cs (f :: fs) ↔ Admissible cs fs := by
  constructor
  · rintro ⟨h₁, h₂, h₃, h₄⟩
    rw [identifiers_cons, if_neg hp, List.nil_append] at h₃
    rw [identifiers_cons, if_neg hg, List.nil_append] at h₄
    exact ⟨fun g hg => h₁ g (by simp [hg]), fun g hg => h₂ g (by simp [hg]), h₃, h₄⟩
  · rintro ⟨h₁, h₂, h₃, h₄⟩
    refine ⟨List.forall_mem_cons.2 ⟨hf, h₁⟩, List.forall_mem_cons.2 ⟨by simp [hp, hg], h₂⟩, ?_, ?_⟩
    · rw [identifiers_cons, if_neg hp, List.nil_append]
      exact h₃
    · rw [identifiers_cons, if_neg hg, List.nil_append]
      exact h₄

theorem foldlM_admissible (hs : cs.settingsRead = true) :
    (∃ cs', fs.foldlM (onControlFrame parse) cs = .ok cs') ↔ Admissible cs fs := by
  induction fs generalizing cs with
  | nil =>
    refine ⟨fun _ => ⟨by simp, by simp, by simp [identifiers], ?_⟩, fun _ => ⟨cs, rfl⟩⟩
    cases h : cs.goawaySeen <;> simp [ConnState.lastGoaway, identifiers, h]
  | cons f fs ih =>
    rw [List.foldlM_cons]
    by_cases hr : f.typ ∈ refusedTypes
    · obtain ⟨e, he⟩ : ∃ e, onControlFrame parse cs f = .error e := onControlFrame_refused hs hr
      rw [he]
      constructor
      · rintro ⟨_, h⟩
        cases h
      · intro h
        exact absurd hr (h.permitted f (by simp))
    by_cases hp : f.typ = frameMaxPushID
    · rw [onControlFrame_maxPushID hs hp, admissible_maxPushID hp]
      cases hid : singleVarintPayload f.payload with
      | none => simp [connError, bind, Except.bind]
      | some id =>
        by_cases hlt : id < cs.maxPushID
        · simp [connError, hlt, bind, Except.bind, Nat.not_le.2 hlt]
        · simp only [hlt, if_false, except_ok_bind, Option.some.injEq, exists_eq_left',
            Nat.not_lt.1 hlt, true_and]
          exact ih hs
    by_cases hg : f.typ = frameGoaway
    · rw [onControlFrame_goaway hs hg, admissible_goaway hg]
      cases hid : singleVarintPayload f.payload with
      | none => simp [connError, bind, Except.bind]
      | some id =>
        by_cases hlt : cs.goawaySeen = true ∧ id > cs.goawayID
        · simp [connError, hlt.1, hlt.2, bind, Except.bind, Nat.not_le.2 hlt.2]
        · have hle : cs.goawaySeen = true → id ≤ cs.goawayID := by
            intro hseen
            exact Nat.not_lt.1 fun h => hlt ⟨hseen, h⟩
          have hcond : (cs.goawaySeen && decide (id > cs.goawayID)) = false := by
            simpa using hle
          simp only [hcond, Bool.false_eq_true, if_false, except_ok_bind, Option.some.injEq,
            exists_eq_left', eq_true hle, true_and]
          exact ih hs
    · rw [onControlFrame_ignored hs hr hp hg, admissible_ignored hr hp hg]
      exact ih hs

theorem admissible_iff_follows (hp : cs.maxPushID = 0) (hg : cs.goawaySeen = false) :
    Admissible cs fs ↔ Follows fs := by
  have hpairs : (cs.maxPushID :: identifiers frameMaxPushID fs).IsChain (· ≤ ·) ↔
      (identifiers frameMaxPushID fs).Pairwise (· ≤ ·) := by
    simp [List.isChain_iff_pairwise, hp]
  have hgo : (cs.lastGoaway ++ identifiers frameGoaway fs).IsChain (· ≥ ·) ↔
      (identifiers frameGoaway fs).Pairwise (· ≥ ·) := by
    simp [ConnState.lastGoaway, hg, List.isChain_iff_pairwise]
  exact ⟨fun ⟨h₁, h₂, h₃, h₄⟩ => ⟨h₁, h₂, hpairs.1 h₃, hgo.1 h₄⟩,
    fun ⟨h₁, h₂, h₃, h₄⟩ => ⟨h₁, h₂, hpairs.2 h₃, hgo.2 h₄⟩⟩

theorem foldlM_sound (hs : cs.settingsRead = false) (hp : cs.maxPushID = 0)
    (hg : cs.goawaySeen = false) :
    (∃ cs', fs.foldlM (onControlFrame parse) cs = .ok cs') ↔ Sound parse fs := by
  cases fs with
  | nil => exact ⟨fun _ => .inl rfl, fun _ => ⟨cs, rfl⟩⟩
  | cons f fs =>
    obtain ⟨typ, payload⟩ := f
    rw [List.foldlM_cons]
    by_cases ht : typ = frameSettings
    · subst ht
      cases hpay : parse payload with
      | error e => cases e <;> simp [onControlFrame, connError, hs, hpay, Sound, bind, Except.bind]
      | ok settings =>
        obtain ⟨max, hmax⟩ := exists_applySettings cs settings
        simp only [onControlFrame, hs, Bool.not_false, if_true, ne_eq, not_true_eq_false, if_false,
          hpay, hmax, except_ok_bind]
        rw [foldlM_admissible rfl, admissible_iff_follows (by exact hp) (by exact hg)]
        simp [Sound, hpay]
    · simp [onControlFrame, connError, hs, ht, Sound, bind, Except.bind]

/-- No frame that begins in `rest` declares more than the cap. -/
def WithinCap (rest : Bytes) : Prop :=
  ∀ typ length payload, parseFrameHeader rest = some (typ, length, payload) →
    length ≤ maxControlFrameLen

theorem withinCap_iff :
    WithinCap rest ↔ readFrameUpTo maxControlFrameLen rest ≠ .error .frameTooLarge := by
  unfold readFrameUpTo WithinCap
  cases h : parseFrameHeader rest with
  | none => simp
  | some r =>
    obtain ⟨typ, length, payload⟩ := r
    by_cases hlen : length ≤ maxControlFrameLen
    · simp only [Option.some.injEq, Prod.mk.injEq, show ¬ length > maxControlFrameLen by omega,
        if_false, ne_eq]
      split <;> simp_all
    · simp only [Nat.not_le.1 hlen, if_true, ne_eq, not_true_eq_false, iff_false]
      intro h
      exact hlen (h typ length payload rfl)

theorem onControlReadError_ok :
    (∃ cs', onControlReadError cs rest = .ok cs') ↔ WithinCap rest := by
  rw [withinCap_iff]
  unfold onControlReadError connError
  split <;> simp_all

theorem verdict_ok (hcs : cs.AwaitsControl) {bytes : Bytes} {v : Nat}
    (hb : varint bytes = some (v, rest)) {fin : Bool} :
    (∃ cs', verdict parse cs s bytes fin = .ok cs') ↔ fin = false ∧
      ∃ fs tail, controlReader.Cuts rest fs tail ∧ WithinCap tail ∧ Sound parse fs := by
  obtain ⟨fs, tail, hcut⟩ := controlReader.exists_cuts rest
  have hsound : (∃ cs', fs.foldlM (onControlFrame parse)
      { cs with control := some s, controlFrames := [] } = .ok cs') ↔ Sound parse fs :=
    foldlM_sound hcs.settingsRead hcs.maxPushID hcs.goawaySeen
  have hfs : (∃ cs', progress parse cs s bytes = .ok cs') ↔ WithinCap tail ∧ Sound parse fs := by
    rw [← hsound]
    simp only [progress, hb, readControlFrames_eq hcut, except_bind_eq_ok]
    constructor
    · rintro ⟨cs', st, hst, h⟩
      exact ⟨onControlReadError_ok.1 ⟨cs', h⟩, st, hst⟩
    · rintro ⟨htail, st, hst⟩
      obtain ⟨cs', h⟩ : ∃ cs', onControlReadError st tail = .ok cs' := onControlReadError_ok.2 htail
      exact ⟨cs', st, hst, h⟩
  have hcuts : (∃ fs tail, controlReader.Cuts rest fs tail ∧ WithinCap tail ∧ Sound parse fs) ↔
      WithinCap tail ∧ Sound parse fs := by
    constructor
    · rintro ⟨fs', tail', hcut', h⟩
      obtain ⟨rfl, rfl⟩ := hcut'.unique hcut
      exact h
    · intro h
      exact ⟨fs, tail, hcut, h⟩
  rw [hcuts, ← hfs]
  cases fin <;> simp [verdict, except_bind_eq_ok, connError]

end Verdict

/-- However the octets of a control stream are spread over the passes, the connection is closed
with the same code or goes on in the same state; it goes on when the stream has not ended, the
complete frames on it are sound and no frame declares more than the cap. -/
theorem control_stream_verdict (parse : ParseSettings) {cs : ConnState} (hcs : cs.AwaitsControl)
    (s : Nat) {bytes rest : Bytes} (hb : varint bytes = some (streamTypeControl, rest)) (fin : Bool) :
    (∀ as as', Delivers s [s] bytes fin as → Delivers s [s] bytes fin as' →
      servicePasses parse cs as = servicePasses parse cs as') ∧
    ∀ as, Delivers s [s] bytes fin as → ((∃ cs', servicePasses parse cs as = .ok cs') ↔
      fin = false ∧ ∃ fs tail, controlReader.Cuts rest fs tail ∧ WithinCap tail ∧ Sound parse fs) := by
  have hverdict (as : List Arrivals) (has : Delivers s [s] bytes fin as) :
      servicePasses parse cs as = verdict parse cs s bytes fin :=
    servicePasses_eq_verdict hcs has .new hb
  constructor
  · intro as as' has has'
    rw [hverdict as has, hverdict as' has']
  · intro as has
    rw [hverdict as has]
    exact verdict_ok hcs hb

def dribbled : List Arrivals :=
  [⟨[2], fun _ => [0x40], fun _ => false⟩, ⟨[], fun _ => [0x00, 0x04, 0x00], fun _ => false⟩]

theorem dribbled_settings_survive : ∃ cs', servicePasses (fun _ => .ok []) {} dribbled = .ok cs' := by
  have hd : Delivers 2 [2] [0x40, 0x00, 0x04, 0x00] false dribbled :=
    .more ⟨[2], fun _ => [0x40], fun _ => false⟩ (fun _ => rfl)
      (.last ⟨[], fun _ => [0x00, 0x04, 0x00], fun _ => false⟩ (fun _ h => nomatch h))
  have hb : varint [0x40, 0x00, 0x04, 0x00] = some (streamTypeControl, [0x04, 0x00]) := rfl
  refine ((control_stream_verdict _ ⟨rfl, rfl, rfl, rfl, rfl, rfl⟩ 2 hb false).2 _ hd).2
    ⟨rfl, [⟨4, []⟩], [], ?_, ?_, ?_⟩
  · exact .item rfl (.stop rfl)
  · intro typ length payload h
    cases h
  · exact .inr ⟨[], [], [], rfl, rfl, by simp, by simp, .nil, .nil⟩

end PoseidonServer.Http3
