import PoseidonServer.Http3.Request
import PoseidonServer.Server.Response

/-! The middlewares that add fields to a response, `SecurityHeaders` and `RequestID`, around a handler
and under `dispatchAndClose`. -/

namespace PoseidonServer.Middleware.Inject

open HttpFields Server
open Http3 (canonicalKey)

structure Injected where
  name : Bytes
  value : Bytes
  deriving DecidableEq

structure SecurityHeadersConfig where
  hstsMaxAge : Int := 31536000
  hstsIncludeSubDomains : Bool := true
  hstsPreload : Bool := false
  frameOptions : Bytes := ascii "DENY"
  referrerPolicy : Bytes := ascii "no-referrer"
  contentTypeNosniff : Bool := true
  contentSecurityPolicy : Bytes := []

def hstsValue (cfg : SecurityHeadersConfig) : Bytes :=
  ascii "max-age=" ++ ascii (toString cfg.hstsMaxAge) ++
    (if cfg.hstsIncludeSubDomains then ascii "; includeSubDomains" else []) ++
    (if cfg.hstsPreload then ascii "; preload" else [])

def buildSecurityHeaders (cfg : SecurityHeadersConfig) : List Injected :=
  (if 0 < cfg.hstsMaxAge then [⟨ascii "strict-transport-security", hstsValue cfg⟩] else []) ++
  (if cfg.contentTypeNosniff then [⟨ascii "x-content-type-options", ascii "nosniff"⟩] else []) ++
  (if cfg.frameOptions ≠ [] then [⟨ascii "x-frame-options", cfg.frameOptions⟩] else []) ++
  (if cfg.referrerPolicy ≠ [] then [⟨ascii "referrer-policy", cfg.referrerPolicy⟩] else []) ++
  (if cfg.contentSecurityPolicy ≠ [] then
    [⟨ascii "content-security-policy", cfg.contentSecurityPolicy⟩] else [])

def requestIDName : Bytes := ascii "x-request-id"

/-- The id that `RequestID` takes from the request or generates. -/
def requestID (headers : List HeaderField) (generated : Bytes) : Bytes :=
  let id := ((headers.find? (·.name = requestIDName)).map (·.val)).getD []
  if id = [] then generated else id

def fieldPresent (headers : List HeaderField) (name : Bytes) : Bool := headers.any (·.name == name)

abbrev Wrapper := List Injected

def securityResponseWriter (cfg : SecurityHeadersConfig) : Wrapper := buildSecurityHeaders cfg

def requestIDResponseWriter (id : Bytes) : Wrapper := [⟨requestIDName, id⟩]

def Injected.field (e : Injected) : HeaderField := { name := e.name, value := some e.value }

/-- The fields that `WriteHeaders` of a wrapper passes on. -/
def merge (wr : Wrapper) (headers : List HeaderField) : List HeaderField :=
  headers ++ (wr.filter fun e => !fieldPresent headers e.name).map Injected.field

def setMissing (h : HeaderMap) (e : Injected) : HeaderMap :=
  if h.get (canonicalKey e.name) = [] then h.set (canonicalKey e.name) e.value else h

abbrev Wrappers := List Wrapper

namespace Wrappers

variable (lib : Lib)

def writeHeaders : Wrappers → ResponseWriter → Int → List HeaderField → ResponseWriter × Bool
  | [], w, status, headers => w.writeHeaders lib status headers
  | wr :: ws, w, status, headers =>
    writeHeaders ws w status (if w.written then headers else merge wr headers)

def writeData : Wrappers → ResponseWriter → Bytes → ResponseWriter × Bool
  | [], w, p => w.writeData lib p
  | wr :: ws, w, p =>
    let (w, ok) := if w.written then (w, true) else writeHeaders lib (wr :: ws) w 200 []
    if ok then writeData ws w p else (w, false)

def writeHeader : Wrappers → ResponseWriter → Int → ResponseWriter
  | [], w, status => w.writeHeader lib status
  | wr :: ws, w, status =>
    writeHeader ws (if w.written then w else { w with headers := wr.foldl setMissing w.headers }) status

def write : Wrappers → ResponseWriter → Bytes → ResponseWriter × Bool
  | [], w, p => w.write lib p
  | wr :: ws, w, p => write ws (if w.written then w else writeHeader lib (wr :: ws) w 200) p

end Wrappers

inductive Act
  | assign (key : Bytes) (values : List Bytes)
  | remove (key : Bytes)
  | writeHeaders (status : Int) (headers : List HeaderField)
  | writeData (p : Bytes)
  | writeHeader (status : Int)
  | write (p : Bytes)
  | writeTrailers (trailers : List HeaderField)

inductive Outcome
  | returns | fails | panics
  deriving DecidableEq

structure Handler where
  acts : List Act
  outcome : Outcome := .returns

def Act.run (lib : Lib) (ws : Wrappers) (w : ResponseWriter) : Act → ResponseWriter
  | .assign key values => { w with headers := (key, values) :: w.headers.del key }
  | .remove key => { w with headers := w.headers.del key }
  | .writeHeaders status headers => (ws.writeHeaders lib w status headers).1
  | .writeData p => (ws.writeData lib w p).1
  | .writeHeader status => ws.writeHeader lib w status
  | .write p => (ws.write lib w p).1
  | .writeTrailers trailers => (w.writeTrailers trailers).1

/-- `dispatchAndClose`: what it writes itself goes to the writer without wrappers. -/
def dispatchAndClose (lib : Lib) (ws : Wrappers) (head : Bool) (h : Handler) : ResponseWriter :=
  let w := h.acts.foldl (Act.run lib ws) { head }
  match h.outcome with
  | .panics => if w.written then w else ((w.writeHeaders lib 500 []).1.writeTrailers []).1
  | .fails => ((if w.written then w else (w.writeHeaders lib 500 []).1).writeTrailers []).1
  | .returns => ((if w.written then w else (w.writeHeaders lib 200 []).1).writeTrailers []).1

def finalSection (w : ResponseWriter) : Option (List HeaderField) :=
  w.sent.findSome? fun
    | .headers fields false => some fields
    | _ => none

def valuesOf (name : Bytes) (fields : List HeaderField) : List Bytes :=
  (fields.filter (lowerASCII ·.name = name)).map (·.val)

/-- With what the handler writes the final header section: the fields of a native call, or the header
map. -/
inductive Commit
  | native (headers : List HeaderField)
  | stdlib (h : HeaderMap)

def commit (ws : Wrappers) (h : HeaderMap) : List Act → Option Commit
  | [] => none
  | .assign key values :: acts => commit ws ((key, values) :: h.del key) acts
  | .remove key :: acts => commit ws (h.del key) acts
  | .writeHeaders status headers :: acts =>
    if interimStatus status then commit ws h acts else some (.native headers)
  | .writeData _ :: _ => some (.native [])
  | .writeHeader status :: acts =>
    -- the wrappers add their fields to the map before the writer declines the status
    if interimStatus status then commit ws (ws.flatten.foldl setMissing h) acts else some (.stdlib h)
  | .write _ :: _ => some (.stdlib h)
  | .writeTrailers _ :: _ => none

def Commit.supplied (lib : Lib) (name : Bytes) : Commit → List Bytes
  | .native headers => valuesOf name headers
  | .stdlib h => valuesOf name (h.fields lib.toLower)

/-- The handler's own value if it supplies one that is not empty, and the configured one otherwise. -/
def expected (e : Injected) (supplied : List Bytes) : Bytes :=
  (supplied.find? (· ≠ [])).getD e.value

/-- The section has the name once, with the value it should have. -/
def InjectedOnce (lib : Lib) (cm : Option Commit) (fields : List HeaderField) (e : Injected) : Prop :=
  valuesOf e.name fields = [expected e ((cm.map (·.supplied lib e.name)).getD [])]

/-- What the handler supplies for a name is nothing, or one value in the form that the wrappers look
for: natively under the name in lower case, in the header map under the canonical key. -/
def Commit.Clean (lib : Lib) (e : Injected) : Commit → Prop
  | .native headers => valuesOf e.name headers = [] ∨
      ∃ f, headers.filter (lowerASCII ·.name = e.name) = [f] ∧ f.name = e.name ∧ f.val ≠ []
  | .stdlib h =>
    (∀ p ∈ h, lowerASCII (lib.toLower p.1) = e.name → p.1 ≠ canonicalKey e.name → p.2 = []) ∧
    ((∃ v, h.values (canonicalKey e.name) = [v] ∧ v ≠ []) ∨
      h.get (canonicalKey e.name) = [] ∧ expected e (h.values (canonicalKey e.name)) = e.value)

/-- What the names of the configured fields have in common. -/
structure Injected.Plain (e : Injected) : Prop where
  lower : lowerASCII e.name = e.name
  key : ∀ lib : Lib, lib.toLower (canonicalKey e.name) = e.name
  status : e.name ≠ ascii ":status"
  date : e.name ≠ ascii "date"
  kept : ∀ name, lowerASCII name = e.name → prohibitedInResponse name = false
  value : e.value ≠ []

/-! Whatever is called, a writer only adds to what it has sent. -/

structure Extends (w w' : ResponseWriter) : Prop where
  sent : ∃ new, w'.sent = w.sent ++ new ∧ (w.ended = true → new = [])
  written : w.written = true → w'.written = true

section Extends

variable {lib : Lib} {ws : Wrappers} {w w' w'' : ResponseWriter} {status : Int}
  {headers : List HeaderField} {p : Bytes}

theorem Extends.of_eq (hsent : w'.sent = w.sent) (hwritten : w.written = true → w'.written = true) :
    Extends w w' := ⟨⟨[], by simp [hsent], fun _ => rfl⟩, hwritten⟩

theorem Extends.refl (w : ResponseWriter) : Extends w w := .of_eq rfl id

theorem ended_congr (h : w'.sent = w.sent) : w'.ended = w.ended := by
  rw [ResponseWriter.ended, ResponseWriter.ended, h]

theorem Extends.trans (h : Extends w w') (h' : Extends w' w'') : Extends w w'' := by
  obtain ⟨⟨new, hnew, hend⟩, hw⟩ := h
  obtain ⟨⟨new', hnew', hend'⟩, hw'⟩ := h'
  refine ⟨⟨new ++ new', by rw [hnew', hnew, List.append_assoc], fun he => ?_⟩, fun h => hw' (hw h)⟩
  have hnil := hend he
  rw [hnil, List.append_nil] at hnew
  rw [hnil, hend' ((ended_congr hnew).trans he), List.append_nil]

theorem extends_send (s : Sent) : Extends w (w.send s).1 := by
  unfold ResponseWriter.send
  split
  · exact .refl w
  · rename_i he
    exact ⟨⟨[s], rfl, fun h => absurd h he⟩, id⟩

theorem extends_base_writeHeaders : Extends w (w.writeHeaders lib status headers).1 := by
  unfold ResponseWriter.writeHeaders
  split
  · exact .refl w
  · have hset : Extends w { w with status, written := true } := .of_eq rfl fun _ => rfl
    exact hset.trans (extends_send _)

theorem extends_base_writeHeader : Extends w (w.writeHeader lib status) := by
  unfold ResponseWriter.writeHeader
  split
  · exact .refl w
  · have hset : Extends w { w with status, written := true } := .of_eq rfl fun _ => rfl
    exact hset.trans (extends_send _)

theorem extends_body (r : ResponseWriter × Bool) : Extends r.1
    (if !r.2 then (r.1, false) else if r.1.suppressContent then (r.1, true)
      else r.1.send (.data p)).1 := by
  split
  · exact .refl _
  split
  · exact .refl _
  · exact extends_send _

theorem extends_base_writeData_head :
    Extends (if w.written then (w, true) else w.writeHeaders lib 200 []).1 (w.writeData lib p).1 :=
  extends_body _

theorem extends_base_writeData : Extends w (w.writeData lib p).1 := by
  refine .trans ?_ extends_base_writeData_head
  split
  · exact .refl w
  · exact extends_base_writeHeaders

theorem extends_base_write_head :
    Extends (if w.written then w else w.writeHeader lib 200) (w.write lib p).1 :=
  extends_body (_, true)

theorem extends_base_write : Extends w (w.write lib p).1 := by
  refine .trans ?_ extends_base_write_head
  split
  · exact .refl w
  · exact extends_base_writeHeader

theorem extends_writeHeaders : Extends w (ws.writeHeaders lib w status headers).1 := by
  induction ws generalizing headers with
  | nil => exact extends_base_writeHeaders
  | cons wr ws ih => exact ih

theorem extends_writeHeader : Extends w (ws.writeHeader lib w status) := by
  induction ws generalizing w with
  | nil => exact extends_base_writeHeader
  | cons wr ws ih =>
    refine .trans ?_ ih
    split
    · exact .refl w
    · exact .of_eq rfl id

theorem extends_writeData_cons {wr : Wrapper} (ih : ∀ {w}, Extends w (ws.writeData lib w p).1) :
    Extends (if w.written then (w, true) else Wrappers.writeHeaders lib (wr :: ws) w 200 []).1
      (Wrappers.writeData lib (wr :: ws) w p).1 := by
  have hrest (r : ResponseWriter × Bool) :
      Extends r.1 (if r.2 then ws.writeData lib r.1 p else (r.1, false)).1 := by
    split
    · exact ih
    · exact .refl _
  exact hrest _

theorem extends_writeData : Extends w (ws.writeData lib w p).1 := by
  induction ws generalizing w with
  | nil => exact extends_base_writeData
  | cons wr ws ih =>
    refine .trans ?_ (extends_writeData_cons ih)
    split
    · exact .refl w
    · exact extends_writeHeaders

theorem extends_write : Extends w (ws.write lib w p).1 := by
  induction ws generalizing w with
  | nil => exact extends_base_write
  | cons wr ws ih =>
    refine .trans ?_ ih
    split
    · exact .refl w
    · exact extends_writeHeader

theorem extends_run (a : Act) : Extends w (a.run lib ws w) := by
  cases a with
  | assign | remove => exact .of_eq rfl id
  | writeHeaders => exact extends_writeHeaders
  | writeData => exact extends_writeData
  | writeHeader => exact extends_writeHeader
  | write => exact extends_write
  | writeTrailers => exact extends_send _

theorem extends_runs (acts : List Act) : Extends w (acts.foldl (Act.run lib ws) w) := by
  induction acts generalizing w with
  | nil => exact .refl w
  | cons a acts ih => exact (extends_run a).trans ih

theorem extends_dispatch (head : Bool) (h : Handler) :
    Extends (h.acts.foldl (Act.run lib ws) { head }) (dispatchAndClose lib ws head h) := by
  unfold dispatchAndClose
  cases h.outcome with
  | panics =>
    dsimp only
    split
    · exact .refl _
    · exact extends_base_writeHeaders.trans (extends_send _)
  | fails | returns =>
    refine .trans ?_ (extends_send _)
    split
    · exact .refl _
    · exact extends_base_writeHeaders

theorem Extends.finalSection {fields : List HeaderField} (h : Extends w w')
    (hw : finalSection w = some fields) : finalSection w' = some fields := by
  obtain ⟨new, hnew, -⟩ := h.sent
  rw [Inject.finalSection, hnew, List.findSome?_append]
  rw [Inject.finalSection] at hw
  rw [hw]
  rfl

theorem Extends.sent_eq (h : Extends w w') (he : w.ended = true) : w'.sent = w.sent := by
  obtain ⟨new, hnew, hend⟩ := h.sent
  rw [hnew, hend he, List.append_nil]

end Extends

/-! What the writers put on the wire for the first final call. -/

section Commit

variable {lib : Lib} {ws : Wrappers} {w : ResponseWriter} {status : Int} {headers : List HeaderField}
  {p : Bytes} {h : HeaderMap}

def mergeAll (ws : Wrappers) (headers : List HeaderField) : List HeaderField :=
  ws.foldl (fun headers wr => merge wr headers) headers

def setAll (ws : Wrappers) (h : HeaderMap) : HeaderMap := ws.flatten.foldl setMissing h

def Commit.fields (lib : Lib) (ws : Wrappers) (status : Int) : Commit → List HeaderField
  | .native headers => ResponseWriter.nativeSection lib status (mergeAll ws headers)
  | .stdlib h => ResponseWriter.headerSection lib status (setAll ws h)

theorem writeHeaders_unwritten (hw : w.written = false) :
    ws.writeHeaders lib w status headers = w.writeHeaders lib status (mergeAll ws headers) := by
  induction ws generalizing headers with
  | nil => rfl
  | cons wr ws ih =>
    rw [Wrappers.writeHeaders, hw, ih]
    rfl

theorem writeHeader_unwritten (hw : w.written = false) :
    ws.writeHeader lib w status = { w with headers := setAll ws w.headers }.writeHeader lib status := by
  induction ws generalizing w with
  | nil => rfl
  | cons wr ws ih =>
    have hne : ¬w.written = true := by simp [hw]
    rw [Wrappers.writeHeader, if_neg hne, ih (w := { w with headers := wr.foldl setMissing w.headers }) hw,
      setAll, setAll, List.flatten_cons, List.foldl_append]

def blank (head : Bool) (h : HeaderMap) : ResponseWriter := { head, headers := h }

variable {head : Bool}

theorem extends_writeData_head (hw : w.written = false) :
    Extends (ws.writeHeaders lib w 200 []).1 (ws.writeData lib w p).1 := by
  cases ws with
  | nil =>
    refine .trans ?_ extends_base_writeData_head
    rw [if_neg (by simp [hw])]
    exact .refl _
  | cons wr ws =>
    refine .trans ?_ (extends_writeData_cons extends_writeData)
    rw [if_neg (by simp [hw])]
    exact .refl _

theorem extends_write_head (hw : w.written = false) :
    Extends (ws.writeHeader lib w 200) (ws.write lib w p).1 := by
  cases ws with
  | nil =>
    refine .trans ?_ extends_base_write_head
    rw [if_neg (by simp [hw])]
    exact .refl _
  | cons wr ws =>
    rw [Wrappers.write, if_neg (by simp [hw])]
    exact extends_write

structure Committed (lib : Lib) (ws : Wrappers) (cm : Commit) (w : ResponseWriter) : Prop where
  written : w.written = true
  fields : ∃ status, finalSection w = some (cm.fields lib ws status)

theorem Committed.extends {cm : Commit} {w' : ResponseWriter} (hw : Committed lib ws cm w)
    (h : Extends w w') : Committed lib ws cm w' := by
  obtain ⟨status, hfields⟩ := hw.fields
  exact ⟨h.written hw.written, status, h.finalSection hfields⟩

theorem committed_writeHeaders (hs : interimStatus status = false) : Committed lib ws (.native headers)
    (ws.writeHeaders lib (blank head h) status headers).1 := by
  rw [writeHeaders_unwritten rfl, ResponseWriter.writeHeaders_eq rfl rfl hs]
  exact ⟨rfl, status, rfl⟩

theorem committed_writeHeader (hs : interimStatus status = false) : Committed lib ws (.stdlib h)
    (ws.writeHeader lib (blank head h) status) := by
  rw [writeHeader_unwritten rfl, ResponseWriter.writeHeader_eq rfl rfl hs]
  exact ⟨rfl, status, rfl⟩

theorem interim_writeHeaders (hs : interimStatus status = true) :
    (ws.writeHeaders lib (blank head h) status headers).1 = blank head h := by
  rw [writeHeaders_unwritten rfl, ResponseWriter.writeHeaders, hs, Bool.or_true]
  rfl

theorem interim_writeHeader (hs : interimStatus status = true) :
    ws.writeHeader lib (blank head h) status = blank head (setAll ws h) := by
  rw [writeHeader_unwritten rfl, ResponseWriter.writeHeader, hs, Bool.or_true]
  rfl

theorem committed_of_commit {acts : List Act} {cm : Commit} (hc : commit ws h acts = some cm) :
    Committed lib ws cm (acts.foldl (Act.run lib ws) (blank head h)) := by
  induction acts generalizing h with
  | nil => cases hc
  | cons a acts ih =>
    cases a with
    | assign key values => exact ih hc
    | remove key => exact ih hc
    | writeHeaders status headers =>
      rw [commit] at hc
      split at hc
      · rw [List.foldl_cons, Act.run, interim_writeHeaders ‹_›]
        exact ih hc
      · cases hc
        exact (committed_writeHeaders (Bool.eq_false_iff.2 ‹_›)).extends (extends_runs acts)
    | writeData p =>
      cases hc
      have hcommit : Committed lib ws (.native []) (ws.writeHeaders lib (blank head h) 200 []).1 :=
        committed_writeHeaders rfl
      exact hcommit.extends ((extends_writeData_head rfl).trans (extends_runs acts))
    | writeHeader status =>
      rw [commit] at hc
      split at hc
      · rw [List.foldl_cons, Act.run, interim_writeHeader ‹_›]
        exact ih hc
      · cases hc
        exact (committed_writeHeader (Bool.eq_false_iff.2 ‹_›)).extends (extends_runs acts)
    | write p =>
      cases hc
      have hcommit : Committed lib ws (.stdlib h) (ws.writeHeader lib (blank head h) 200) :=
        committed_writeHeader rfl
      exact hcommit.extends ((extends_write_head rfl).trans (extends_runs acts))
    | writeTrailers trailers => cases hc

theorem blank_or_ended_of_commit {acts : List Act} (hc : commit ws h acts = none) :
    (∃ h', acts.foldl (Act.run lib ws) (blank head h) = blank head h') ∨
      ∃ trailers, (acts.foldl (Act.run lib ws) (blank head h)).sent = [.headers trailers true] := by
  induction acts generalizing h with
  | nil => exact .inl ⟨h, rfl⟩
  | cons a acts ih =>
    cases a with
    | assign key values => exact ih hc
    | remove key => exact ih hc
    | writeHeaders status headers =>
      rw [commit] at hc
      split at hc
      · rw [List.foldl_cons, Act.run, interim_writeHeaders ‹_›]
        exact ih hc
      · cases hc
    | writeData | write => cases hc
    | writeHeader status =>
      rw [commit] at hc
      split at hc
      · rw [List.foldl_cons, Act.run, interim_writeHeader ‹_›]
        exact ih hc
      · cases hc
    | writeTrailers trailers =>
      refine .inr ⟨trailers, ?_⟩
      exact (extends_runs acts).sent_eq rfl

end Commit

/-! The values of one configured name. -/

section Values

variable {lib : Lib} {e e' : Injected} {n : Bytes} {wr : Wrapper} {ws : Wrappers}
  {headers fs fs' : List HeaderField} {status : Int} {h : HeaderMap}

@[simp] theorem valuesOf_append : valuesOf n (fs ++ fs') = valuesOf n fs ++ valuesOf n fs' := by
  simp [valuesOf]

theorem valuesOf_eq_nil (h : ∀ f ∈ fs, lowerASCII f.name ≠ n) : valuesOf n fs = [] := by
  simpa [valuesOf] using h

theorem Injected.Plain.generated (he : e.Plain) (b : Bool) :
    valuesOf e.name (ResponseWriter.statusField status ::
      if b then [ResponseWriter.dateField lib] else []) = [] := by
  have hstatus : lowerASCII (ascii ":status") = ascii ":status" := by decide
  have hdate : lowerASCII (ascii "date") = ascii "date" := by decide
  refine valuesOf_eq_nil fun f hf => ?_
  rcases List.mem_cons.1 hf with rfl | hf
  · exact fun h => he.status (h.symm.trans hstatus)
  · cases b with
    | false => cases hf
    | true =>
      cases List.mem_singleton.1 hf
      exact fun h => he.date (h.symm.trans hdate)

theorem valuesOf_nativeSection (he : e.Plain) :
    valuesOf e.name (ResponseWriter.nativeSection lib status headers) = valuesOf e.name headers := by
  have hkept : valuesOf e.name (headers.filter (!prohibitedInResponse ·.name)) =
      valuesOf e.name headers := by
    rw [valuesOf, valuesOf, List.filter_filter]
    congr 1
    refine List.filter_congr fun f _ => ?_
    by_cases hf : lowerASCII f.name = e.name
    · simp [hf, he.kept f.name hf]
    · simp [hf]
  rw [ResponseWriter.nativeSection, ← List.cons_append, valuesOf_append, he.generated, hkept,
    List.nil_append]

theorem filter_name_eq (hnodup : (wr.map Injected.name).Nodup) (he : e ∈ wr) :
    wr.filter (·.name = e.name) = [e] := by
  induction wr with
  | nil => cases he
  | cons e' wr ih =>
    obtain ⟨hnew, hnodup⟩ := List.nodup_cons.1 hnodup
    rcases List.mem_cons.1 he with rfl | he
    · rw [List.filter_cons_of_pos (by simp), List.filter_eq_nil_iff.2]
      intro x hx hname
      exact hnew (List.mem_map.2 ⟨x, hx, of_decide_eq_true hname⟩)
    · have hne : e'.name ≠ e.name := fun h => hnew (List.mem_map.2 ⟨e, he, h.symm⟩)
      rw [List.filter_cons_of_neg (by simpa using hne)]
      exact ih hnodup he

theorem valuesOf_fields_of_plain (hplain : ∀ e ∈ wr, e.Plain) (n : Bytes) :
    valuesOf n (wr.map Injected.field) = (wr.filter (·.name = n)).map (·.value) := by
  rw [valuesOf, List.filter_map, List.map_map]
  have hfilter : wr.filter ((fun f : HeaderField => decide (lowerASCII f.name = n)) ∘ Injected.field) =
      wr.filter (·.name = n) := by
    refine List.filter_congr fun e he => ?_
    simp [Injected.field, (hplain e he).lower]
  rw [hfilter]
  rfl

theorem valuesOf_merge (hplain : ∀ e ∈ wr, e.Plain) (hnodup : (wr.map Injected.name).Nodup)
    (he : e ∈ wr) : valuesOf e.name (merge wr headers) =
      valuesOf e.name headers ++ if fieldPresent headers e.name then [] else [e.value] := by
  rw [merge, valuesOf_append, valuesOf_fields_of_plain fun e he => hplain e (List.mem_of_mem_filter he),
    List.filter_filter]
  congr 1
  have hswap : wr.filter (fun x => decide (x.name = e.name) && !fieldPresent headers x.name) =
      (wr.filter (·.name = e.name)).filter fun x => !fieldPresent headers x.name := by
    rw [List.filter_filter]
    exact List.filter_congr fun x _ => Bool.and_comm _ _
  rw [hswap, filter_name_eq hnodup he]
  cases hp : fieldPresent headers e.name <;> simp [hp]

theorem valuesOf_merge_of_ne (hplain : ∀ e ∈ wr, e.Plain) (hne : ∀ e ∈ wr, e.name ≠ n) :
    valuesOf n (merge wr headers) = valuesOf n headers := by
  rw [merge, valuesOf_append, valuesOf_fields_of_plain fun e he => hplain e (List.mem_of_mem_filter he)]
  have hnil : (wr.filter fun e => !fieldPresent headers e.name).filter (·.name = n) = [] :=
    List.filter_eq_nil_iff.2 fun e he h => hne e (List.mem_of_mem_filter he) (of_decide_eq_true h)
  rw [hnil, List.map_nil, List.append_nil]

theorem fieldPresent_merge_of_ne (hne : ∀ e ∈ wr, e.name ≠ n) :
    fieldPresent (merge wr headers) n = fieldPresent headers n := by
  rw [fieldPresent, merge, List.any_append, List.any_map]
  have hnone : (wr.filter fun e => !fieldPresent headers e.name).any
      ((fun f : HeaderField => f.name == n) ∘ Injected.field) = false := by
    refine List.any_eq_false.2 fun e he => ?_
    simpa [Injected.field] using hne e (List.mem_of_mem_filter he)
  rw [hnone, Bool.or_false]
  rfl

theorem valuesOf_mergeAll_of_ne (hplain : ∀ e ∈ ws.flatten, e.Plain) (hne : ∀ e ∈ ws.flatten, e.name ≠ n) :
    valuesOf n (mergeAll ws headers) = valuesOf n headers := by
  induction ws generalizing headers with
  | nil => rfl
  | cons wr ws ih =>
    rw [List.flatten_cons] at hplain hne
    change valuesOf n (mergeAll ws (merge wr headers)) = _
    rw [ih (fun e he => hplain e (List.mem_append_right _ he))
      (fun e he => hne e (List.mem_append_right _ he))]
    exact valuesOf_merge_of_ne (fun e he => hplain e (List.mem_append_left _ he))
      fun e he => hne e (List.mem_append_left _ he)

theorem valuesOf_mergeAll (hplain : ∀ e ∈ ws.flatten, e.Plain)
    (hnodup : (ws.flatten.map Injected.name).Nodup) (he : e ∈ ws.flatten) :
    valuesOf e.name (mergeAll ws headers) =
      valuesOf e.name headers ++ if fieldPresent headers e.name then [] else [e.value] := by
  induction ws generalizing headers with
  | nil => cases he
  | cons wr ws ih =>
    rw [List.flatten_cons] at hplain hnodup he
    rw [List.map_append] at hnodup
    obtain ⟨hwr, hws, hdisjoint⟩ := List.nodup_append.1 hnodup
    have hplain₁ : ∀ e ∈ wr, e.Plain := fun e he => hplain e (List.mem_append_left _ he)
    have hplain₂ : ∀ e ∈ ws.flatten, e.Plain := fun e he => hplain e (List.mem_append_right _ he)
    change valuesOf e.name (mergeAll ws (merge wr headers)) = _
    rcases List.mem_append.1 he with he | he
    · rw [valuesOf_mergeAll_of_ne hplain₂, valuesOf_merge hplain₁ hwr he]
      intro e' he' heq
      exact hdisjoint _ (List.mem_map_of_mem he) _ (List.mem_map_of_mem he') heq.symm
    · have hne : ∀ e' ∈ wr, e'.name ≠ e.name := fun e' he' =>
        hdisjoint _ (List.mem_map_of_mem he') _ (List.mem_map_of_mem he)
      rw [ih hplain₂ hws he, valuesOf_merge_of_ne hplain₁ hne, fieldPresent_merge_of_ne hne]

theorem filter_setMissing {P : Bytes → Bool} (hP : P (canonicalKey e.name) = false) :
    (setMissing h e).filter (P ·.1) = h.filter (P ·.1) := by
  unfold setMissing
  split
  · rw [HeaderMap.set, List.filter_cons_of_neg (by simp [hP]), HeaderMap.del, List.filter_filter]
    refine List.filter_congr fun p _ => ?_
    by_cases hp : p.1 = canonicalKey e.name
    · simp [hp, hP]
    · simp [hp]
  · rfl

theorem filter_foldl_setMissing {P : Bytes → Bool} {es : List Injected}
    (hP : ∀ e ∈ es, P (canonicalKey e.name) = false) :
    (es.foldl setMissing h).filter (P ·.1) = h.filter (P ·.1) := by
  induction es generalizing h with
  | nil => rfl
  | cons e es ih =>
    rw [List.foldl_cons, ih fun e' he' => hP e' (List.mem_cons_of_mem _ he'),
      filter_setMissing (hP e List.mem_cons_self)]

def Injected.folds (lib : Lib) (e : Injected) (k : Bytes) : Bool := lowerASCII (lib.toLower k) = e.name

theorem Injected.Plain.folds_key (he : e.Plain) : e.folds lib (canonicalKey e.name) = true := by
  rw [Injected.folds, he.key lib, he.lower]
  exact decide_eq_true rfl

theorem Injected.Plain.folds_of_ne (he' : e'.Plain) (hne : e'.name ≠ e.name) :
    e.folds lib (canonicalKey e'.name) = false := by
  rw [Injected.folds, he'.key lib, he'.lower]
  exact decide_eq_false hne

theorem valuesOf_fields (he : e.Plain) :
    valuesOf e.name (h.fields lib.toLower) = (h.filter (e.folds lib ·.1)).flatMap (·.2) := by
  induction h with
  | nil => rfl
  | cons p h ih =>
    have hcons : HeaderMap.fields lib.toLower (p :: h) =
        (if prohibitedInResponse (lib.toLower p.1) then [] else
          p.2.map fun v => { name := lib.toLower p.1, value := some v }) ++
        HeaderMap.fields lib.toLower h := rfl
    rw [hcons, valuesOf_append, ih]
    by_cases hp : lowerASCII (lib.toLower p.1) = e.name
    · have hfolds : e.folds lib p.1 = true := decide_eq_true hp
      rw [he.kept _ hp, List.filter_cons_of_pos (by exact hfolds), List.flatMap_cons]
      congr 1
      rw [if_neg Bool.false_ne_true, valuesOf, List.filter_eq_self.2, List.map_map]
      · exact List.map_id' _
      · intro f hf
        obtain ⟨v, -, rfl⟩ := List.mem_map.1 hf
        exact decide_eq_true hp
    · rw [List.filter_cons_of_neg (by simpa [Injected.folds] using hp), valuesOf_eq_nil, List.nil_append]
      intro f hf
      split at hf
      · cases hf
      · obtain ⟨v, -, rfl⟩ := List.mem_map.1 hf
        exact hp

def otherValues (lib : Lib) (e : Injected) (h : HeaderMap) : List Bytes :=
  (h.filter fun p => e.folds lib p.1 && p.1 ≠ canonicalKey e.name).flatMap (·.2)

theorem otherValues_eq_nil_iff : otherValues lib e h = [] ↔
    ∀ p ∈ h, lowerASCII (lib.toLower p.1) = e.name → p.1 ≠ canonicalKey e.name → p.2 = [] := by
  simp only [otherValues, List.flatMap_eq_nil_iff, List.mem_filter, Injected.folds, Bool.and_eq_true,
    decide_eq_true_eq, and_imp]

theorem values_perm (he : e.Plain) : (valuesOf e.name (h.fields lib.toLower)).Perm
    (h.values (canonicalKey e.name) ++ otherValues lib e h) := by
  rw [valuesOf_fields he, HeaderMap.values, otherValues, ← List.flatMap_append]
  refine List.Perm.flatMap_right _ ?_
  have hkey : h.filter (·.1 = canonicalKey e.name) =
      (h.filter (e.folds lib ·.1)).filter (·.1 = canonicalKey e.name) := by
    rw [List.filter_filter]
    refine List.filter_congr fun p _ => ?_
    by_cases hp : p.1 = canonicalKey e.name
    · simp [hp, he.folds_key]
    · simp [hp]
  have hother : (h.filter fun p => e.folds lib p.1 && p.1 ≠ canonicalKey e.name) =
      (h.filter (e.folds lib ·.1)).filter fun p => !decide (p.1 = canonicalKey e.name) := by
    rw [List.filter_filter]
    exact List.filter_congr fun p _ => by rw [decide_not, Bool.and_comm]
  rw [hkey, hother]
  exact (List.filter_append_perm _ _).symm

theorem valuesOf_eq_values (he : e.Plain) (hother : otherValues lib e h = []) :
    valuesOf e.name (h.fields lib.toLower) = h.values (canonicalKey e.name) := by
  rw [valuesOf_fields he, HeaderMap.values]
  rw [otherValues_eq_nil_iff] at hother
  induction h with
  | nil => rfl
  | cons p h ih =>
    have ih := ih fun q hq => hother q (List.mem_cons_of_mem p hq)
    by_cases hkey : p.1 = canonicalKey e.name
    · have hfolds : e.folds lib p.1 = true := hkey ▸ he.folds_key
      rw [List.filter_cons_of_pos (by exact hfolds), List.filter_cons_of_pos (by simpa using hkey),
        List.flatMap_cons, List.flatMap_cons, ih]
    · have hskip : (p :: h).filter (·.1 = canonicalKey e.name) =
          h.filter (·.1 = canonicalKey e.name) := List.filter_cons_of_neg (by simpa using hkey)
      rw [hskip, ← ih]
      by_cases hfolds : e.folds lib p.1 = true
      · have hnil := hother p List.mem_cons_self (of_decide_eq_true hfolds) hkey
        rw [List.filter_cons_of_pos (by exact hfolds), List.flatMap_cons, hnil, List.nil_append]
      · rw [List.filter_cons_of_neg (by exact hfolds)]

theorem valuesOf_setMissing (he : e.Plain) :
    valuesOf e.name ((setMissing h e).fields lib.toLower) =
      if h.get (canonicalKey e.name) = [] then e.value :: otherValues lib e h
      else valuesOf e.name (h.fields lib.toLower) := by
  unfold setMissing
  split
  · rw [valuesOf_fields he, HeaderMap.set, List.filter_cons_of_pos (by exact he.folds_key),
      List.flatMap_cons, HeaderMap.del, List.filter_filter]
    rfl
  · rfl

theorem valuesOf_setAll (hplain : ∀ e ∈ ws.flatten, e.Plain)
    (hnodup : (ws.flatten.map Injected.name).Nodup) (hmem : e ∈ ws.flatten) :
    valuesOf e.name ((setAll ws h).fields lib.toLower) =
      if h.get (canonicalKey e.name) = [] then e.value :: otherValues lib e h
      else valuesOf e.name (h.fields lib.toLower) := by
  have he := hplain e hmem
  obtain ⟨pre, post, hsplit⟩ := List.append_of_mem hmem
  rw [hsplit] at hplain hnodup
  rw [List.map_append, List.map_cons, List.nodup_append, List.nodup_cons] at hnodup
  obtain ⟨-, ⟨hpost, -⟩, hpre⟩ := hnodup
  have hne : ∀ e' ∈ pre ++ post, e'.name ≠ e.name := by
    intro e' he' heq
    rcases List.mem_append.1 he' with he' | he'
    · exact hpre _ (List.mem_map_of_mem he') _ List.mem_cons_self heq
    · exact hpost (heq ▸ List.mem_map_of_mem he')
  have hplain' : ∀ e' ∈ pre ++ post, e'.Plain := fun e' he' =>
    hplain e' (by simp only [List.mem_append, List.mem_cons] at he' ⊢; tauto)
  have hfolds : ∀ e' ∈ pre ++ post, e.folds lib (canonicalKey e'.name) = false := fun e' he' =>
    (hplain' e' he').folds_of_ne (hne e' he')
  have hkey : ∀ e' ∈ pre ++ post, canonicalKey e'.name ≠ canonicalKey e.name := by
    intro e' he' heq
    have := hfolds e' he'
    rw [heq, he.folds_key] at this
    cases this
  have hpreL : ∀ e' ∈ pre, e' ∈ pre ++ post := fun e' he' => List.mem_append_left post he'
  have hpostR : ∀ e' ∈ post, e' ∈ pre ++ post := fun e' he' => List.mem_append_right pre he'
  have hget : (pre.foldl setMissing h).get (canonicalKey e.name) = h.get (canonicalKey e.name) := by
    rw [HeaderMap.get, HeaderMap.get, HeaderMap.values, HeaderMap.values]
    rw [filter_foldl_setMissing (P := fun k => k = canonicalKey e.name)
      fun e' he' => decide_eq_false (hkey e' (hpreL e' he'))]
  have hother : otherValues lib e (pre.foldl setMissing h) = otherValues lib e h := by
    rw [otherValues, otherValues]
    rw [filter_foldl_setMissing (P := fun k => e.folds lib k && k ≠ canonicalKey e.name)
      fun e' he' => by rw [hfolds e' (hpreL e' he'), Bool.false_and]]
  have hall : valuesOf e.name ((pre.foldl setMissing h).fields lib.toLower) =
      valuesOf e.name (h.fields lib.toLower) := by
    rw [valuesOf_fields he, valuesOf_fields he,
      filter_foldl_setMissing fun e' he' => hfolds e' (hpreL e' he')]
  rw [setAll, hsplit, List.foldl_append, List.foldl_cons, valuesOf_fields he,
    filter_foldl_setMissing (fun e' he' => hfolds e' (hpostR e' he')), ← valuesOf_fields he,
    valuesOf_setMissing he, hget, hother, hall]

theorem valuesOf_headerSection (he : e.Plain) :
    (valuesOf e.name (ResponseWriter.headerSection lib status h)).Perm
      (valuesOf e.name (h.fields lib.toLower)) := by
  rw [ResponseWriter.headerSection, ← List.cons_append, valuesOf_append, he.generated, List.nil_append,
    valuesOf_fields he, valuesOf_fields he]
  exact ((lib.range_perm h).filter _).flatMap_right _

end Values

section Once

variable {lib : Lib} {e : Injected} {ws : Wrappers} {status : Int} {cm : Commit}

theorem expected_singleton {v : Bytes} (hv : v ≠ []) : expected e [v] = v := by
  simp [expected, hv]

theorem native_once_iff {headers : List HeaderField} (he : e.Plain) :
    valuesOf e.name headers ++ (if fieldPresent headers e.name then [] else [e.value]) =
        [expected e (valuesOf e.name headers)] ↔ Commit.Clean lib e (.native headers) := by
  have hpresent : ∀ f, headers.filter (lowerASCII ·.name = e.name) = [f] →
      (fieldPresent headers e.name = true ↔ f.name = e.name) := by
    intro f hf
    have hmem : f ∈ headers ∧ lowerASCII f.name = e.name := by
      have := List.mem_filter.1 (hf ▸ List.mem_singleton_self f)
      exact ⟨this.1, of_decide_eq_true this.2⟩
    refine ⟨fun h => ?_, fun h => List.any_eq_true.2 ⟨f, hmem.1, beq_iff_eq.2 h⟩⟩
    obtain ⟨f', hf', hname⟩ := List.any_eq_true.1 h
    have hname := beq_iff_eq.1 hname
    have : f' ∈ headers.filter (lowerASCII ·.name = e.name) :=
      List.mem_filter.2 ⟨hf', decide_eq_true (by rw [hname, he.lower])⟩
    rw [hf, List.mem_singleton] at this
    exact this ▸ hname
  have hnone : valuesOf e.name headers = [] → fieldPresent headers e.name = false := by
    intro h
    refine List.any_eq_false.2 fun f hf hname => ?_
    have hname := beq_iff_eq.1 hname
    have := List.filter_eq_nil_iff.1 (List.map_eq_nil_iff.1 h) f hf
    exact this (decide_eq_true (by rw [hname, he.lower]))
  constructor
  · intro h
    by_cases hp : fieldPresent headers e.name = true
    · rw [if_pos hp, List.append_nil] at h
      obtain ⟨f, hf, hval⟩ := List.map_eq_singleton_iff.1 h
      refine .inr ⟨f, hf, (hpresent f hf).1 hp, fun hnil => ?_⟩
      have hvalues : valuesOf e.name headers = [f.val] := by rw [valuesOf, hf, List.map_singleton]
      rw [hvalues, hnil] at h
      exact he.value (by simpa [expected] using h.symm)
    · rw [if_neg hp] at h
      refine .inl (List.eq_nil_of_length_eq_zero ?_)
      have := congrArg List.length h
      simpa using this
  · rintro (h | ⟨f, hf, hname, hval⟩)
    · rw [hnone h, h]
      rfl
    · have hvalues : valuesOf e.name headers = [f.val] := by rw [valuesOf, hf, List.map_singleton]
      rw [if_pos ((hpresent f hf).2 hname), hvalues, expected_singleton hval]
      rfl

theorem stdlib_once_iff {h : HeaderMap} (he : e.Plain) :
    (if h.get (canonicalKey e.name) = [] then e.value :: otherValues lib e h
      else valuesOf e.name (h.fields lib.toLower)) =
        [expected e (valuesOf e.name (h.fields lib.toLower))] ↔ Commit.Clean lib e (.stdlib h) := by
  have hperm : (valuesOf e.name (h.fields lib.toLower)).Perm
    (h.values (canonicalKey e.name) ++ otherValues lib e h) := values_perm he
  change _ ↔ _ ∧ _
  rw [← otherValues_eq_nil_iff]
  by_cases hget : h.get (canonicalKey e.name) = []
  · rw [if_pos hget, List.cons_eq_cons]
    constructor
    · rintro ⟨hvalue, hother⟩
      rw [valuesOf_eq_values he hother] at hvalue
      exact ⟨hother, .inr ⟨hget, hvalue.symm⟩⟩
    · rintro ⟨hother, ⟨v, hv, hne⟩ | ⟨-, hvalue⟩⟩
      · rw [HeaderMap.get, hv] at hget
        exact absurd hget hne
      · rw [valuesOf_eq_values he hother]
        exact ⟨hvalue.symm, hother⟩
  · rw [if_neg hget]
    constructor
    · intro hone
      rw [hone] at hperm
      cases hvalues : h.values (canonicalKey e.name) with
      | nil =>
        rw [HeaderMap.get, hvalues] at hget
        exact absurd rfl hget
      | cons v vs =>
        rw [hvalues] at hperm
        have hnil := (List.cons_eq_cons.1 (List.singleton_perm.1 hperm).symm).2
        obtain ⟨rfl, hother⟩ := List.append_eq_nil_iff.1 hnil
        refine ⟨hother, .inl ⟨v, rfl, fun hv => hget ?_⟩⟩
        rw [HeaderMap.get, hvalues, hv]
        rfl
    · rintro ⟨hother, ⟨v, hv, hne⟩ | ⟨hnil, -⟩⟩
      · rw [valuesOf_eq_values he hother, hv, expected_singleton hne]
      · exact absurd hnil hget

theorem injectedOnce_iff (hplain : ∀ e ∈ ws.flatten, e.Plain)
    (hnodup : (ws.flatten.map Injected.name).Nodup) (hmem : e ∈ ws.flatten) :
    InjectedOnce lib (some cm) (cm.fields lib ws status) e ↔ cm.Clean lib e := by
  have he := hplain e hmem
  cases cm with
  | native headers =>
    rw [← native_once_iff he, ← valuesOf_mergeAll hplain hnodup hmem]
    change valuesOf e.name (ResponseWriter.nativeSection lib status (mergeAll ws headers)) = _ ↔ _
    rw [valuesOf_nativeSection he]
    rfl
  | stdlib h =>
    rw [← stdlib_once_iff he, ← valuesOf_setAll hplain hnodup hmem]
    have hperm : (valuesOf e.name (Commit.fields lib ws status (.stdlib h))).Perm
        (valuesOf e.name ((setAll ws h).fields lib.toLower)) := valuesOf_headerSection he
    constructor
    · intro hone
      exact (List.singleton_perm.1 (hone ▸ hperm)).symm
    · intro hone
      exact List.perm_singleton.1 (hone ▸ hperm)

theorem not_injectedOnce_generated (he : e.Plain) (cm : Option Commit) :
    ¬InjectedOnce lib cm (ResponseWriter.nativeSection lib status []) e := by
  rw [InjectedOnce, valuesOf_nativeSection he]
  exact nofun

theorem finalSection_dispatch {head : Bool} {h : Handler} (hc : commit ws [] h.acts = none) :
    (∃ status, finalSection (dispatchAndClose lib ws head h) =
      some (ResponseWriter.nativeSection lib status [])) ∨
    finalSection (dispatchAndClose lib ws head h) = none := by
  rcases @blank_or_ended_of_commit lib ws [] head h.acts hc with ⟨h', hblank⟩ | ⟨trailers, hsent⟩
  · have hgenerated (status : Int) (hs : interimStatus status = false) :
        finalSection (((blank head h').writeHeaders lib status []).1.writeTrailers []).1 =
          some (ResponseWriter.nativeSection lib status []) := by
      rw [ResponseWriter.writeHeaders_eq rfl rfl hs]
      rfl
    unfold dispatchAndClose
    change h.acts.foldl (Act.run lib ws) { head } = _ at hblank
    rw [hblank]
    cases h.outcome with
    | panics => exact .inl ⟨500, hgenerated 500 rfl⟩
    | fails => exact .inl ⟨500, hgenerated 500 rfl⟩
    | returns => exact .inl ⟨200, hgenerated 200 rfl⟩
  · refine .inr ?_
    change (h.acts.foldl (Act.run lib ws) { head }).sent = _ at hsent
    have hended : (h.acts.foldl (Act.run lib ws) { head }).ended = true := by
      rw [ResponseWriter.ended, hsent]
      rfl
    rw [finalSection, (extends_dispatch head h).sent_eq hended, hsent]
    rfl

def Chain (cfg : SecurityHeadersConfig) (id : Bytes) (ws : Wrappers) : Prop :=
  ws = [securityResponseWriter cfg, requestIDResponseWriter id] ∨
    ws = [requestIDResponseWriter id, securityResponseWriter cfg]

theorem requestID_ne_nil {headers : List HeaderField} {generated : Bytes} (h : generated ≠ []) :
    requestID headers generated ≠ [] := by
  unfold requestID
  dsimp only
  split
  · exact h
  · assumption

def names : List Bytes :=
  [ascii "strict-transport-security", ascii "x-content-type-options", ascii "x-frame-options",
    ascii "referrer-policy", ascii "content-security-policy", requestIDName]

theorem kept_of_lowerASCII {n name : Bytes} (hn : n ∈ names) (h : lowerASCII name = n) :
    prohibitedInResponse name = false := by
  have hall : ∀ n ∈ names, n.head? ≠ some 0x3a ∧ n ≠ [] ∧ n.length ≠ 2 ∧ n.length ≠ 7 ∧
      n.length ≠ 10 ∧ n.length ≠ 16 ∧ n.length ≠ 17 := by
    decide +kernel
  obtain ⟨hhead, hnil, hlengths⟩ := hall n hn
  have hlen : n.length = name.length := by rw [← h, lowerASCII, List.length_map]
  rw [hlen] at hlengths
  cases name with
  | nil => exact absurd h.symm hnil
  | cons c rest =>
    have hc : c ≠ 0x3a := by
      rintro rfl
      exact hhead (h ▸ rfl)
    obtain ⟨h2, h7, h10, h16, h17⟩ := hlengths
    rw [prohibitedInResponse, if_neg hc, if_neg fun h => h2 h.1, if_neg h7, if_neg h10, if_neg h16,
      if_neg h17]

theorem plain_of_mem_names (hn : e.name ∈ names) (hv : e.value ≠ []) : e.Plain := by
  have hall : ∀ n ∈ names, lowerASCII n = n ∧ (canonicalKey n).all (· < 0x80) = true ∧
      lowerASCII (canonicalKey n) = n ∧ n ≠ ascii ":status" ∧ n ≠ ascii "date" := by
    decide +kernel
  obtain ⟨hlower, hascii, hkey, hstatus, hdate⟩ := hall e.name hn
  simp only [List.all_eq_true, decide_eq_true_eq] at hascii
  exact ⟨hlower, fun lib => (lib.toLower_ascii hascii).trans hkey, hstatus, hdate,
    fun name h => kept_of_lowerASCII hn h, hv⟩

theorem map_name_if {p : Prop} [Decidable p] (e : Injected) :
    ((if p then [e] else []).map Injected.name).Sublist [e.name] := by
  split
  · exact .refl _
  · exact List.nil_sublist _

theorem security_names (cfg : SecurityHeadersConfig) :
    ((buildSecurityHeaders cfg).map Injected.name).Sublist names.dropLast := by
  simp only [buildSecurityHeaders, List.map_append]
  exact ((((map_name_if _).append (map_name_if _)).append (map_name_if _)).append
    (map_name_if _)).append (map_name_if _)

theorem security_value_ne_nil {cfg : SecurityHeadersConfig} (he : e ∈ buildSecurityHeaders cfg) :
    e.value ≠ [] := by
  have hhsts : hstsValue cfg ≠ [] := by
    rw [hstsValue, List.append_assoc, List.append_assoc]
    exact nofun
  simp only [buildSecurityHeaders, List.mem_append, List.mem_ite_nil_right, List.mem_singleton] at he
  rcases he with (((⟨-, rfl⟩ | ⟨-, rfl⟩) | ⟨h, rfl⟩) | ⟨h, rfl⟩) | ⟨h, rfl⟩
  · exact hhsts
  · exact nofun
  · exact h
  · exact h
  · exact h

def configured (cfg : SecurityHeadersConfig) (id : Bytes) : List Injected :=
  buildSecurityHeaders cfg ++ [⟨requestIDName, id⟩]

theorem Chain.perm {cfg : SecurityHeadersConfig} {id : Bytes} (h : Chain cfg id ws) :
    ws.flatten.Perm (configured cfg id) := by
  rcases h with rfl | rfl
  · simp [configured, securityResponseWriter, requestIDResponseWriter]
  · simpa [configured, securityResponseWriter, requestIDResponseWriter] using
      (List.perm_append_singleton _ _).symm

theorem configured_plain {cfg : SecurityHeadersConfig} {id : Bytes} (hid : id ≠ [])
    (he : e ∈ configured cfg id) : e.Plain := by
  rcases List.mem_append.1 he with he | he
  · have hname := (security_names cfg).subset (List.mem_map_of_mem he)
    exact plain_of_mem_names ((List.dropLast_sublist _).subset hname) (security_value_ne_nil he)
  · cases List.mem_singleton.1 he
    exact plain_of_mem_names (by decide : requestIDName ∈ names) hid

theorem configured_nodup (cfg : SecurityHeadersConfig) (id : Bytes) :
    ((configured cfg id).map Injected.name).Nodup := by
  have hsub : ((configured cfg id).map Injected.name).Sublist names := by
    rw [configured, List.map_append]
    exact (security_names cfg).append (.refl [requestIDName])
  have hnames : names.Nodup := by decide +kernel
  exact hnames.sublist hsub

/-- Behind both middlewares the final header section carries each configured name once, with the value
it should have, exactly when the handler writes it itself and supplies for each name nothing, or one
non-empty value in the form that the wrappers look for. -/
theorem injected_once_iff (lib : Lib) (cfg : SecurityHeadersConfig) (req : List HeaderField)
    {generated : Bytes} (hgenerated : generated ≠ []) (hws : Chain cfg (requestID req generated) ws)
    (head : Bool) (h : Handler) :
    (∃ fields, finalSection (dispatchAndClose lib ws head h) = some fields ∧
      ∀ e ∈ configured cfg (requestID req generated),
        InjectedOnce lib (commit ws [] h.acts) fields e) ↔
    ∃ cm, commit ws [] h.acts = some cm ∧
      ∀ e ∈ configured cfg (requestID req generated), cm.Clean lib e := by
  have hmem : ∀ {e}, e ∈ configured cfg (requestID req generated) ↔ e ∈ ws.flatten :=
    hws.perm.mem_iff.symm
  have hplain : ∀ e ∈ ws.flatten, e.Plain := fun e he =>
    configured_plain (requestID_ne_nil hgenerated) (hmem.2 he)
  have hnodup : (ws.flatten.map Injected.name).Nodup :=
    (hws.perm.map _).nodup_iff.2 (configured_nodup cfg _)
  cases hc : commit ws [] h.acts with
  | none =>
    have he : (⟨requestIDName, requestID req generated⟩ : Injected) ∈
        configured cfg (requestID req generated) :=
      List.mem_append_right _ (List.mem_singleton_self _)
    refine iff_of_false ?_ nofun
    rintro ⟨fields, hfields, hall⟩
    rcases finalSection_dispatch hc with ⟨status, hsection⟩ | hsection
    · rw [hsection] at hfields
      cases hfields
      exact not_injectedOnce_generated (hplain _ (hmem.1 he)) none (hall _ he)
    · rw [hsection] at hfields
      cases hfields
  | some cm =>
    have hcommit : Committed lib ws cm (h.acts.foldl (Act.run lib ws) { head }) :=
      committed_of_commit hc
    obtain ⟨status, hsection⟩ := (hcommit.extends (extends_dispatch head h)).fields
    rw [hsection]
    constructor
    · rintro ⟨_, ⟨⟩, hall⟩
      exact ⟨cm, rfl, fun e he => (injectedOnce_iff hplain hnodup (hmem.1 he)).1 (hall e he)⟩
    · rintro ⟨_, ⟨⟩, hall⟩
      exact ⟨_, rfl, fun e he => (injectedOnce_iff hplain hnodup (hmem.1 he)).2 (hall e he)⟩

def defaultChain : Wrappers :=
  [securityResponseWriter {}, requestIDResponseWriter (ascii "7f3a")]

def responseValues (name : Bytes) (h : Handler) : Option (List Bytes) :=
  (finalSection (dispatchAndClose plainLib defaultChain false h)).map (valuesOf name)

/-- A handler that writes nothing, one that fails and one that panics get none of the fields; a native
field in another letter case is sent besides the configured one; and a native field without a value
stands in its place. -/
theorem injected_fields_are_missing_or_doubled :
    responseValues requestIDName { acts := [] } = some [] ∧
    responseValues requestIDName { acts := [], outcome := .fails } = some [] ∧
    responseValues requestIDName { acts := [], outcome := .panics } = some [] ∧
    responseValues (ascii "x-frame-options") { acts :=
        [.writeHeaders 200 [{ name := ascii "X-Frame-Options", value := some (ascii "SAMEORIGIN") }]] } =
      some [ascii "SAMEORIGIN", ascii "DENY"] ∧
    responseValues (ascii "x-frame-options") { acts :=
        [.writeHeaders 200 [{ name := ascii "x-frame-options", value := some [] }]] } = some [[]] := by
  decide +kernel

def relaxing : Handler where
  acts := [.assign (ascii "X-Frame-Options") [ascii "SAMEORIGIN"], .write (ascii "ok")]

theorem injected_once_of_relaxing :
    ∃ fields, finalSection (dispatchAndClose plainLib defaultChain false relaxing) = some fields ∧
      ∀ e ∈ configured {} (ascii "7f3a"),
        InjectedOnce plainLib (commit defaultChain [] relaxing.acts) fields e := by
  have hclean : ∀ e ∈ configured {} (ascii "7f3a"),
      Commit.Clean plainLib e (.stdlib [(ascii "X-Frame-Options", [ascii "SAMEORIGIN"])]) := by
    have hother : ∀ e ∈ configured {} (ascii "7f3a"),
        otherValues plainLib e [(ascii "X-Frame-Options", [ascii "SAMEORIGIN"])] = [] := by
      decide +kernel
    have hkey : ∀ e ∈ configured {} (ascii "7f3a"), e.name = ascii "x-frame-options" ∨
        HeaderMap.values [(ascii "X-Frame-Options", [ascii "SAMEORIGIN"])] (canonicalKey e.name) = [] := by
      decide +kernel
    intro e he
    refine ⟨otherValues_eq_nil_iff.1 (hother e he), ?_⟩
    rcases hkey e he with hname | hnone
    · rw [hname]
      exact .inl ⟨ascii "SAMEORIGIN", by decide +kernel, by decide⟩
    · rw [HeaderMap.get, hnone]
      exact .inr ⟨rfl, rfl⟩
  have hgenerated : ascii "7f3a" ≠ [] := by decide
  exact (injected_once_iff plainLib {} [] hgenerated (.inl rfl) false relaxing).2 ⟨_, rfl, hclean⟩

end Once

end PoseidonServer.Middleware.Inject
