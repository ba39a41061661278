import PoseidonServer.HttpFields.Sections

/-! The response writer of the HTTP/2 server and the field sections it sends. -/

namespace PoseidonServer.Server

open HttpFields

abbrev HeaderMap := List (Bytes × List Bytes)

namespace HeaderMap

def values (h : HeaderMap) (key : Bytes) : List Bytes := (h.filter (·.1 = key)).flatMap (·.2)

def get (h : HeaderMap) (key : Bytes) : Bytes := (h.values key).head?.getD []

def del (h : HeaderMap) (key : Bytes) : HeaderMap := h.filter (·.1 ≠ key)

def set (h : HeaderMap) (key value : Bytes) : HeaderMap := (key, [value]) :: h.del key

def fields (lower : Bytes → Bytes) (h : HeaderMap) : List HeaderField :=
  h.flatMap fun (k, vv) =>
    if prohibitedInResponse (lower k) then [] else vv.map fun v => { name := lower k, value := some v }

end HeaderMap

structure Lib where
  /-- `httpDate(time.Now())`. -/
  date : Bytes
  date_form : hasProhibitedFieldChar date = false
  /-- `strings.ToLower`. -/
  toLower : Bytes → Bytes
  toLower_ascii : ∀ {k}, (∀ c ∈ k, c < 0x80) → toLower k = lowerASCII k
  /-- The order in which `range` visits a map. -/
  range : HeaderMap → HeaderMap
  range_perm : ∀ h, (range h).Perm h

def plainLib : Lib where
  date := ascii "Mon, 16 Nov 2026 08:00:00 GMT"
  date_form := by decide
  toLower := lowerASCII
  toLower_ascii := fun _ => rfl
  range := id
  range_perm := fun _ => .refl _

inductive Sent
  | headers (fields : List HeaderField) (endStream : Bool)
  | data (p : Bytes)
  deriving DecidableEq

structure ResponseWriter where
  head : Bool
  headers : HeaderMap := []
  status : Int := 0
  written : Bool := false
  sent : List Sent := []
  deriving DecidableEq

def statusBytes (code : Int) : Bytes := ascii (toString code)

def dateRequired (status : Int) : Bool := 200 ≤ status && status < 500

def hasField (fields : List HeaderField) (name : Bytes) : Bool := fields.any (equalFold ·.name name)

namespace ResponseWriter

def ended (w : ResponseWriter) : Bool :=
  w.sent.any fun | .headers _ endStream => endStream | .data _ => false

/-- A stream takes nothing after END_STREAM; the flag tells whether the call succeeded. -/
def send (w : ResponseWriter) (s : Sent) : ResponseWriter × Bool :=
  if w.ended then (w, false) else ({ w with sent := w.sent ++ [s] }, true)

def statusField (status : Int) : HeaderField := ⟨ascii ":status", some (statusBytes status), .incremental⟩

def dateField (lib : Lib) : HeaderField := ⟨ascii "date", some lib.date, .incremental⟩

def nativeSection (lib : Lib) (status : Int) (headers : List HeaderField) : List HeaderField :=
  statusField status ::
    ((if dateRequired status && !hasField headers (ascii "date") then [dateField lib] else []) ++
      headers.filter (!prohibitedInResponse ·.name))

def headerSection (lib : Lib) (status : Int) (hdr : HeaderMap) : List HeaderField :=
  statusField status ::
    ((if dateRequired status && hdr.get (ascii "Date") == [] then [dateField lib] else []) ++
      (lib.range hdr).fields lib.toLower)

def writeHeaders (lib : Lib) (w : ResponseWriter) (status : Int) (headers : List HeaderField) :
    ResponseWriter × Bool :=
  if w.written || interimStatus status then (w, true)
  else { w with status, written := true }.send (.headers (nativeSection lib status headers) false)

def suppressContent (w : ResponseWriter) : Bool := w.head

def writeData (lib : Lib) (w : ResponseWriter) (p : Bytes) : ResponseWriter × Bool :=
  let (w, ok) := if w.written then (w, true) else w.writeHeaders lib 200 []
  if !ok then (w, false)
  else if w.suppressContent then (w, true)
  else w.send (.data p)

def writeTrailers (w : ResponseWriter) (trailers : List HeaderField) : ResponseWriter × Bool :=
  w.send (.headers trailers true)

def writeHeader (lib : Lib) (w : ResponseWriter) (status : Int) : ResponseWriter :=
  if w.written || interimStatus status then w
  else ({ w with status, written := true }.send (.headers (headerSection lib status w.headers) false)).1

def write (lib : Lib) (w : ResponseWriter) (p : Bytes) : ResponseWriter × Bool :=
  let w := if w.written then w else w.writeHeader lib 200
  if w.suppressContent then (w, true) else w.send (.data p)

end ResponseWriter

/-- A field that a peer may be sent after `:status`. -/
def Regular (f : HeaderField) : Prop :=
  pseudo f = false ∧ isConnectionSpecificName f.name = false ∧ prohibited f.name f.val false = false

def ResponseSection : List HeaderField → Prop
  | [] => False
  | s :: fields => s.name = ascii ":status" ∧ ∀ f ∈ fields, Regular f

/-- What the filter of the writers leaves unchecked. -/
structure Legal (f : HeaderField) : Prop where
  status : f.name ≠ ascii ":status"
  name : hasProhibitedFieldName f.name = false
  value : hasProhibitedFieldChar f.val = false

instance (f : HeaderField) : Decidable (Regular f) := by unfold Regular; infer_instance

instance : ∀ fields : List HeaderField, Decidable (ResponseSection fields)
  | [] => .isFalse id
  | s :: fields => inferInstanceAs (Decidable (s.name = ascii ":status" ∧ ∀ f ∈ fields, Regular f))

variable {f : HeaderField} {name : Bytes}

theorem pseudo_eq_false (h : prohibitedInResponse f.name = false) :
    pseudo f = false ↔ f.name ≠ ascii ":status" := by
  cases hn : f.name with
  | nil =>
    rw [hn] at h
    cases h
  | cons c name =>
    rw [hn] at h
    simp only [pseudo, hn, List.head?_cons, beq_eq_false_iff_ne, ne_eq, Option.some.injEq]
    constructor
    · rintro hc hs
      exact hc (List.cons.inj (hs.trans (rfl : ascii ":status" = 0x3a :: ascii "status"))).1
    · rintro hs rfl
      simp [prohibitedInResponse] at h
      exact hs h

theorem prohibitedInResponse_of_connectionSpecific (h : isConnectionSpecificName name = true) :
    prohibitedInResponse name = true := by
  simp only [isConnectionSpecificName, Bool.or_eq_true, beq_iff_eq] at h
  obtain (((h | h) | h) | h) | h := h <;> rw [h] <;> rfl

theorem regular_iff (h : prohibitedInResponse f.name = false) : Regular f ↔ Legal f := by
  have hconn : isConnectionSpecificName f.name = false := by
    by_contra hc
    rw [prohibitedInResponse_of_connectionSpecific (by simpa using hc)] at h
    cases h
  have hte : f.name ≠ ascii "te" := by
    intro ht
    rw [ht] at h
    exact absurd h (by decide)
  have hprohibited : prohibited f.name f.val false = false ↔
      hasProhibitedFieldName f.name = false ∧ hasProhibitedFieldChar f.val = false := by
    simp [prohibited, hte, hconn]
  rw [Regular, pseudo_eq_false h, hprohibited]
  exact ⟨fun hf => ⟨hf.1, hf.2.2.1, hf.2.2.2⟩, fun hf => ⟨hf.status, hconn, hf.name, hf.value⟩⟩

theorem regular_dateField (lib : Lib) : Regular (ResponseWriter.dateField lib) :=
  (regular_iff rfl).2 ⟨(by decide : ascii "date" ≠ ascii ":status"), rfl, lib.date_form⟩

theorem responseSection_cons_iff {status : Int} {generated kept : List HeaderField}
    (h : ∀ f ∈ generated, Regular f) :
    ResponseSection (ResponseWriter.statusField status :: (generated ++ kept)) ↔
      ∀ f ∈ kept, Regular f := by
  simp only [ResponseSection, ResponseWriter.statusField, true_and, List.forall_mem_append]
  exact and_iff_right h

theorem regular_of_mem_date {lib : Lib} {b : Bool} {f : HeaderField}
    (h : f ∈ if b then [ResponseWriter.dateField lib] else []) : Regular f := by
  cases b with
  | false => cases h
  | true =>
    cases List.mem_singleton.1 h
    exact regular_dateField lib

theorem nativeSection_iff {lib : Lib} {status : Int} {headers : List HeaderField} :
    ResponseSection (ResponseWriter.nativeSection lib status headers) ↔
      ∀ f ∈ headers, prohibitedInResponse f.name = false → Legal f := by
  rw [ResponseWriter.nativeSection, responseSection_cons_iff fun f => regular_of_mem_date]
  simp only [List.mem_filter, Bool.not_eq_true', and_imp]
  exact forall₃_congr fun f _ hp => regular_iff hp

namespace HeaderMap

variable {h h' : HeaderMap} {lower : Bytes → Bytes}

theorem mem_fields : f ∈ h.fields lower ↔ ∃ k vv, (k, vv) ∈ h ∧
    prohibitedInResponse (lower k) = false ∧ ∃ v ∈ vv, f = { name := lower k, value := some v } := by
  simp only [fields, List.mem_flatMap, Prod.exists]
  refine exists₂_congr fun k vv => and_congr_right fun _ => ?_
  cases hp : prohibitedInResponse (lower k)
  · simp [eq_comm]
  · simp

theorem regular_fields_iff : (∀ f ∈ h.fields lower, Regular f) ↔
    ∀ e ∈ h, prohibitedInResponse (lower e.1) = false → ∀ v ∈ e.2,
      Legal { name := lower e.1, value := some v } := by
  constructor
  · rintro hf ⟨k, vv⟩ he hp v hv
    exact (regular_iff hp).1 (hf _ (mem_fields.2 ⟨k, vv, he, hp, v, hv, rfl⟩))
  · rintro hl f hf
    obtain ⟨k, vv, he, hp, v, hv, rfl⟩ := mem_fields.1 hf
    exact (regular_iff hp).2 (hl (k, vv) he hp v hv)

end HeaderMap

theorem headerSection_iff {lib : Lib} {status : Int} {hdr : HeaderMap} :
    ResponseSection (ResponseWriter.headerSection lib status hdr) ↔
      ∀ e ∈ hdr, prohibitedInResponse (lib.toLower e.1) = false → ∀ v ∈ e.2,
        Legal { name := lib.toLower e.1, value := some v } := by
  rw [ResponseWriter.headerSection, responseSection_cons_iff fun f => regular_of_mem_date,
    HeaderMap.regular_fields_iff]
  exact forall_congr' fun e => imp_congr (lib.range_perm hdr).mem_iff Iff.rfl

namespace ResponseWriter

variable {lib : Lib} {w : ResponseWriter} {status : Int} {headers : List HeaderField}

theorem send_eq (he : w.ended = false) (s : Sent) : w.send s = ({ w with sent := w.sent ++ [s] }, true) := by
  rw [send, he]
  rfl

theorem writeHeaders_eq (hw : w.written = false) (he : w.ended = false)
    (hs : interimStatus status = false) : w.writeHeaders lib status headers =
      ({ w with
        status, written := true,
        sent := w.sent ++ [.headers (nativeSection lib status headers) false] }, true) := by
  rw [writeHeaders, hw, hs]
  exact send_eq (w := { w with status, written := true }) he _

theorem writeHeader_eq (hw : w.written = false) (he : w.ended = false)
    (hs : interimStatus status = false) : w.writeHeader lib status =
      { w with
        status, written := true,
        sent := w.sent ++ [.headers (headerSection lib status w.headers) false] } := by
  rw [writeHeader, hw, hs]
  exact congrArg Prod.fst (send_eq (w := { w with status, written := true }) he _)

end ResponseWriter

end PoseidonServer.Server
