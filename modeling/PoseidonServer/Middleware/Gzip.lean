import PoseidonServer.Server.Response

/-! The gzip middleware: a writer that buffers the response against the writer it wraps. -/

namespace PoseidonServer.Middleware

open HttpFields Server

structure GzipConfig where
  level : Int
  minSize : Int

def GzipConfig.normal (cfg : GzipConfig) : GzipConfig where
  level :=
    let level := if cfg.level = 0 then 5 else cfg.level
    if level < -2 then -1 else level
  minSize := if cfg.minSize = 0 then 512 else cfg.minSize

/-- The gzip library: the compressor may fail, and what it returns is undone. -/
structure Codec where
  gzipCompress : Bytes → Int → Option Bytes
  gunzip : Bytes → Option Bytes
  inverts : ∀ {src level out}, gzipCompress src level = some out → gunzip out = some src

def isOWS (c : UInt8) : Bool := c == 0x20 || c == 0x09

/-- Drops the common prefix; the flag tells whether the token has been used up. -/
def matchToken : Bytes → Bytes → Bytes × Bool
  | val, [] => (val, true)
  | [], _ :: _ => ([], false)
  | c :: val, t :: token => if c = t then matchToken val token else (c :: val, false)

/-- Every round of the loop of `containsToken` drops an octet, so the length of the value is fuel
enough. -/
def containsToken (val token : Bytes) : Bool := go val.length val
where
  go : Nat → Bytes → Bool
    | 0, _ => false
    | _ + 1, [] => false
    | fuel + 1, val =>
      let (rest, found) := matchToken (val.dropWhile fun c => isOWS c || c == 0x2c) token
      if found && rest.head?.all (fun c => c == 0x2c || c == 0x3b || isOWS c) then true
      else go fuel ((rest.dropWhile (· != 0x2c)).drop 1)

def acceptsGzip (headers : List HeaderField) : Bool :=
  match headers.find? (·.name = ascii "accept-encoding") with
  | some h => containsToken h.val (ascii "gzip")
  | none => false

def hdrContentEncoding : Bytes := ascii "content-encoding"
def hdrContentLength : Bytes := ascii "content-length"

def gzipField : HeaderField := { name := hdrContentEncoding, value := some (ascii "gzip") }

def withoutContentLength (headers : List HeaderField) : List HeaderField :=
  headers.filter fun h => !equalFold h.name hdrContentLength

def withGzipEncoding (headers : List HeaderField) : List HeaderField :=
  headers.filter (fun h => !equalFold h.name hdrContentLength) ++ [gzipField]

def encoded (h : HeaderMap) : HeaderMap :=
  (h.del (ascii "Content-Length")).set (ascii "Content-Encoding") (ascii "gzip")

structure GzipResponseWriter where
  inner : ResponseWriter
  cfg : GzipConfig
  buf : Bytes := []
  status : Int := 0
  wroteHeader : Bool := false
  nativeHeaders : List HeaderField := []
  usedHTTP : Bool := false
  flushed : Bool := false
  head : Bool

namespace GzipResponseWriter

def writeHeaders (g : GzipResponseWriter) (status : Int) (headers : List HeaderField) :
    GzipResponseWriter :=
  if g.wroteHeader then g else { g with status, nativeHeaders := headers, wroteHeader := true }

def writeData (g : GzipResponseWriter) (p : Bytes) : GzipResponseWriter :=
  let g := if g.wroteHeader then g else { g with status := 200, wroteHeader := true }
  { g with buf := g.buf ++ p }

def writeHeader (g : GzipResponseWriter) (status : Int) : GzipResponseWriter :=
  if g.wroteHeader then g else { g with status, usedHTTP := true, wroteHeader := true }

def write (g : GzipResponseWriter) (p : Bytes) : GzipResponseWriter :=
  let g := if g.wroteHeader then g
    else { g with status := 200, usedHTTP := true, wroteHeader := true }
  { g with buf := g.buf ++ p }

def alreadyEncoded (g : GzipResponseWriter) : Bool :=
  if g.usedHTTP then g.inner.headers.get (ascii "Content-Encoding") != []
  else g.nativeHeaders.any (equalFold ·.name hdrContentEncoding)

def flushNative (lib : Lib) (g : GzipResponseWriter) (status : Int) (out : Bytes) (compress : Bool) :
    GzipResponseWriter × Bool :=
  let headers := if compress then withGzipEncoding g.nativeHeaders
    else if g.head then withoutContentLength g.nativeHeaders else g.nativeHeaders
  let (inner, ok) := g.inner.writeHeaders lib status headers
  if !ok then ({ g with inner }, false)
  else if out ≠ [] then
    let (inner, ok) := inner.writeData lib out
    ({ g with inner }, ok)
  else ({ g with inner }, true)

def reheaded (g : GzipResponseWriter) (compress : Bool) : ResponseWriter :=
  { g.inner with
    headers := if compress then encoded g.inner.headers
      else if g.head then g.inner.headers.del (ascii "Content-Length") else g.inner.headers }

def flushHTTP (lib : Lib) (g : GzipResponseWriter) (status : Int) (out : Bytes) (compress : Bool) :
    GzipResponseWriter × Bool :=
  let inner := (g.reheaded compress).writeHeader lib status
  if out ≠ [] then
    let (inner, ok) := inner.write lib out
    ({ g with inner }, ok)
  else ({ g with inner }, true)

def compressed (codec : Codec) (g : GzipResponseWriter) : Option Bytes :=
  if !g.head && g.cfg.minSize ≤ g.buf.length && !g.alreadyEncoded then
    codec.gzipCompress g.buf g.cfg.level
  else none

def emit (lib : Lib) (codec : Codec) (g : GzipResponseWriter) : GzipResponseWriter × Bool :=
  let out := (g.compressed codec).getD g.buf
  let compress := (g.compressed codec).isSome
  let status := if g.status = 0 then 200 else g.status
  if g.usedHTTP then g.flushHTTP lib status out compress
  else g.flushNative lib status out compress

def flush (lib : Lib) (codec : Codec) (g : GzipResponseWriter) : GzipResponseWriter × Bool :=
  if g.flushed then (g, true)
  else if !g.wroteHeader then ({ g with flushed := true }, true)
  else { g with flushed := true }.emit lib codec

def writeTrailers (lib : Lib) (codec : Codec) (g : GzipResponseWriter) (trailers : List HeaderField) :
    GzipResponseWriter × Bool :=
  let (g, ok) := g.flush lib codec
  if !ok then (g, false)
  else
    let (inner, ok) := g.inner.writeTrailers trailers
    ({ g with inner }, ok)

end GzipResponseWriter

inductive Call
  | writeHeaders (status : Int) (headers : List HeaderField)
  | writeHeader (status : Int)
  | writeData (p : Bytes)
  | write (p : Bytes)
  | flush
  | writeTrailers (trailers : List HeaderField)

/-- `Flush` of the wrapped writer does nothing: it does not buffer. -/
def direct (lib : Lib) (w : ResponseWriter) : Call → ResponseWriter
  | .writeHeaders status headers => (w.writeHeaders lib status headers).1
  | .writeHeader status => w.writeHeader lib status
  | .writeData p => (w.writeData lib p).1
  | .write p => (w.write lib p).1
  | .flush => w
  | .writeTrailers trailers => (w.writeTrailers trailers).1

def GzipResponseWriter.call (lib : Lib) (codec : Codec) (g : GzipResponseWriter) :
    Call → GzipResponseWriter
  | .writeHeaders status headers => g.writeHeaders status headers
  | .writeHeader status => g.writeHeader status
  | .writeData p => g.writeData p
  | .write p => g.write p
  | .flush => (g.flush lib codec).1
  | .writeTrailers trailers => (g.writeTrailers lib codec trailers).1

/-- The middleware around a handler that makes the given calls; the wrapper is flushed at the end. -/
def gzip (lib : Lib) (codec : Codec) (cfg : GzipConfig) (headers : List HeaderField)
    (calls : List Call) (w : ResponseWriter) : ResponseWriter :=
  if !acceptsGzip headers then calls.foldl (direct lib) w
  else
    let g : GzipResponseWriter := { inner := w, cfg := cfg.normal, head := w.head }
    ((calls.foldl (GzipResponseWriter.call lib codec) g).flush lib codec).1.inner

def fieldsOf : Sent → List HeaderField
  | .headers fields false => fields
  | _ => []

def bodyOf : Sent → Bytes
  | .data p => p
  | _ => []

def trailersOf : Sent → List (List HeaderField)
  | .headers fields true => [fields]
  | _ => []

def isEncoding (f : HeaderField) : Bool := equalFold f.name hdrContentEncoding

def isLength (f : HeaderField) : Bool := equalFold f.name hdrContentLength

/-- Two field lists are the same up to order and to Content-Encoding and Content-Length. -/
def SameFields (fs fs' : List HeaderField) : Prop :=
  (fs.filter fun f => !isEncoding f && !isLength f).Perm
    (fs'.filter fun f => !isEncoding f && !isLength f)

def SameEncodings (fs fs' : List HeaderField) : Prop :=
  (fs.filter isEncoding).Perm (fs'.filter isEncoding)

/-- The response `r` is `d`, or `d` under the gzip coding. -/
structure Transparent (codec : Codec) (r d : ResponseWriter) : Prop where
  /-- The `:status` line comes first. -/
  status : (r.sent.flatMap fieldsOf).head? = (d.sent.flatMap fieldsOf).head?
  fields : SameFields (r.sent.flatMap fieldsOf) (d.sent.flatMap fieldsOf)
  trailers : r.sent.flatMap trailersOf = d.sent.flatMap trailersOf
  body : SameEncodings (r.sent.flatMap fieldsOf) (d.sent.flatMap fieldsOf) ∧
      r.sent.flatMap bodyOf = d.sent.flatMap bodyOf ∨
    ¬SameEncodings (r.sent.flatMap fieldsOf) (d.sent.flatMap fieldsOf) ∧
      gzipField ∈ r.sent.flatMap fieldsOf ∧
      codec.gunzip (r.sent.flatMap bodyOf) = some (d.sent.flatMap bodyOf)

/-- A call that does not reach what the wrapper gets wrong: it latches a status that the wrapped
writer declines or replaces, and it buffers what is written after its only flush. -/
def GzipResponseWriter.keeps (g : GzipResponseWriter) : Call → Bool
  | .writeHeaders status _ | .writeHeader status =>
    g.inner.ended ||
      if g.flushed then g.inner.written || interimStatus status
      else g.wroteHeader || (!interimStatus status && status != 0)
  | .writeData p | .write p => g.inner.ended || !g.flushed || (g.inner.written && (g.head || p == []))
  | .flush | .writeTrailers _ => true

def GzipResponseWriter.Keeps (lib : Lib) (codec : Codec) (g : GzipResponseWriter) : List Call → Prop
  | [] => True
  | c :: calls => g.keeps c = true ∧ (g.call lib codec c).Keeps lib codec calls

section Fields

variable {s t t' key : Bytes} {status : Int} {lib : Lib} {h h' : HeaderMap} {lower : Bytes → Bytes}
  {hs : List HeaderField} {q : HeaderField → Bool}

theorem isEncoding_of_isLength {f : HeaderField} (h : isLength f = true) : isEncoding f = false := by
  rw [← Bool.not_eq_true]
  intro he
  exact absurd (equalFold_unique h he) (by decide)

theorem hasField_withoutContentLength :
    hasField (withoutContentLength hs) (ascii "date") = hasField hs (ascii "date") := by
  simp only [hasField, withoutContentLength, List.any_filter]
  congr 1
  funext f
  cases hl : equalFold f.name hdrContentLength with
  | false => rfl
  | true =>
    cases hd : equalFold f.name (ascii "date") with
    | false => rfl
    | true => exact absurd (equalFold_unique hl hd) (by decide)

theorem nativeSection_without (hq : ∀ f, isLength f = true → q f = false) :
    (ResponseWriter.nativeSection lib status (withoutContentLength hs)).filter q =
      (ResponseWriter.nativeSection lib status hs).filter q := by
  have hkept : ((withoutContentLength hs).filter (!prohibitedInResponse ·.name)).filter q =
      (hs.filter (!prohibitedInResponse ·.name)).filter q := by
    simp only [withoutContentLength, List.filter_filter]
    congr 1
    funext f
    cases hl : equalFold f.name hdrContentLength with
    | false => simp
    | true => simp [hq f hl]
  simp only [ResponseWriter.nativeSection, hasField_withoutContentLength, List.filter_cons,
    List.filter_append, hkept]

theorem nativeSection_withGzip :
    ResponseWriter.nativeSection lib status (withGzipEncoding hs) =
      ResponseWriter.nativeSection lib status (withoutContentLength hs) ++ [gzipField] := by
  have hdate : hasField (withGzipEncoding hs) (ascii "date") =
      hasField (withoutContentLength hs) (ascii "date") := by
    simp only [hasField, withGzipEncoding, withoutContentLength, List.any_append]
    exact Bool.or_false _
  have hpass : [gzipField].filter (!prohibitedInResponse ·.name) = [gzipField] := rfl
  rw [ResponseWriter.nativeSection, hdate, withGzipEncoding, List.filter_append, hpass]
  simp [ResponseWriter.nativeSection, withoutContentLength]

theorem fields_cons {e : Bytes × List Bytes} : HeaderMap.fields lower (e :: h) =
    (if prohibitedInResponse (lower e.1) then []
      else e.2.map fun v => { name := lower e.1, value := some v }) ++ h.fields lower :=
  List.flatMap_cons

theorem values_cons {e : Bytes × List Bytes} : HeaderMap.values (e :: h) key =
    (if e.1 = key then e.2 else []) ++ h.values key := by
  by_cases hk : e.1 = key <;> simp [HeaderMap.values, hk]

theorem del_cons {e : Bytes × List Bytes} : HeaderMap.del (e :: h) key =
    if e.1 = key then h.del key else e :: h.del key := by
  by_cases hk : e.1 = key <;> simp [HeaderMap.del, hk]

theorem fields_perm_del (hp : prohibitedInResponse (lower key) = false) :
    (h.fields lower).Perm ((h.values key).map (fun v => { name := lower key, value := some v }) ++
      (h.del key).fields lower) := by
  induction h with
  | nil => exact .nil
  | cons e h ih =>
    rw [fields_cons, values_cons, del_cons]
    by_cases hk : e.1 = key
    · rw [if_pos hk, if_pos hk, hk, hp, List.map_append, List.append_assoc]
      exact ih.append_left _
    · rw [if_neg hk, if_neg hk, List.nil_append, fields_cons]
      exact (ih.append_left _).trans (List.perm_append_comm_assoc _ _ _)

theorem fields_del_filter (hp : prohibitedInResponse (lower key) = false)
    (hq : ∀ v, q { name := lower key, value := some v } = false) :
    ((h.fields lower).filter q).Perm (((h.del key).fields lower).filter q) := by
  refine ((fields_perm_del hp).filter q).trans ?_
  rw [List.filter_append, List.filter_eq_nil_iff.2 (by simp [hq]), List.nil_append]

theorem values_del (hne : key ≠ s) : (h.del key).values s = h.values s := by
  induction h with
  | nil => rfl
  | cons e h ih =>
    rw [del_cons, values_cons]
    by_cases hk : e.1 = key
    · rw [if_pos hk, if_neg (hk ▸ hne), ih, List.nil_append]
    · rw [if_neg hk, values_cons, ih]

theorem values_del_self : (h.del key).values key = [] := by
  rw [HeaderMap.values, HeaderMap.del, List.filter_filter,
    List.filter_eq_nil_iff.2 fun e _ => by simp]
  rfl

theorem get_congr (hv : h.values key = h'.values key) : h.get key = h'.get key := by
  rw [HeaderMap.get, HeaderMap.get, hv]

theorem headerSection_filter (hdate : h.get (ascii "Date") = h'.get (ascii "Date"))
    (hperm : ((h.fields lib.toLower).filter q).Perm ((h'.fields lib.toLower).filter q)) :
    ((ResponseWriter.headerSection lib status h).filter q).Perm
      ((ResponseWriter.headerSection lib status h').filter q) := by
  have hrange : ∀ m : HeaderMap, (((lib.range m).fields lib.toLower).filter q).Perm
      ((m.fields lib.toLower).filter q) := fun m =>
    ((lib.range_perm m).flatMap_right _).filter q
  have hfields := (hrange h).trans (hperm.trans (hrange h').symm)
  rw [ResponseWriter.headerSection, ResponseWriter.headerSection, hdate]
  simp only [List.filter_cons, List.filter_append]
  split
  · exact (hfields.append_left _).cons _
  · exact hfields.append_left _

theorem toLower_key (lib : Lib) {key : Bytes} (h : key.all (· < 0x80) = true) :
    lib.toLower key = lowerASCII key :=
  lib.toLower_ascii (by simpa using h)

theorem headerSection_del (hq : ∀ f, isLength f = true → q f = false) :
    ((ResponseWriter.headerSection lib status (h.del (ascii "Content-Length"))).filter q).Perm
      ((ResponseWriter.headerSection lib status h).filter q) := by
  have hlower : lib.toLower (ascii "Content-Length") = hdrContentLength := toLower_key lib rfl
  refine headerSection_filter (get_congr (values_del (by decide))) (fields_del_filter ?_ ?_).symm
  · rw [hlower]
    rfl
  · intro v
    rw [hlower]
    exact hq _ rfl

theorem encoded_fields : (encoded h).fields lib.toLower = gzipField ::
    ((h.del (ascii "Content-Length")).del (ascii "Content-Encoding")).fields lib.toLower := by
  have hlower : lib.toLower (ascii "Content-Encoding") = hdrContentEncoding := toLower_key lib rfl
  rw [encoded, HeaderMap.set, fields_cons, hlower]
  rfl

theorem encoded_get_date : (encoded h).get (ascii "Date") = h.get (ascii "Date") := by
  refine get_congr ?_
  rw [encoded, HeaderMap.set, values_cons, if_neg (by decide), List.nil_append,
    values_del (by decide), values_del (by decide)]

theorem sameFields_encoded : SameFields (ResponseWriter.headerSection lib status (encoded h))
    (ResponseWriter.headerSection lib status h) := by
  have hlength : lib.toLower (ascii "Content-Length") = hdrContentLength := toLower_key lib rfl
  have hencoding : lib.toLower (ascii "Content-Encoding") = hdrContentEncoding := toLower_key lib rfl
  refine headerSection_filter encoded_get_date ?_
  rw [encoded_fields, List.filter_cons_of_neg (by decide)]
  refine ((fields_del_filter ?_ ?_).trans (fields_del_filter ?_ ?_)).symm
  · rw [hlength]
    rfl
  · intro v
    rw [hlength]
    rfl
  · rw [hencoding]
    rfl
  · intro v
    rw [hencoding]
    rfl

theorem filter_isEncoding_generated {b : Bool} {kept : List HeaderField} :
    (ResponseWriter.statusField status ::
      ((if b then [ResponseWriter.dateField lib] else []) ++ kept)).filter isEncoding =
        kept.filter isEncoding := by
  have hstatus : isEncoding (ResponseWriter.statusField status) = false := rfl
  have hdate : isEncoding (ResponseWriter.dateField lib) = false := rfl
  rw [List.filter_cons_of_neg (by simp [hstatus]), List.filter_append]
  cases b <;> simp [hdate]

theorem encodings_headerSection :
    ((ResponseWriter.headerSection lib status h).filter isEncoding).Perm
      ((h.values (ascii "Content-Encoding")).map
        (fun v => { name := hdrContentEncoding, value := some v }) ++
          ((h.del (ascii "Content-Encoding")).fields lib.toLower).filter isEncoding) := by
  have hlower : lib.toLower (ascii "Content-Encoding") = hdrContentEncoding := toLower_key lib rfl
  have hpass : prohibitedInResponse (lib.toLower (ascii "Content-Encoding")) = false := by
    rw [hlower]
    rfl
  have hrange : ((lib.range h).fields lib.toLower).Perm (h.fields lib.toLower) :=
    (lib.range_perm h).flatMap_right _
  have hpart := hrange.trans (fields_perm_del hpass)
  have hall : ∀ vs : List Bytes,
      (vs.map fun v => ({ name := hdrContentEncoding, value := some v } : HeaderField)).filter
        isEncoding = vs.map fun v => { name := hdrContentEncoding, value := some v } := by
    intro vs
    refine List.filter_eq_self.2 fun f hf => ?_
    obtain ⟨v, -, rfl⟩ := List.mem_map.1 hf
    rfl
  rw [ResponseWriter.headerSection, filter_isEncoding_generated]
  rw [hlower] at hpart
  simpa only [List.filter_append, hall] using hpart.filter isEncoding

/-- The wrapper compresses only if the header map has no coding: its coding is then one more. -/
theorem not_sameEncodings_encoded (hget : h.get (ascii "Content-Encoding") = []) :
    ¬SameEncodings (ResponseWriter.headerSection lib status (encoded h))
      (ResponseWriter.headerSection lib status h) := by
  have hlower : lib.toLower (ascii "Content-Length") = hdrContentLength := toLower_key lib rfl
  have hvalues : (encoded h).values (ascii "Content-Encoding") = [ascii "gzip"] := by
    rw [encoded, HeaderMap.set, values_cons, if_pos rfl, values_del_self]
    rfl
  have hdel : (encoded h).del (ascii "Content-Encoding") =
      (h.del (ascii "Content-Encoding")).del (ascii "Content-Length") := by
    simp [encoded, HeaderMap.set, HeaderMap.del, List.filter_filter, Bool.and_comm]
  have hrest : (((encoded h).del (ascii "Content-Encoding")).fields lib.toLower).filter isEncoding
      |>.Perm (((h.del (ascii "Content-Encoding")).fields lib.toLower).filter isEncoding) := by
    rw [hdel]
    refine (fields_del_filter ?_ ?_).symm
    · rw [hlower]
      rfl
    · intro v
      rw [hlower]
      rfl
  intro hsame
  have hperm := encodings_headerSection.symm.trans (hsame.trans encodings_headerSection)
  rw [hvalues] at hperm
  have hone := (List.perm_append_right_iff _).1 ((hrest.symm.append_left _).trans hperm)
  have heq := List.singleton_perm.1 hone
  cases hv : h.values (ascii "Content-Encoding") with
  | nil => simp [hv] at heq
  | cons v vs =>
    rw [HeaderMap.get, hv] at hget
    simp only [hv, List.map_cons, List.cons.injEq] at heq
    cases heq.1
    cases hget

theorem sameFields_withGzip : SameFields (ResponseWriter.nativeSection lib status (withGzipEncoding hs))
    (ResponseWriter.nativeSection lib status hs) := by
  rw [SameFields, nativeSection_withGzip, List.filter_append,
    nativeSection_without (fun f hf => by simp [hf]), List.filter_cons_of_neg (by decide),
    List.filter_nil, List.append_nil]

theorem gzipField_mem_withGzip :
    gzipField ∈ ResponseWriter.nativeSection lib status (withGzipEncoding hs) := by
  rw [nativeSection_withGzip]
  exact List.mem_append_right _ (List.mem_singleton_self _)

theorem gzipField_mem_encoded :
    gzipField ∈ ResponseWriter.headerSection lib status (encoded h) := by
  have hrange : ((lib.range (encoded h)).fields lib.toLower).Perm ((encoded h).fields lib.toLower) :=
    (lib.range_perm _).flatMap_right _
  refine List.mem_cons_of_mem _ (List.mem_append_right _ (hrange.mem_iff.2 ?_))
  rw [encoded_fields]
  exact List.mem_cons_self

theorem not_sameEncodings_withGzip (h : hs.any (equalFold ·.name hdrContentEncoding) = false) :
    ¬SameEncodings (ResponseWriter.nativeSection lib status (withGzipEncoding hs))
      (ResponseWriter.nativeSection lib status hs) := by
  have hnone : (ResponseWriter.nativeSection lib status hs).filter isEncoding = [] := by
    rw [ResponseWriter.nativeSection, filter_isEncoding_generated, List.filter_filter,
      List.filter_eq_nil_iff]
    intro f hf
    simp [isEncoding, List.any_eq_false.1 h f hf]
  intro hsame
  rw [SameEncodings, hnone] at hsame
  exact List.not_mem_nil (hsame.mem_iff.1 (List.mem_filter.2 ⟨gzipField_mem_withGzip, rfl⟩))

end Fields

section Flush

variable {lib : Lib} {codec : Codec} {g : GzipResponseWriter} {w d : ResponseWriter} {status : Int}
  {out : Bytes} {compress : Bool}

def respond (w : ResponseWriter) (status : Int) (fields : List HeaderField) (out : Bytes) :
    ResponseWriter :=
  { w with
    status, written := true,
    sent := .headers fields false :: if out = [] ∨ w.head = true then [] else [.data out] }

theorem respond_nil {fields : List HeaderField} : respond w status fields [] =
    { w with status, written := true, sent := [.headers fields false] } := by
  simp [respond]

theorem respond_data {fields : List HeaderField} (hout : out ≠ []) :
    (if w.head then ({ w with status, written := true, sent := [.headers fields false] }, true)
      else ({ w with status, written := true, sent := [.headers fields false] } : ResponseWriter).send
        (.data out)) = (respond w status fields out, true) := by
  cases hhead : w.head with
  | true => simp [respond, hhead]
  | false => simp [respond, hhead, hout, ResponseWriter.send, ResponseWriter.ended]

theorem writeHeaders_respond (hw : w.written = false) (hsent : w.sent = [])
    (hs : interimStatus status = false) {headers : List HeaderField} :
    w.writeHeaders lib status headers =
      (respond w status (ResponseWriter.nativeSection lib status headers) [], true) := by
  have hended : w.ended = false := by
    rw [ResponseWriter.ended, hsent]
    rfl
  rw [ResponseWriter.writeHeaders_eq hw hended hs, respond_nil, hsent]
  rfl

theorem writeHeader_respond (hw : w.written = false) (hsent : w.sent = [])
    (hs : interimStatus status = false) : w.writeHeader lib status =
      respond w status (ResponseWriter.headerSection lib status w.headers) [] := by
  have hended : w.ended = false := by
    rw [ResponseWriter.ended, hsent]
    rfl
  rw [ResponseWriter.writeHeader_eq hw hended hs, respond_nil, hsent]
  rfl

theorem writeData_respond {fields : List HeaderField} (hout : out ≠ []) :
    (respond w status fields []).writeData lib out = (respond w status fields out, true) := by
  rw [← respond_data hout, respond_nil]
  rfl

theorem write_respond {fields : List HeaderField} (hout : out ≠ []) :
    (respond w status fields []).write lib out = (respond w status fields out, true) := by
  rw [← respond_data hout, respond_nil]
  rfl

theorem flushNative_eq (hw : g.inner.written = false) (hsent : g.inner.sent = [])
    (hs : interimStatus status = false) : g.flushNative lib status out compress =
      ({ g with
        inner := respond g.inner status (ResponseWriter.nativeSection lib status
          (if compress then withGzipEncoding g.nativeHeaders
            else if g.head then withoutContentLength g.nativeHeaders else g.nativeHeaders)) out },
        true) := by
  rw [GzipResponseWriter.flushNative, writeHeaders_respond hw hsent hs]
  by_cases hout : out = []
  · rw [hout]
    rfl
  · simp only [hout, ne_eq, not_false_eq_true, if_true, writeData_respond hout]
    rfl

theorem flushHTTP_eq (hw : g.inner.written = false) (hsent : g.inner.sent = [])
    (hs : interimStatus status = false) : g.flushHTTP lib status out compress =
      ({ g with
        inner := respond (g.reheaded compress) status
          (ResponseWriter.headerSection lib status (g.reheaded compress).headers) out }, true) := by
  have hheader : (g.reheaded compress).writeHeader lib status = _ := writeHeader_respond hw hsent hs
  rw [GzipResponseWriter.flushHTTP, hheader]
  by_cases hout : out = []
  · rw [hout]
    rfl
  · simp only [hout, ne_eq, not_false_eq_true, if_true, write_respond hout]

theorem views_of_sent {sent : List Sent} {fields : List HeaderField} {ps : List Bytes}
    (h : sent = .headers fields false :: ps.map .data) :
    sent.flatMap fieldsOf = fields ∧ sent.flatMap trailersOf = [] ∧
      sent.flatMap bodyOf = ps.flatten := by
  subst h
  simp [fieldsOf, trailersOf, bodyOf, List.flatMap_map]

theorem respond_sent (w : ResponseWriter) (status : Int) (fields : List HeaderField) (out : Bytes) :
    ∃ ps : List Bytes, (respond w status fields out).sent = .headers fields false :: ps.map .data ∧
      ps.flatten = if w.head then [] else out := by
  by_cases h : out = [] ∨ w.head = true
  · refine ⟨[], by simp [respond, h], ?_⟩
    obtain h | h := h <;> simp [h]
  · refine ⟨[out], by simp [respond, h], ?_⟩
    simp only [not_or, Bool.not_eq_true] at h
    simp [h.2]

theorem transparent_respond {fields fields' : List HeaderField} {ps : List Bytes} {body : Bytes}
    (hd : d.sent = .headers fields false :: ps.map .data)
    (hps : ps.flatten = if w.head then [] else body) (hhead : fields'.head? = fields.head?)
    (hfields : SameFields fields' fields)
    (hbody : SameEncodings fields' fields ∧ out = body ∨
      ¬SameEncodings fields' fields ∧ gzipField ∈ fields' ∧ w.head = false ∧
        codec.gunzip out = some body) :
    Transparent codec (respond w status fields' out) d := by
  obtain ⟨ps', hr, hps'⟩ := respond_sent w status fields' out
  obtain ⟨hrf, hrt, hrb⟩ := views_of_sent hr
  obtain ⟨hdf, hdt, hdb⟩ := views_of_sent hd
  refine ⟨?_, ?_, ?_, ?_⟩
  · rw [hrf, hdf, hhead]
  · rw [hrf, hdf]
    exact hfields
  · rw [hrt, hdt]
  · rw [hrf, hdf, hrb, hdb, hps, hps']
    refine hbody.imp (fun ⟨hsame, hout⟩ => ⟨hsame, by rw [hout]⟩) ?_
    rintro ⟨hsame, hmem, hw, hz⟩
    exact ⟨hsame, hmem, by simpa [hw] using hz⟩

end Flush

section Simulation

variable {lib : Lib} {codec : Codec} {g : GzipResponseWriter} {d : ResponseWriter}

def GzipResponseWriter.fields (lib : Lib) (g : GzipResponseWriter) : List HeaderField :=
  if g.usedHTTP then ResponseWriter.headerSection lib g.status g.inner.headers
  else ResponseWriter.nativeSection lib g.status g.nativeHeaders

structure Unwritten (g : GzipResponseWriter) (d : ResponseWriter) : Prop where
  flushed : g.flushed = false
  wroteHeader : g.wroteHeader = false
  buf : g.buf = []
  nativeHeaders : g.nativeHeaders = []
  usedHTTP : g.usedHTTP = false
  inner : g.inner = d
  written : d.written = false
  sent : d.sent = []
  head : g.head = d.head

structure Buffered (lib : Lib) (g : GzipResponseWriter) (d : ResponseWriter) : Prop where
  wroteHeader : g.wroteHeader = true
  final : interimStatus g.status = false
  nonzero : g.status ≠ 0
  inner : g.inner.written = false
  innerSent : g.inner.sent = []
  innerHead : g.head = g.inner.head
  head : g.head = d.head
  written : d.written = true
  sent : ∃ ps : List Bytes, d.sent = .headers (g.fields lib) false :: ps.map .data ∧
    ps.flatten = if g.head then [] else g.buf

structure Drained (codec : Codec) (g : GzipResponseWriter) (d : ResponseWriter) : Prop where
  flushed : g.flushed = true
  head : g.head = d.head
  written : d.ended = false → g.inner.written = d.written
  transparent : Transparent codec g.inner d

inductive Simulates (lib : Lib) (codec : Codec) (g : GzipResponseWriter) (d : ResponseWriter) : Prop
  | unwritten (h : Unwritten g d)
  | buffered (hf : g.flushed = false) (h : Buffered lib g d)
  | drained (h : Drained codec g d)

theorem transparent_refl : Transparent codec d d :=
  ⟨rfl, .refl _, rfl, .inl ⟨.refl _, rfl⟩⟩

theorem compressed_some {out : Bytes} (h : g.compressed codec = some out) :
    g.head = false ∧ g.alreadyEncoded = false ∧ codec.gunzip out = some g.buf := by
  rw [GzipResponseWriter.compressed] at h
  split at h
  · simp only [Bool.and_eq_true, Bool.not_eq_true', decide_eq_true_eq] at *
    exact ⟨‹(_ ∧ _) ∧ _›.1.1, ‹(_ ∧ _) ∧ _›.2, codec.inverts h⟩
  · cases h

/-- What the wrapper may do to the section: nothing but Content-Length without a coding, and one
more Content-Encoding with it. -/
structure Recodes (fields' fields : List HeaderField) (compress : Bool) : Prop where
  status : fields'.head? = fields.head?
  same : SameFields fields' fields
  identity : compress = false → SameEncodings fields' fields
  coded : compress = true → ¬SameEncodings fields' fields ∧ gzipField ∈ fields'

theorem recodes_native (hu : g.usedHTTP = false) {compress : Bool}
    (hc : compress = true → g.alreadyEncoded = false) :
    Recodes (ResponseWriter.nativeSection lib g.status
      (if compress then withGzipEncoding g.nativeHeaders
        else if g.head then withoutContentLength g.nativeHeaders else g.nativeHeaders))
      (g.fields lib) compress := by
  have hfields : g.fields lib = ResponseWriter.nativeSection lib g.status g.nativeHeaders := by
    rw [GzipResponseWriter.fields, hu]
    rfl
  rw [hfields]
  cases compress with
  | true =>
    have hencoded := hc rfl
    rw [GzipResponseWriter.alreadyEncoded, hu] at hencoded
    exact ⟨rfl, sameFields_withGzip, nofun, fun _ =>
      ⟨not_sameEncodings_withGzip hencoded, gzipField_mem_withGzip⟩⟩
  | false =>
    cases hh : g.head with
    | false => exact ⟨rfl, .refl _, fun _ => .refl _, nofun⟩
    | true =>
      refine ⟨rfl, ?_, fun _ => ?_, nofun⟩
      · exact .of_eq (nativeSection_without fun f hf => by simp [hf])
      · exact .of_eq (nativeSection_without fun f => isEncoding_of_isLength)

theorem recodes_http (hu : g.usedHTTP = true) {compress : Bool}
    (hc : compress = true → g.alreadyEncoded = false) :
    Recodes (ResponseWriter.headerSection lib g.status (g.reheaded compress).headers)
      (g.fields lib) compress := by
  rw [GzipResponseWriter.fields, if_pos hu, GzipResponseWriter.reheaded]
  cases compress with
  | true =>
    have hencoded := hc rfl
    rw [GzipResponseWriter.alreadyEncoded, if_pos hu] at hencoded
    exact ⟨rfl, sameFields_encoded, nofun, fun _ =>
      ⟨not_sameEncodings_encoded (by simpa using hencoded), gzipField_mem_encoded⟩⟩
  | false =>
    cases hh : g.head with
    | false => exact ⟨rfl, .refl _, fun _ => .refl _, nofun⟩
    | true =>
      refine ⟨rfl, ?_, fun _ => ?_, nofun⟩
      · exact headerSection_del fun f hf => by simp [hf]
      · exact headerSection_del fun f => isEncoding_of_isLength

theorem Buffered.transparent (h : Buffered lib g d) {w : ResponseWriter}
    {fields' : List HeaderField} (hw : w.head = g.head)
    (hr : Recodes fields' (g.fields lib) (g.compressed codec).isSome) :
    Transparent codec (respond w g.status fields' ((g.compressed codec).getD g.buf)) d := by
  obtain ⟨ps, hsent, hps⟩ := h.sent
  refine transparent_respond hsent (by rw [hps, hw]) hr.status hr.same ?_
  cases hc : g.compressed codec with
  | none => exact .inl ⟨hr.identity (by rw [hc]; rfl), rfl⟩
  | some out =>
    obtain ⟨hhead, -, hz⟩ := compressed_some hc
    obtain ⟨hne, hmem⟩ := hr.coded (by rw [hc]; rfl)
    exact .inr ⟨hne, hmem, hw.trans hhead, hz⟩

theorem Buffered.emit (h : Buffered lib g d) : ∃ inner, g.emit lib codec = ({ g with inner }, true) ∧
    inner.written = true ∧ Transparent codec inner d := by
  have hc : (g.compressed codec).isSome = true → g.alreadyEncoded = false := by
    intro hsome
    obtain ⟨out, hout⟩ := Option.isSome_iff_exists.1 hsome
    exact (compressed_some hout).2.1
  simp only [GzipResponseWriter.emit, h.nonzero, if_false]
  by_cases hu : g.usedHTTP = true
  · rw [if_pos hu]
    exact ⟨_, flushHTTP_eq h.inner h.innerSent h.final, rfl,
      h.transparent h.innerHead.symm (recodes_http hu hc)⟩
  · rw [if_neg hu]
    exact ⟨_, flushNative_eq h.inner h.innerSent h.final, rfl,
      h.transparent h.innerHead.symm (recodes_native (Bool.not_eq_true _ ▸ hu) hc)⟩

theorem Simulates.flush (h : Simulates lib codec g d) :
    (g.flush lib codec).2 = true ∧ Drained codec (g.flush lib codec).1 d := by
  cases h with
  | unwritten h =>
    rw [GzipResponseWriter.flush, h.flushed, h.wroteHeader]
    exact ⟨rfl, rfl, h.head, fun _ => h.inner ▸ rfl, h.inner ▸ transparent_refl⟩
  | buffered hf h =>
    have hflush : g.flush lib codec = { g with flushed := true }.emit lib codec := by
      rw [GzipResponseWriter.flush, if_neg (by simp [hf]), if_neg (by simp [h.wroteHeader])]
    have hmarked : Buffered lib { g with flushed := true } d :=
      ⟨h.wroteHeader, h.final, h.nonzero, h.inner, h.innerSent, h.innerHead, h.head, h.written, h.sent⟩
    obtain ⟨inner, hemit, hwritten, ht⟩ : ∃ inner, _ ∧ _ ∧ Transparent codec inner d := hmarked.emit
    rw [hflush, hemit]
    exact ⟨rfl, rfl, h.head, fun _ => hwritten.trans h.written.symm, ht⟩
  | drained h =>
    rw [GzipResponseWriter.flush, if_pos h.flushed]
    exact ⟨rfl, h⟩

theorem ended_iff {w : ResponseWriter} : w.ended = true ↔ w.sent.flatMap trailersOf ≠ [] := by
  rw [ResponseWriter.ended, List.any_eq_true, ne_eq, List.flatMap_eq_nil_iff, not_forall]
  refine exists_congr fun s => ?_
  cases s with
  | headers fields endStream => cases endStream <;> simp [trailersOf]
  | data p => simp [trailersOf]

theorem Transparent.ended {r : ResponseWriter} (h : Transparent codec r d) : r.ended = d.ended := by
  rw [Bool.eq_iff_iff, ended_iff, ended_iff, h.trailers]

theorem Drained.writeTrailers (h : Drained codec g d) (trailers : List HeaderField) :
    Drained codec { g with inner := (g.inner.writeTrailers trailers).1 } (d.writeTrailers trailers).1 := by
  have hended := h.transparent.ended
  cases hd : d.ended with
  | true =>
    rw [hd] at hended
    simp only [ResponseWriter.writeTrailers, ResponseWriter.send, hended, hd, if_true]
    exact h
  | false =>
    rw [hd] at hended
    rw [ResponseWriter.writeTrailers, ResponseWriter.writeTrailers, ResponseWriter.send_eq hended,
      ResponseWriter.send_eq hd]
    obtain ⟨hstatus, hfields, htrailers, hbody⟩ := h.transparent
    refine ⟨h.flushed, h.head, fun _ => h.written hd, ?_, ?_, ?_, ?_⟩
    · simpa [fieldsOf] using hstatus
    · simpa [fieldsOf] using hfields
    · simpa [trailersOf] using htrailers
    · simpa [fieldsOf, bodyOf] using hbody

theorem Drained.of_silent (h : Drained codec g d) {g' : GzipResponseWriter} {d' : ResponseWriter}
    (hg : g'.flushed = g.flushed ∧ g'.head = g.head ∧ g'.inner = g.inner) (hhead : d'.head = d.head)
    (hsent : d'.sent = d.sent ∨ d'.sent = d.sent ++ [.data []])
    (hwritten : d'.ended = false → d'.written = d.written ∧ d.ended = false) : Drained codec g' d' := by
  obtain ⟨hgf, hgh, hgi⟩ := hg
  refine ⟨hgf.trans h.flushed, by rw [hgh, hhead, h.head], fun he => ?_, ?_⟩
  · rw [hgi, (hwritten he).1, h.written (hwritten he).2]
  · obtain ⟨hstatus, hfields, htrailers, hbody⟩ := h.transparent
    rw [hgi]
    obtain hs | hs := hsent
    · exact ⟨hs ▸ hstatus, hs ▸ hfields, hs ▸ htrailers, hs ▸ hbody⟩
    · exact ⟨by simpa [hs, fieldsOf] using hstatus, by simpa [hs, fieldsOf] using hfields,
        by simpa [hs, trailersOf] using htrailers, by simpa [hs, fieldsOf, bodyOf] using hbody⟩

def content (w : ResponseWriter) (p : Bytes) : ResponseWriter :=
  if w.suppressContent then w else (w.send (.data p)).1

theorem send_ended {w : ResponseWriter} {s : Sent} (h : w.ended = true) : w.send s = (w, false) :=
  if_pos h

theorem content_ended {p : Bytes} (h : d.ended = true) : content d p = d := by
  rw [content, send_ended h]
  exact ite_self _

theorem write_fst {p : Bytes} : (d.write lib p).1 =
    content (if d.written then d else d.writeHeader lib 200) p := by
  simp only [ResponseWriter.write, content, apply_ite Prod.fst]

theorem ended_of_writeHeaders {status : Int} {headers : List HeaderField}
    (h : (d.writeHeaders lib status headers).2 = false) :
    (d.writeHeaders lib status headers).1.ended = true := by
  rw [ResponseWriter.writeHeaders] at h ⊢
  split at h
  · cases h
  · rw [if_neg ‹_›]
    rw [ResponseWriter.send] at h ⊢
    split at h
    case isTrue he =>
      rw [if_pos he]
      exact he
    case isFalse => cases h

theorem writeData_fst {p : Bytes} : (d.writeData lib p).1 =
    content (if d.written then d else (d.writeHeaders lib 200 []).1) p := by
  rw [ResponseWriter.writeData]
  cases hw : d.written with
  | true => simp only [if_true, Bool.not_true, Bool.false_eq_true, if_false, content, apply_ite Prod.fst]
  | false =>
    simp only [Bool.false_eq_true, if_false]
    cases hok : (d.writeHeaders lib 200 []).2 with
    | true => simp only [Bool.not_true, Bool.false_eq_true, if_false, content, apply_ite Prod.fst]
    | false => 
      rw [content_ended (ended_of_writeHeaders hok)]
      rfl

theorem Unwritten.latch_native (h : Unwritten g d) {status : Int} (hs : interimStatus status = false)
    (hz : status ≠ 0) (headers : List HeaderField) :
    Buffered lib { g with status, nativeHeaders := headers, wroteHeader := true }
      (d.writeHeaders lib status headers).1 := by
  rw [writeHeaders_respond h.written h.sent hs, respond_nil]
  refine ⟨rfl, hs, hz, h.inner ▸ h.written, h.inner ▸ h.sent, h.inner ▸ h.head, h.head, rfl, [], ?_, ?_⟩
  · rw [GzipResponseWriter.fields, if_neg (by simp [h.usedHTTP])]
    rfl
  · simp [h.buf]

theorem Unwritten.latch_http (h : Unwritten g d) {status : Int} (hs : interimStatus status = false)
    (hz : status ≠ 0) : Buffered lib { g with status, usedHTTP := true, wroteHeader := true }
      (d.writeHeader lib status) := by
  rw [writeHeader_respond h.written h.sent hs, respond_nil]
  refine ⟨rfl, hs, hz, h.inner ▸ h.written, h.inner ▸ h.sent, h.inner ▸ h.head, h.head, rfl, [], ?_, ?_⟩
  · rw [GzipResponseWriter.fields, if_pos rfl, ← h.inner]
    rfl
  · simp [h.buf]

theorem Buffered.append (h : Buffered lib g d) (p : Bytes) :
    Buffered lib { g with buf := g.buf ++ p } (content d p) := by
  obtain ⟨ps, hsent, hps⟩ := h.sent
  have hended : d.ended = false := by
    rw [← Bool.not_eq_true, ended_iff, (views_of_sent hsent).2.1]
    exact fun hne => hne rfl
  cases hh : d.head with
  | true =>
    have hg : g.head = true := h.head.trans hh
    rw [content, if_pos (by exact hh)]
    exact ⟨h.wroteHeader, h.final, h.nonzero, h.inner, h.innerSent, h.innerHead, h.head, h.written, ps,
      hsent, by simpa [hg] using hps⟩
  | false =>
    have hg : g.head = false := h.head.trans hh
    rw [content, if_neg (by simp [ResponseWriter.suppressContent, hh]), ResponseWriter.send_eq hended]
    refine ⟨h.wroteHeader, h.final, h.nonzero, h.inner, h.innerSent, h.innerHead, h.head, h.written,
      ps ++ [p], ?_, ?_⟩
    · rw [hsent]
      simp
      rfl
    · simpa [hg] using hps

theorem Unwritten.ended (h : Unwritten g d) : g.inner.ended = false := by
  rw [h.inner, ResponseWriter.ended, h.sent]
  rfl

theorem writeHeaders_silent {status : Int} {headers : List HeaderField}
    (h : d.ended = true ∨ d.written = true ∨ interimStatus status = true) :
    (d.writeHeaders lib status headers).1.sent = d.sent ∧
      (d.writeHeaders lib status headers).1.head = d.head ∧
      (d.ended = false → (d.writeHeaders lib status headers).1 = d) := by
  rw [ResponseWriter.writeHeaders]
  split
  · exact ⟨rfl, rfl, fun _ => rfl⟩
  · have he : d.ended = true := by simp_all
    rw [send_ended (by exact he)]
    exact ⟨rfl, rfl, fun hn => absurd (he.symm.trans hn) (by decide)⟩

theorem writeHeader_silent {status : Int}
    (h : d.ended = true ∨ d.written = true ∨ interimStatus status = true) :
    (d.writeHeader lib status).sent = d.sent ∧ (d.writeHeader lib status).head = d.head ∧
      (d.ended = false → d.writeHeader lib status = d) := by
  rw [ResponseWriter.writeHeader]
  split
  · exact ⟨rfl, rfl, fun _ => rfl⟩
  · have he : d.ended = true := by simp_all
    rw [send_ended (by exact he)]
    exact ⟨rfl, rfl, fun hn => absurd (he.symm.trans hn) (by decide)⟩

theorem Drained.of_header (h : Drained codec g d) {g' : GzipResponseWriter} {d' : ResponseWriter}
    (hg : g'.flushed = g.flushed ∧ g'.head = g.head ∧ g'.inner = g.inner)
    (hd : d'.sent = d.sent ∧ d'.head = d.head ∧ (d.ended = false → d' = d)) : Drained codec g' d' := by
  have hended : d'.ended = d.ended := by rw [ResponseWriter.ended, hd.1, ResponseWriter.ended]
  exact h.of_silent hg hd.2.1 (.inl hd.1) fun he =>
    ⟨by rw [hd.2.2 (hended ▸ he)], hended ▸ he⟩

theorem Drained.of_content (h : Drained codec g d) {g' : GzipResponseWriter} {d' : ResponseWriter}
    {p : Bytes} (hg : g'.flushed = g.flushed ∧ g'.head = g.head ∧ g'.inner = g.inner)
    (hd : d'.sent = d.sent ∧ d'.head = d.head ∧ (d.ended = false → d' = d))
    (hp : d.ended = true ∨ g.head = true ∨ p = []) : Drained codec g' (content d' p) := by
  have h' := h.of_header hg hd
  have hended : d'.ended = d.ended := by rw [ResponseWriter.ended, hd.1, ResponseWriter.ended]
  rw [content]
  split
  · exact h'
  · rename_i hh
    cases he : d.ended with
    | true =>
      rw [send_ended (hended.trans he)]
      exact h'
    | false =>
      have hnil : p = [] := by
        have := h.head.trans hd.2.1.symm
        simp_all [ResponseWriter.suppressContent]
      rw [ResponseWriter.send_eq (hended.trans he), hnil]
      exact h'.of_silent ⟨rfl, rfl, rfl⟩ rfl (.inr rfl) fun _ => ⟨rfl, hended.trans he⟩

theorem Simulates.flush_step (h : Simulates lib codec g d) :
    Simulates lib codec (g.call lib codec .flush) (direct lib d .flush) :=
  .drained h.flush.2

theorem Simulates.writeTrailers_step (h : Simulates lib codec g d) (trailers : List HeaderField) :
    Simulates lib codec (g.call lib codec (.writeTrailers trailers))
      (direct lib d (.writeTrailers trailers)) := by
  obtain ⟨hok, hdrained⟩ := h.flush
  refine .drained ?_
  simp only [GzipResponseWriter.call, GzipResponseWriter.writeTrailers, hok, Bool.not_true,
    Bool.false_eq_true, if_false]
  exact hdrained.writeTrailers trailers

theorem Unwritten.step (h : Unwritten g d) {c : Call} (hk : g.keeps c = true) :
    Simulates lib codec (g.call lib codec c) (direct lib d c) := by
  have hwritten : ¬d.written = true := by simp [h.written]
  have hwrote : ¬g.wroteHeader = true := by simp [h.wroteHeader]
  cases c with
  | writeHeaders status headers =>
    simp only [GzipResponseWriter.keeps, h.ended, h.flushed, h.wroteHeader, Bool.false_or,
      Bool.false_eq_true, if_false, Bool.and_eq_true, Bool.not_eq_true', bne_iff_ne] at hk
    rw [GzipResponseWriter.call, GzipResponseWriter.writeHeaders, if_neg hwrote]
    exact .buffered h.flushed (h.latch_native hk.1 hk.2 headers)
  | writeHeader status =>
    simp only [GzipResponseWriter.keeps, h.ended, h.flushed, h.wroteHeader, Bool.false_or,
      Bool.false_eq_true, if_false, Bool.and_eq_true, Bool.not_eq_true', bne_iff_ne] at hk
    rw [GzipResponseWriter.call, GzipResponseWriter.writeHeader, if_neg hwrote]
    exact .buffered h.flushed (h.latch_http hk.1 hk.2)
  | writeData p =>
    have hlatched : Buffered lib _ (d.writeHeaders lib 200 g.nativeHeaders).1 :=
      h.latch_native rfl (by decide) g.nativeHeaders
    have hnil : d.writeHeaders lib 200 g.nativeHeaders = d.writeHeaders lib 200 [] := by
      rw [h.nativeHeaders]
    rw [direct, writeData_fst, if_neg hwritten, GzipResponseWriter.call, GzipResponseWriter.writeData,
      if_neg hwrote, ← hnil]
    exact .buffered h.flushed (hlatched.append p)
  | write p =>
    have hlatched : Buffered lib _ (d.writeHeader lib 200) := h.latch_http rfl (by decide)
    rw [direct, write_fst, if_neg hwritten, GzipResponseWriter.call, GzipResponseWriter.write,
      if_neg hwrote]
    exact .buffered h.flushed (hlatched.append p)
  | flush => exact Simulates.flush_step (.unwritten h)
  | writeTrailers trailers => exact Simulates.writeTrailers_step (.unwritten h) trailers

theorem Buffered.step (hf : g.flushed = false) (h : Buffered lib g d) {c : Call} :
    Simulates lib codec (g.call lib codec c) (direct lib d c) := by
  cases c with
  | writeHeaders status headers =>
    rw [GzipResponseWriter.call, GzipResponseWriter.writeHeaders, if_pos h.wroteHeader, direct,
      ResponseWriter.writeHeaders, if_pos (by simp [h.written])]
    exact .buffered hf h
  | writeHeader status =>
    rw [GzipResponseWriter.call, GzipResponseWriter.writeHeader, if_pos h.wroteHeader, direct,
      ResponseWriter.writeHeader, if_pos (by simp [h.written])]
    exact .buffered hf h
  | writeData p =>
    rw [GzipResponseWriter.call, GzipResponseWriter.writeData, if_pos h.wroteHeader, direct,
      writeData_fst, if_pos h.written]
    exact .buffered hf (h.append p)
  | write p =>
    rw [GzipResponseWriter.call, GzipResponseWriter.write, if_pos h.wroteHeader, direct,
      write_fst, if_pos h.written]
    exact .buffered hf (h.append p)
  | flush => exact Simulates.flush_step (.buffered hf h)
  | writeTrailers trailers => exact Simulates.writeTrailers_step (.buffered hf h) trailers

theorem writeHeaders_wrapper {status : Int} {headers : List HeaderField} :
    (g.writeHeaders status headers).flushed = g.flushed ∧ (g.writeHeaders status headers).head = g.head ∧
      (g.writeHeaders status headers).inner = g.inner := by
  rw [GzipResponseWriter.writeHeaders]
  split <;> exact ⟨rfl, rfl, rfl⟩

theorem writeHeader_wrapper {status : Int} :
    (g.writeHeader status).flushed = g.flushed ∧ (g.writeHeader status).head = g.head ∧
      (g.writeHeader status).inner = g.inner := by
  rw [GzipResponseWriter.writeHeader]
  split <;> exact ⟨rfl, rfl, rfl⟩

theorem writeData_wrapper {p : Bytes} : (g.writeData p).flushed = g.flushed ∧
    (g.writeData p).head = g.head ∧ (g.writeData p).inner = g.inner := by
  cases hw : g.wroteHeader <;> simp [GzipResponseWriter.writeData, hw]

theorem write_wrapper {p : Bytes} : (g.write p).flushed = g.flushed ∧
    (g.write p).head = g.head ∧ (g.write p).inner = g.inner := by
  cases hw : g.wroteHeader <;> simp [GzipResponseWriter.write, hw]

theorem Drained.header_silent (h : Drained codec g d) {status : Int}
    (hk : (g.inner.ended || if g.flushed then g.inner.written || interimStatus status
      else g.wroteHeader || (!interimStatus status && status != 0)) = true) :
    d.ended = true ∨ d.written = true ∨ interimStatus status = true := by
  rw [h.flushed, h.transparent.ended] at hk
  cases he : d.ended with
  | true => exact .inl rfl
  | false =>
    rw [he, h.written he] at hk
    simpa using hk

theorem Drained.content_silent (h : Drained codec g d) {p : Bytes}
    (hk : (g.inner.ended || !g.flushed || (g.inner.written && (g.head || p == []))) = true) :
    (d.ended = true ∨ d.written = true) ∧ (d.ended = true ∨ g.head = true ∨ p = []) := by
  rw [h.flushed, h.transparent.ended] at hk
  cases he : d.ended with
  | true => exact ⟨.inl rfl, .inl rfl⟩
  | false =>
    rw [he, h.written he] at hk
    simpa using hk

theorem Drained.step (h : Drained codec g d) {c : Call} (hk : g.keeps c = true) :
    Simulates lib codec (g.call lib codec c) (direct lib d c) := by
  cases c with
  | writeHeaders status headers =>
    exact .drained (h.of_header writeHeaders_wrapper (writeHeaders_silent (h.header_silent hk)))
  | writeHeader status =>
    exact .drained (h.of_header writeHeader_wrapper (writeHeader_silent (h.header_silent hk)))
  | writeData p =>
    obtain ⟨hw, hp⟩ := h.content_silent hk
    rw [direct, writeData_fst]
    refine .drained (h.of_content writeData_wrapper ?_ hp)
    split
    · exact ⟨rfl, rfl, fun _ => rfl⟩
    · exact writeHeaders_silent (hw.imp_right .inl)
  | write p =>
    obtain ⟨hw, hp⟩ := h.content_silent hk
    rw [direct, write_fst]
    refine .drained (h.of_content write_wrapper ?_ hp)
    split
    · exact ⟨rfl, rfl, fun _ => rfl⟩
    · exact writeHeader_silent (hw.imp_right .inl)
  | flush => exact Simulates.flush_step (.drained h)
  | writeTrailers trailers => exact Simulates.writeTrailers_step (.drained h) trailers

theorem Simulates.step (h : Simulates lib codec g d) {c : Call} (hk : g.keeps c = true) :
    Simulates lib codec (g.call lib codec c) (direct lib d c) := by
  cases h with
  | unwritten h => exact h.step hk
  | buffered hf h => exact h.step hf
  | drained h => exact h.step hk

theorem Simulates.run (h : Simulates lib codec g d) {calls : List Call} (hk : g.Keeps lib codec calls) :
    Simulates lib codec (calls.foldl (GzipResponseWriter.call lib codec) g)
      (calls.foldl (direct lib) d) := by
  induction calls generalizing g d with
  | nil => exact h
  | cons c calls ih => exact ih (h.step hk.1) hk.2

def plainCodec : Codec where
  gzipCompress src _ := some (0x1f :: src)
  gunzip out := some out.tail
  inverts := by
    rintro src level out ⟨⟩
    rfl

def acceptingGzip : List HeaderField :=
  [{ name := ascii "accept-encoding", value := some (ascii "br, gzip") }]

end Simulation

end PoseidonServer.Middleware
