import Mathlib.Data.List.TakeWhile
import PoseidonServer.Server.HTTPRequest
import PoseidonServer.Server.Response

/-! The adapters between `http.Handler` and `Handler`, one behind the other. -/

namespace PoseidonServer.Server

open HttpFields Http3

/-- The name of a field as `http.Header` keeps it: a token in canonical form. -/
def FieldName (k : Bytes) : Prop := k ≠ [] ∧ k.all validHeaderFieldByte = true ∧ canonicalKey k = k

/-- What `http.Header` asks of its users: the keys are distinct, canonical and ASCII. -/
structure HeaderMap.Canonical (h : HeaderMap) : Prop where
  nodup : (h.map (·.1)).Nodup
  canonical : ∀ e ∈ h, canonicalKey e.1 = e.1
  ascii : ∀ e ∈ h, ∀ c ∈ e.1, c < 0x80

namespace HeaderMap

def pairs (h : HeaderMap) : Header := h.flatMap fun (k, vv) => vv.map fun v => (k, v)

def add (h : HeaderMap) (f : Bytes × Bytes) : HeaderMap := h ++ [(canonicalKey f.1, [f.2])]

end HeaderMap

/-- An `http.Request` as a server of `net/http` hands it over. -/
structure ServerRequest where
  method : Bytes
  host : Bytes
  requestURI : Bytes
  /-- Its `target` is what `URL.RequestURI` answers. -/
  url : URL
  rawQuery : Bytes
  tls : Bool
  header : HeaderMap
  header_form : header.Canonical
  body : Option Bytes

structure View where
  method : Bytes
  host : Bytes
  target : Bytes
  header : Bytes → List Bytes
  body : Bytes

/-- What a handler does to its `http.ResponseWriter`; `header` gives what it has made of the map. -/
inductive Act
  | header (h : HeaderMap)
  | writeHeader (status : Int)
  | write (p : Bytes)

/-- An `http.Handler`. A header map has the form that it asks for, and WriteHeader panics unless the
status has three digits. -/
structure HTTPHandler where
  acts : View → List Act
  header_form : ∀ v h, .header h ∈ acts v → h.Canonical
  status_form : ∀ v s, .writeHeader s ∈ acts v → 100 ≤ s ∧ s ≤ 999

/-- A `Handler`: the octets are those of `BodyReader`, and the result is the error. -/
abbrev PoseidonHandler := Request → Bytes → ResponseWriter → ResponseWriter × Option Bytes

structure Outer where
  header : HeaderMap := []
  sent : Option (Int × HeaderMap) := none
  body : Bytes := []

namespace Outer

/-- An informational status is no final one, but for the 101 of HTTP/1.1. -/
def latches (http1 : Bool) (status : Int) : Bool := !interimStatus status || (http1 && status == 101)

def writeHeader (http1 : Bool) (o : Outer) (status : Int) : Outer :=
  if o.sent.isSome || !latches http1 status then o else { o with sent := some (status, o.header) }

def step (http1 : Bool) (o : Outer) : Act → Outer
  | .header h => { o with header := h }
  | .writeHeader status => o.writeHeader http1 status
  | .write p =>
    let o := o.writeHeader http1 200
    { o with body := o.body ++ p }

def run (http1 : Bool) (o : Outer) (acts : List Act) : Outer := acts.foldl (step http1) o

def response (o : Outer) : Int × HeaderMap := o.sent.getD (200, o.header)

end Outer

def ResponseWriter.step (lib : Lib) (w : ResponseWriter) : Act → ResponseWriter
  | .header h => { w with headers := h }
  | .writeHeader status => w.writeHeader lib status
  | .write p => (w.write lib p).1

def ResponseWriter.run (lib : Lib) (w : ResponseWriter) (acts : List Act) : ResponseWriter :=
  acts.foldl (step lib) w

/-- The view of a request that `NewHTTPRequest` has made: a fragment is no part of the target. -/
def HTTPRequest.view (reader : Bytes) (r : HTTPRequest) : View where
  method := r.method
  host := r.url.host
  target := r.url.target.takeWhile (· ≠ 0x23)
  header := r.header.values
  body := if r.streamed then reader else r.body

def fromHTTPHandler (lib : Lib) (new : NewRequest) (h : HTTPHandler) : PoseidonHandler :=
  fun req reader w => match newHTTPRequest new req with
    | .error _ => ((w.writeHeaders lib 400 []).1, none)
    | .ok r => (w.run lib (h.acts (r.view reader)), none)

namespace ServerRequest

variable (r : ServerRequest)

def scheme : Bytes :=
  if r.url.scheme = [] then ascii (if r.tls then "https" else "http") else r.url.scheme

def target : Bytes := if r.requestURI.head? = some 0x2f then r.requestURI else r.url.target

/-- `HTTPRequestToRequest`. -/
def toRequest (lib : Lib) : Request where
  headers := (lib.range r.header).pairs.map fun f => { name := f.1, value := some f.2 }
  streamID := 0
  method := r.method
  path := r.target
  rawQuery := r.rawQuery
  scheme := r.scheme
  authority := if r.host = [] then r.url.host else r.host
  streamed := r.body.isSome

def view : View where
  method := r.method
  host := r.host
  target := r.target
  header := r.header.values
  body := r.body.getD []

end ServerRequest

def headerFields (sent : List Sent) : List HeaderField :=
  sent.flatMap fun | .headers fields false => fields | _ => []

def bufferedTrailers (sent : List Sent) : List HeaderField :=
  sent.flatMap fun | .headers fields true => fields | _ => []

def bufferedBody (sent : List Sent) : Bytes := sent.flatMap fun | .data p => p | _ => []

def httpError (msg : Bytes) : List Act :=
  [.header [(ascii "Content-Type", [ascii "text/plain; charset=utf-8"]),
    (ascii "X-Content-Type-Options", [ascii "nosniff"])], .writeHeader 500, .write (msg ++ [0x0a])]

def sectionPairs (fields : List HeaderField) : Header :=
  (fields.filter (·.name.head? ≠ some 0x3a)).map fun f => (f.name, f.val)

def replayed (lib : Lib) (w : ResponseWriter) : Header :=
  (lib.range w.headers).pairs ++ sectionPairs (headerFields w.sent)

def trailerPrefix : Bytes := ascii "Trailer:"

/-- What `ToHTTPHandler` does when the handler has returned no error. -/
def replay (lib : Lib) (w : ResponseWriter) : List Act :=
  let header := (replayed lib w).foldl HeaderMap.add []
  let trailers := (bufferedTrailers w.sent).filter fun f => f.name ≠ [] && f.name.head? ≠ some 0x3a
  [.header header] ++
    (if w.status > 0 then [.writeHeader w.status] else []) ++
    (if bufferedBody w.sent ≠ [] then [.write (bufferedBody w.sent)] else []) ++
    (if trailers ≠ [] then [.header (trailers.foldl (fun h f =>
      HeaderMap.set h (trailerPrefix ++ f.name) f.val) header)] else [])

def toHTTPHandler (lib : Lib) (h : PoseidonHandler) (r : ServerRequest) : List Act :=
  match h (r.toRequest lib) (r.body.getD []) { head := false } with
  | (_, some msg) => httpError msg
  | (w, none) => replay lib w

section RoundTrip

variable (lib : Lib) (new : NewRequest) (http1 : Bool) (h : HTTPHandler) (r : ServerRequest)

def direct : Outer := Outer.run http1 {} (h.acts r.view)

def through : Outer := Outer.run http1 {} (toHTTPHandler lib (fromHTTPHandler lib new h) r)

/-- A Date is compared only if the handler has set one. -/
structure RoundTrips : Prop where
  request : ∃ r', newHTTPRequest new (r.toRequest lib) = .ok r' ∧ r'.view (r.body.getD []) = r.view
  status : (through lib new http1 h r).response.1 = (direct http1 h r).response.1
  header : ∀ k, FieldName k → (k = ascii "Date" → (direct http1 h r).response.2.values k ≠ []) →
    (through lib new http1 h r).response.2.values k = (direct http1 h r).response.2.values k
  body : (through lib new http1 h r).body = (direct http1 h r).body

/-- The URL made of scheme, host and target is accepted and read as it was put together. -/
def Reparsed : Prop := ∃ u, new.run r.method (r.scheme ++ ascii "://" ++ (r.host ++ r.target)) = some u ∧
  u.host = r.host ∧ u.target.takeWhile (· ≠ 0x23) = r.target

end RoundTrip

/-- Of the header `sent` that a handler sends, `left` at its end, the writer repeats nothing. -/
structure SentOnce (status : Int) (sent left : HeaderMap) : Prop where
  /-- What the writer sends as well is gone by the end. -/
  gone : ∀ k, FieldName k → prohibitedInResponse (lowerASCII k) = false →
    (k = ascii "Date" → sent.values k ≠ []) → left.values k = []
  /-- What the writer does not send is left as it was. -/
  kept : ∀ k, FieldName k → prohibitedInResponse (lowerASCII k) = true → left.values k = sent.values k
  date : sent.values (ascii "Date") ≠ [] → dateRequired status = true → sent.get (ascii "Date") ≠ []

/-- The response has not been started, or it is a final one whose header goes out once. -/
def Settled (o : Outer) : Prop :=
  ∀ s sent, o.sent = some (s, sent) → s ≠ 101 ∧ SentOnce s sent o.header

section Names

def canonicalOctet (upper : Bool) (c : UInt8) : UInt8 :=
  if upper && 0x61 ≤ c && c ≤ 0x7a then c - 0x20
  else if !upper && 0x41 ≤ c && c ≤ 0x5a then c + 0x20 else c

def lowerOctet (c : UInt8) : UInt8 := if 0x41 ≤ c && c ≤ 0x5a then c + 0x20 else c

theorem valid_lowerOctet : ∀ c, validHeaderFieldByte (lowerOctet c) = validHeaderFieldByte c :=
  forall_octet (by decide +kernel)

theorem valid_canonicalOctet (upper : Bool) :
    ∀ c, validHeaderFieldByte (canonicalOctet upper c) = validHeaderFieldByte c :=
  forall_octet (by cases upper <;> decide +kernel)

theorem canonicalOctet_lowerOctet (upper : Bool) :
    ∀ c, canonicalOctet upper (lowerOctet c) = canonicalOctet upper c :=
  forall_octet (by cases upper <;> decide +kernel)

theorem go_cons (upper : Bool) (c : UInt8) (cs : Bytes) : canonicalKey.go upper (c :: cs) =
    canonicalOctet upper c :: canonicalKey.go (canonicalOctet upper c == 0x2d) cs := rfl

theorem valid_lowerASCII (k : Bytes) :
    (lowerASCII k).all validHeaderFieldByte = k.all validHeaderFieldByte := by
  induction k with
  | nil => rfl
  | cons c k ih =>
    change (lowerOctet c :: lowerASCII k).all _ = _
    rw [List.all_cons, List.all_cons, valid_lowerOctet, ih]

theorem valid_go (upper : Bool) (k : Bytes) :
    (canonicalKey.go upper k).all validHeaderFieldByte = k.all validHeaderFieldByte := by
  induction k generalizing upper with
  | nil => rfl
  | cons c k ih => rw [go_cons, List.all_cons, List.all_cons, valid_canonicalOctet, ih]

theorem valid_canonicalKey (k : Bytes) :
    (canonicalKey k).all validHeaderFieldByte = k.all validHeaderFieldByte := by
  unfold canonicalKey
  split
  · exact valid_go true k
  · rfl

theorem go_lowerASCII (upper : Bool) (k : Bytes) :
    canonicalKey.go upper (lowerASCII k) = canonicalKey.go upper k := by
  induction k generalizing upper with
  | nil => rfl
  | cons c k ih =>
    change canonicalKey.go upper (lowerOctet c :: lowerASCII k) = _
    rw [go_cons, go_cons, canonicalOctet_lowerOctet, ih]

theorem canonicalKey_lowerASCII {k : Bytes} (h : k.all validHeaderFieldByte = true) :
    canonicalKey (lowerASCII k) = canonicalKey k := by
  rw [canonicalKey, canonicalKey, valid_lowerASCII, if_pos h, if_pos h, go_lowerASCII]

end Names

namespace HeaderMap

variable {m : HeaderMap} {n : Bytes}

theorem values_cons (k : Bytes) (vv : List Bytes) :
    values ((k, vv) :: m) n = (if k = n then vv else []) ++ m.values n := by
  by_cases hk : k = n <;> simp [values, hk]

theorem values_append (l : HeaderMap) : values (m ++ l) n = m.values n ++ l.values n := by
  simp [values]

theorem values_pairs : Header.values m.pairs n = m.values n := by
  induction m with
  | nil => rfl
  | cons e m ih =>
    obtain ⟨k, vv⟩ := e
    rw [values_cons, ← ih, pairs, Header.values, Header.values, List.flatMap_cons, List.filter_append,
      List.map_append]
    congr 1
    by_cases hk : k = n
    · simp [hk, List.filter_map, Function.comp_def]
    · simp [hk, List.filter_map, Function.comp_def]

theorem values_addAll (ps : Header) : (ps.foldl add m).values n =
    m.values n ++ (ps.filter (canonicalKey ·.1 = n)).map (·.2) := by
  induction ps generalizing m with
  | nil => simp
  | cons f ps ih =>
    rw [List.foldl_cons, ih, add, values_append, values_cons, List.filter_cons]
    by_cases hf : canonicalKey f.1 = n <;> simp [hf, values]

theorem filter_length (h : m.Canonical) : (m.filter (·.1 = n)).length ≤ 1 := by
  have hnodup : ((m.filter (·.1 = n)).map (·.1)).Nodup := h.nodup.sublist (m.filter_sublist.map _)
  have hall : ∀ k ∈ (m.filter (·.1 = n)).map (·.1), k = n := by simp
  rw [List.eq_replicate_of_mem hall, List.nodup_replicate, List.length_map] at hnodup
  exact hnodup

theorem values_range (lib : Lib) (h : m.Canonical) : (lib.range m).values n = m.values n := by
  have hperm := (lib.range_perm m).filter (·.1 = n)
  have hlen := filter_length (n := n) h
  unfold values
  generalize m.filter (·.1 = n) = l at hperm hlen
  cases l with
  | nil => rw [hperm.eq_nil]
  | cons e l =>
    obtain rfl : l = [] := List.eq_nil_of_length_eq_zero (by simpa using hlen)
    rw [List.perm_singleton.1 hperm]

end HeaderMap

def named (n : Bytes) (ps : Header) : List Bytes := (ps.filter (canonicalKey ·.1 = n)).map (·.2)

theorem named_append {n : Bytes} (ps qs : Header) : named n (ps ++ qs) = named n ps ++ named n qs := by
  simp [named]

theorem named_pairs {m : HeaderMap} {n : Bytes} (h : ∀ e ∈ m, canonicalKey e.1 = e.1) :
    named n m.pairs = m.values n := by
  rw [← HeaderMap.values_pairs, named, Header.values]
  refine congrArg _ (List.filter_congr fun f hf => ?_)
  obtain ⟨e, he, hf⟩ := List.mem_flatMap.1 hf
  obtain ⟨v, -, rfl⟩ := List.mem_map.1 hf
  rw [h e he]

theorem canonicalKey_lower_eq {k n : Bytes} (hk : canonicalKey k = k) (hn : FieldName n) :
    canonicalKey (lowerASCII k) = n ↔ k = n := by
  by_cases hv : k.all validHeaderFieldByte = true
  · rw [canonicalKey_lowerASCII hv, hk]
  · constructor
    · intro heq
      have := hn.2.1
      rw [← heq, valid_canonicalKey, valid_lowerASCII] at this
      exact absurd this hv
    · rintro rfl
      exact absurd hn.2.1 hv

theorem head_lowerASCII {n : Bytes} (hn : FieldName n) : (lowerASCII n).head? ≠ some 0x3a := by
  intro h
  have hvalid := hn.2.1
  rw [← valid_lowerASCII, List.all_eq_true] at hvalid
  exact absurd (hvalid 0x3a (List.mem_of_head? h)) (by decide)

theorem sectionPairs_append (fs gs : List HeaderField) :
    sectionPairs (fs ++ gs) = sectionPairs fs ++ sectionPairs gs := by
  simp [sectionPairs]

theorem named_fields (lib : Lib) {m : HeaderMap} {n : Bytes} (hn : FieldName n)
    (hm : ∀ e ∈ m, canonicalKey e.1 = e.1 ∧ ∀ c ∈ e.1, c < 0x80) :
    named n (sectionPairs (m.fields lib.toLower)) =
      if prohibitedInResponse (lowerASCII n) then [] else m.values n := by
  induction m with
  | nil => simp [HeaderMap.fields, sectionPairs, named, HeaderMap.values]
  | cons e m ih =>
    obtain ⟨k, vv⟩ := e
    obtain ⟨hk, hascii⟩ := hm (k, vv) (by simp)
    have ih := ih fun e he => hm e (by simp [he])
    have hfields : HeaderMap.fields lib.toLower ((k, vv) :: m) =
        (if prohibitedInResponse (lowerASCII k) then []
          else vv.map fun v => { name := lowerASCII k, value := some v }) ++
            HeaderMap.fields lib.toLower m := by
      have hlower : lib.toLower k = lowerASCII k := lib.toLower_ascii hascii
      simp only [HeaderMap.fields, List.flatMap_cons, hlower]
    rw [hfields, sectionPairs_append, named_append, ih, HeaderMap.values_cons]
    by_cases hkn : k = n
    · subst hkn
      cases hp : prohibitedInResponse (lowerASCII k) with
      | true => simp [sectionPairs, named]
      | false =>
        have hname := (canonicalKey_lower_eq hk hn).2 rfl
        have hhead := head_lowerASCII hn
        simp [sectionPairs, named, List.filter_map, Function.comp_def, HeaderField.val, hname, hhead]
    · have hname : canonicalKey (lowerASCII k) ≠ n := fun h => hkn ((canonicalKey_lower_eq hk hn).1 h)
      have hnone : named n (sectionPairs (if prohibitedInResponse (lowerASCII k) then []
          else vv.map fun v => { name := lowerASCII k, value := some v })) = [] := by
        split
        · rfl
        · simp [sectionPairs, named, List.filter_map, Function.comp_def, hname]
      rw [hnone]
      simp [hkn]

theorem ServerRequest.scheme_ne (r : ServerRequest) : r.scheme ≠ [] := by
  unfold ServerRequest.scheme
  split
  · split <;> simp [ascii]
  · assumption

theorem mapHeaders_plain {header : Header} {fs : List HeaderField}
    (h : ∀ f ∈ fs, f.name ≠ ascii "cookie") :
    mapHeaders header [] fs = (header ++ fs.map fun f => (canonicalKey f.name, f.val), []) := by
  induction fs generalizing header with
  | nil => simp [mapHeaders]
  | cons f fs ih =>
    rw [mapHeaders, if_neg (h f (by simp)), ih fun g hg => h g (by simp [hg])]
    simp

section Request

variable {lib : Lib} {new : NewRequest} {r : ServerRequest}

theorem mapHeaders_toRequest : mapHeaders [] [] (r.toRequest lib).headers =
    ((lib.range r.header).pairs, []) := by
  have hcanonical : ∀ f ∈ (lib.range r.header).pairs, canonicalKey f.1 = f.1 := by
    intro f hf
    obtain ⟨e, he, hf⟩ := List.mem_flatMap.1 hf
    obtain ⟨v, -, rfl⟩ := List.mem_map.1 hf
    exact r.header_form.canonical e ((lib.range_perm _).mem_iff.1 he)
  rw [mapHeaders_plain]
  · refine Prod.ext ?_ rfl
    simp only [ServerRequest.toRequest, List.nil_append, List.map_map]
    conv_rhs => rw [← List.map_id (lib.range r.header).pairs]
    exact List.map_congr_left fun f hf => Prod.ext (hcanonical f hf) rfl
  · intro f hf hcookie
    obtain ⟨p, hp, rfl⟩ := List.mem_map.1 hf
    have hcookie : p.1 = ascii "cookie" := hcookie
    have := hcanonical p hp
    rw [hcookie] at this
    exact absurd this (by decide)

theorem request_iff (hhost : r.host ≠ []) :
    (∃ r', newHTTPRequest new (r.toRequest lib) = .ok r' ∧ r'.view (r.body.getD []) = r.view) ↔
      Reparsed new r := by
  have hscheme := r.scheme_ne
  have hhead : (fun k => Header.values (lib.range r.header).pairs k) = r.header.values := by
    funext k
    rw [HeaderMap.values_pairs, HeaderMap.values_range lib r.header_form]
  have hreq : newHTTPRequest new (r.toRequest lib) =
      (new.run r.method (r.scheme ++ ascii "://" ++ (r.host ++ r.target))).elim
        (.error .newRequest) fun u => .ok {
        method := r.method
        url := u
        header := (lib.range r.header).pairs
        body := []
        streamed := r.body.isSome
        contentLength := if r.body.isSome then -1 else 0 } := by
    have hscheme' : (if r.scheme = [] then ascii "http" else r.scheme) = r.scheme := if_neg hscheme
    have hauth : (r.toRequest lib).authority = r.host := if_neg hhost
    have hmap := @mapHeaders_toRequest lib r
    have hs : (r.toRequest lib).scheme = r.scheme := rfl
    have hm : (r.toRequest lib).method = r.method := rfl
    have ht : (r.toRequest lib).path = r.target := rfl
    unfold newHTTPRequest
    rw [hmap, hauth, hs, hscheme', hm, ht, if_neg fun h => hhost h.1]
    cases new.run r.method (r.scheme ++ ascii "://" ++ (r.host ++ r.target)) with
    | none => rfl
    | some u => cases hb : r.body <;> simp [ServerRequest.toRequest, hb]
  rw [hreq, Reparsed]
  cases new.run r.method (r.scheme ++ ascii "://" ++ (r.host ++ r.target)) with
  | none => simp
  | some u =>
    have hbody : (if r.body.isSome then r.body.getD [] else []) = r.body.getD [] := by
      cases r.body <;> rfl
    simp only [Option.elim_some, Except.ok.injEq, Option.some.injEq, exists_eq_left', HTTPRequest.view,
      ServerRequest.view, View.mk.injEq, true_and, hbody, and_true]
    exact and_congr_right fun _ => and_iff_left hhead

end Request

section Run

variable {lib : Lib} {http1 : Bool} {w : ResponseWriter} {o : Outer}

structure Mirrors (lib : Lib) (w : ResponseWriter) (o : Outer) : Prop where
  headers : w.headers = o.header
  form : o.header.Canonical
  head : w.head = false
  written : w.written = o.sent.isSome
  fresh : o.sent = none → w.status = 0 ∧ w.sent = [] ∧ o.body = []
  sent : ∀ s m, o.sent = some (s, m) → 200 ≤ s ∧ m.Canonical ∧ w.status = s ∧
    ∃ ps : List Bytes, w.sent = .headers (ResponseWriter.headerSection lib s m) false :: ps.map .data ∧
      o.body = ps.flatten

theorem Mirrors.ended (h : Mirrors lib w o) : w.ended = false := by
  cases ho : o.sent with
  | none => simp [ResponseWriter.ended, (h.fresh ho).2.1]
  | some p =>
    obtain ⟨-, -, -, ps, hsent, -⟩ := h.sent p.1 p.2 ho
    simp [ResponseWriter.ended, hsent]

theorem Mirrors.writeHeader (h : Mirrors lib w o) {s : Int} (hs : 100 ≤ s) :
    Mirrors lib (w.writeHeader lib s) (o.writeHeader false s) := by
  have hlatch : Outer.latches false s = !interimStatus s := by simp [Outer.latches]
  cases hi : interimStatus s with
  | true =>
    have hw : w.writeHeader lib s = w := by simp [ResponseWriter.writeHeader, hi]
    have ho : o.writeHeader false s = o := by simp [Outer.writeHeader, hlatch, hi]
    rwa [hw, ho]
  | false =>
    cases ho : o.sent with
    | some p =>
      have hw : w.writeHeader lib s = w := by simp [ResponseWriter.writeHeader, h.written, ho]
      have ho : o.writeHeader false s = o := by simp [Outer.writeHeader, ho]
      rwa [hw, ho]
    | none =>
      have hwritten : w.written = false := by simp [h.written, ho]
      obtain ⟨-, hsent, hbody⟩ := h.fresh ho
      rw [ResponseWriter.writeHeader_eq hwritten h.ended hi]
      have ho : o.writeHeader false s = { o with sent := some (s, o.header) } := by
        simp [Outer.writeHeader, ho, hlatch, hi]
      rw [ho]
      refine ⟨h.headers, h.form, h.head, rfl, by simp, fun t m ht => ?_⟩
      cases ht
      simp only [interimStatus, Bool.and_eq_false_iff, decide_eq_false_iff_not] at hi
      refine ⟨by omega, h.form, rfl, [], ?_, by simp [hbody]⟩
      simp [hsent, h.headers]

theorem Mirrors.write (h : Mirrors lib w o) (p : Bytes) :
    Mirrors lib (w.write lib p).1 (o.step false (.write p)) := by
  have h₁ := h.writeHeader (s := 200) (by decide)
  have hw : (if w.written then w else w.writeHeader lib 200) = w.writeHeader lib 200 := by
    split
    · simp [ResponseWriter.writeHeader, *]
    · rfl
  obtain ⟨⟨s, m⟩, ho⟩ : ∃ p, (o.writeHeader false 200).sent = some p := by
    rw [← Option.isSome_iff_exists, Outer.writeHeader]
    cases hsent : o.sent <;> simp [Outer.latches, interimStatus, hsent]
  obtain ⟨hs, hm, hstatus, ps, hsent, hbody⟩ := h₁.sent s m ho
  have hrun : (w.write lib p).1 =
      { w.writeHeader lib 200 with sent := (w.writeHeader lib 200).sent ++ [.data p] } := by
    simp only [ResponseWriter.write, hw, ResponseWriter.suppressContent, h₁.head, Bool.false_eq_true,
      if_false, ResponseWriter.send_eq h₁.ended]
  rw [hrun]
  refine ⟨h₁.headers, h₁.form, h₁.head, h₁.written, fun hnone => ?_, fun t m' ht => ?_⟩
  · exact absurd (ho.symm.trans hnone) (by simp)
  · have ht : some (s, m) = some (t, m') := ho.symm.trans ht
    cases ht
    refine ⟨hs, hm, hstatus, ps ++ [p], ?_, ?_⟩
    · simp [hsent]
    · simp [Outer.step, hbody]

theorem Mirrors.run (h : Mirrors lib w o) {acts : List Act}
    (hheader : ∀ m, .header m ∈ acts → m.Canonical) (hstatus : ∀ s, .writeHeader s ∈ acts → 100 ≤ s) :
    Mirrors lib (w.run lib acts) (o.run false acts) := by
  induction acts generalizing w o with
  | nil => exact h
  | cons a acts ih =>
    refine ih ?_ (fun m hm => hheader m (by simp [hm])) fun s hs => hstatus s (by simp [hs])
    cases a with
    | header m =>
      exact { h with headers := rfl, form := hheader m (by simp) }
    | writeHeader s => exact h.writeHeader (hstatus s (by simp))
    | write p => exact h.write p

theorem Outer.sent_run {acts : List Act} {p : Int × HeaderMap} (h : o.sent = some p) :
    (o.run http1 acts).sent = some p := by
  induction acts generalizing o with
  | nil => exact h
  | cons a acts ih =>
    refine ih ?_
    cases a <;> simp [Outer.step, Outer.writeHeader, h]

theorem Outer.run_eq {acts : List Act} (h : ∀ m, (o.run true acts).sent ≠ some (101, m)) :
    o.run true acts = o.run false acts := by
  induction acts generalizing o with
  | nil => rfl
  | cons a acts ih =>
    have hstep : o.step true a = o.step false a := by
      cases a with
      | header m => rfl
      | write p => rfl
      | writeHeader s =>
        by_cases hs : s = 101
        · subst hs
          cases ho : o.sent with
          | some p => simp [Outer.step, Outer.writeHeader, ho]
          | none =>
            refine absurd (Outer.sent_run (o := o.step true (.writeHeader 101)) ?_) (h o.header)
            simp [Outer.step, Outer.writeHeader, ho, Outer.latches, interimStatus]
        · have : Outer.latches true s = Outer.latches false s := by simp [Outer.latches, hs]
          simp only [Outer.step, Outer.writeHeader, this]
    change (o.step true a).run true acts = (o.step false a).run false acts
    rw [← hstep]
    exact ih h

abbrev replayedHeader (lib : Lib) (w : ResponseWriter) : HeaderMap :=
  (replayed lib w).foldl HeaderMap.add []

theorem Mirrors.replay_none (h : Mirrors lib w o) (ho : o.sent = none) :
    Outer.run http1 {} (replay lib w) = { header := replayedHeader lib w } := by
  obtain ⟨hstatus, hsent, -⟩ := h.fresh ho
  simp [replay, hstatus, hsent, bufferedBody, bufferedTrailers, Outer.run, Outer.step]

theorem Mirrors.replay_some (h : Mirrors lib w o) {s : Int} {m : HeaderMap}
    (ho : o.sent = some (s, m)) : Outer.run http1 {} (replay lib w) =
      { header := replayedHeader lib w, sent := some (s, replayedHeader lib w), body := o.body } := by
  obtain ⟨hs, -, hstatus, ps, hsent, hbody⟩ := h.sent s m ho
  have hbuf : bufferedBody w.sent = o.body := by
    simp [bufferedBody, hsent, hbody, List.flatMap_map, List.flatMap_id']
  have htrailers : bufferedTrailers w.sent = [] := by
    simp [bufferedTrailers, hsent]
  have hpos : 0 < s := by omega
  have hlatch : Outer.latches http1 s = true := by
    have : ¬s < 200 := by omega
    simp [Outer.latches, interimStatus, this]
  by_cases hnil : o.body = [] <;>
    simp [replay, hstatus, hbuf, htrailers, hpos, hnil, Outer.run, Outer.step, Outer.writeHeader, hlatch]

theorem Mirrors.replay_response (h : Mirrors lib w o) :
    (Outer.run http1 {} (replay lib w)).response = (o.response.1, replayedHeader lib w) ∧
      (Outer.run http1 {} (replay lib w)).body = o.body := by
  cases ho : o.sent with
  | none =>
    rw [h.replay_none ho]
    exact ⟨by simp [Outer.response, ho], (h.fresh ho).2.2.symm⟩
  | some p =>
    rw [h.replay_some ho]
    exact ⟨by simp [Outer.response, ho], rfl⟩

theorem Mirrors.status_ne (h : Mirrors lib w o) : o.response.1 ≠ 101 := by
  cases ho : o.sent with
  | none => simp [Outer.response, ho]
  | some p =>
    have := (h.sent p.1 p.2 ho).1
    have hp : o.response.1 = p.1 := by simp [Outer.response, ho]
    omega

def echoed (lib : Lib) (s : Int) (m : HeaderMap) (n : Bytes) : List Bytes :=
  (if (dateRequired s && m.get (ascii "Date") == []) ∧ n = ascii "Date" then [lib.date] else []) ++
    if prohibitedInResponse (lowerASCII n) then [] else m.values n

theorem Mirrors.values_replayed (h : Mirrors lib w o) {n : Bytes} (hn : FieldName n) :
    (replayedHeader lib w).values n =
      o.header.values n ++ (o.sent.elim [] fun p => echoed lib p.1 p.2 n) := by
  have hcanonical {m : HeaderMap} (hm : m.Canonical) : ∀ e ∈ lib.range m, canonicalKey e.1 = e.1 :=
    fun e he => hm.canonical e ((lib.range_perm m).mem_iff.1 he)
  have hfirst : named n (lib.range o.header).pairs = o.header.values n := by
    rw [named_pairs (hcanonical h.form), HeaderMap.values_range lib h.form]
  have hsplit : (replayedHeader lib w).values n = named n (replayed lib w) :=
    HeaderMap.values_addAll _
  rw [hsplit, replayed, named_append, h.headers, hfirst]
  congr 1
  cases ho : o.sent with
  | none =>
    rw [(h.fresh ho).2.1]
    rfl
  | some p =>
    obtain ⟨s, m⟩ := p
    obtain ⟨-, hm, -, ps, hsent, -⟩ := h.sent s m ho
    have hfields : headerFields w.sent = ResponseWriter.headerSection lib s m := by
      simp [headerFields, hsent]
    have hdate : named n (sectionPairs [ResponseWriter.dateField lib]) =
        if n = ascii "Date" then [lib.date] else [] := by
      have hname : canonicalKey (ascii "date") = ascii "Date" := by decide
      have hhead : (ascii "date").head? ≠ some 0x3a := by decide
      have hpairs : sectionPairs [ResponseWriter.dateField lib] = [(ascii "date", lib.date)] := by
        simp [sectionPairs, ResponseWriter.dateField, hhead, HeaderField.val]
      rw [hpairs, named, List.filter_cons, hname]
      by_cases hn : n = ascii "Date"
      · simp [hn]
      · simp [hn, Ne.symm hn]
    have hrest := named_fields lib hn fun e he =>
      have he := (lib.range_perm m).mem_iff.1 he
      ⟨hm.canonical e he, hm.ascii e he⟩
    have hcons : sectionPairs (ResponseWriter.headerSection lib s m) =
        sectionPairs (if dateRequired s && m.get (ascii "Date") == [] then
          [ResponseWriter.dateField lib] else []) ++ sectionPairs ((lib.range m).fields lib.toLower) := by
      rw [← sectionPairs_append]
      rfl
    rw [hfields, hcons, named_append, hrest, HeaderMap.values_range lib hm]
    change _ = echoed lib s m n
    rw [echoed]
    congr 1
    cases hgen : dateRequired s && m.get (ascii "Date") == [] with
    | true => simpa using hdate
    | false => simp [sectionPairs, named]

theorem fieldName_date : FieldName (ascii "Date") := by
  refine ⟨?_, ?_, ?_⟩ <;> decide

theorem sentOnce_iff {s : Int} {m left : HeaderMap} : SentOnce s m left ↔
    ∀ k, FieldName k → (k = ascii "Date" → m.values k ≠ []) →
      left.values k ++ echoed lib s m k = m.values k := by
  have hplain : prohibitedInResponse (lowerASCII (ascii "Date")) = false := by decide
  constructor
  · intro h k hk hdate
    have hgen : ¬((dateRequired s && m.get (ascii "Date") == []) = true ∧ k = ascii "Date") := by
      rintro ⟨hgen, rfl⟩
      simp only [Bool.and_eq_true, beq_iff_eq] at hgen
      exact h.date (hdate rfl) hgen.1 hgen.2
    rw [echoed, if_neg hgen]
    cases hp : prohibitedInResponse (lowerASCII k) with
    | true => simpa using h.kept k hk hp
    | false => simpa using h.gone k hk hp hdate
  · intro h
    constructor
    · intro k hk hp hdate
      have hlen := congrArg List.length (h k hk hdate)
      simp only [echoed, hp, Bool.false_eq_true, if_false, List.length_append] at hlen
      exact List.eq_nil_of_length_eq_zero (by omega)
    · intro k hk hp
      have hne : k ≠ ascii "Date" := by
        rintro rfl
        simp [hplain] at hp
      simpa [echoed, hp, hne] using h k hk fun heq => absurd heq hne
    · intro hset hreq hget
      have hlen := congrArg List.length (h _ fieldName_date fun _ => hset)
      simp only [echoed, hplain, hreq, hget, beq_self_eq_true, Bool.and_self, and_self, if_true,
        Bool.false_eq_true, if_false, List.length_append, List.length_singleton] at hlen
      omega

end Run

def rootRequest : ServerRequest where
  method := ascii "GET"
  host := ascii "good.example"
  requestURI := ascii "/"
  url := ⟨[], none, [], ascii "/"⟩
  rawQuery := []
  tls := false
  header := []
  header_form := ⟨List.nodup_nil, by simp, by simp⟩
  body := some []

def sendsOK (m : HeaderMap) (hm : m.Canonical) : HTTPHandler where
  acts _ := [.header m, .write (ascii "ok")]
  header_form v h hh := by simp_all
  status_form v s hs := by simp at hs

def noHeader : HTTPHandler := sendsOK [] ⟨List.nodup_nil, by simp, by simp⟩

def plainText : HTTPHandler := sendsOK [(ascii "Content-Type", [ascii "text/plain"])]
  ⟨by simp, by simp; decide +kernel, by simp; decide +kernel⟩

end PoseidonServer.Server
