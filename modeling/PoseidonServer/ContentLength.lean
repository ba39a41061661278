import PoseidonServer.Conn.Server
import PoseidonServer.Http3.Request
import PoseidonServer.HttpFields.Sections
import PoseidonServer.Server.Request

/-! The `Content-Length` of a dispatched request and the octets of its body. -/

namespace PoseidonServer.ContentLength

open HttpFields

def contentLengths (fields : List HeaderField) : List Bytes :=
  (fields.filter fun f => equalFold f.name (ascii "content-length")).map (·.val)

/-- Every `Content-Length` among the fields is one and the same number, `received`. -/
def Agrees (fields : List HeaderField) (received : Nat) : Prop :=
  (∀ u ∈ contentLengths fields, ∀ v ∈ contentLengths fields, u = v) ∧
  ∀ v ∈ contentLengths fields, v ≠ [] ∧ v.all Http3.digit = true ∧ Http3.decimal v = received

instance (fields : List HeaderField) (received : Nat) : Decidable (Agrees fields received) :=
  inferInstanceAs (Decidable (_ ∧ _))

theorem eq_of_equalFold {s t : Bytes}
    (hs : ∀ c ∈ s, 0x20 < c ∧ c < 0x7f ∧ ¬(0x41 ≤ c ∧ c ≤ 0x5a)) (h : equalFold s t = true) :
    s = t := by
  fun_induction equalFold s t with
  | case1 => rfl
  | case2 s t ts ih => exact absurd (hs 0xc5 (by simp)).2.1 (by decide)
  | case3 s t ts ih => exact absurd (hs 0xe2 (by simp)).2.1 (by decide)
  | case4 c s t ts _ _ ih =>
    rw [List.forall_mem_cons] at hs
    have hc : ¬(decide (0x41 ≤ c) && decide (c ≤ 0x5a)) = true := by simpa using hs.1.2.2
    rw [Bool.and_eq_true, if_neg hc, beq_iff_eq] at h
    rw [h.1, ih hs.2 h.2]
  | case5 => cases h

theorem checkContentLength_ok {header : Http3.Header} {received : Nat}
    (h : Http3.checkContentLength header received = .ok ()) :
    ∃ u, ∀ v ∈ header.values (ascii "Content-Length"),
      v = u ∧ v ≠ [] ∧ v.all Http3.digit = true ∧ Http3.decimal v = received := by
  unfold Http3.checkContentLength at h
  split at h
  · rename_i hvs
    exact ⟨[], by simp [hvs]⟩
  rename_i u vs hvs
  split at h
  · cases h
  rename_i hsame
  split at h
  · cases h
  rename_i hempty
  split at h
  · cases h
  rename_i hdigits
  split at h
  · cases h
  rename_i hparse
  have hu : u ≠ [] ∧ u.all Http3.digit = true ∧ Http3.decimal u = received := by
    refine ⟨hempty, by simpa using hdigits, ?_⟩
    simp only [ne_eq, not_not, Http3.parseUint63] at hparse
    split at hparse
    · exact Option.some.inj hparse
    · cases hparse
  refine ⟨u, fun v hv => ?_⟩
  have hvu : v = u := by
    rw [hvs, List.mem_cons] at hv
    simp only [List.any_eq_true, bne_iff_ne, ne_eq, not_exists, not_and, not_not] at hsame
    exact hv.elim id (hsame v)
  rw [hvu]
  exact ⟨rfl, hu⟩

variable {req req' : Http3.Request} {fields : List HeaderField} {f : HeaderField}

theorem mapFields_cons (h : Http3.mapFields req (f :: fields) = .ok req') :
    ∃ req₁, Http3.mapFields req₁ fields = .ok req' ∧ req₁.body = req.body ∧
      (∀ l ∈ req.header, l ∈ req₁.header) ∧
      (f.name ∉ requestPseudoNames → (Http3.canonicalKey f.name, f.val) ∈ req₁.header) := by
  have pseudo {n : Bytes} {p : Prop} (he : f.name = n) (hn : n ∈ requestPseudoNames)
      (hf : f.name ∉ requestPseudoNames) : p := absurd (he ▸ hn) hf
  simp only [Http3.mapFields] at h
  split at h
  · exact ⟨_, h, rfl, fun _ hl => hl, pseudo ‹_› (by decide)⟩
  split at h
  · exact ⟨_, h, rfl, fun _ hl => hl, pseudo ‹_› (by decide)⟩
  split at h
  · exact ⟨_, h, rfl, fun _ hl => hl, pseudo ‹_› (by decide)⟩
  split at h
  · exact ⟨_, h, rfl, fun _ hl => hl, pseudo ‹_› (by decide)⟩
  split at h
  · cases h
  · exact ⟨_, h, rfl, fun l hl => List.mem_append_left _ hl, fun _ => by simp⟩

theorem mapFields_keeps (h : Http3.mapFields req fields = .ok req') :
    req'.body = req.body ∧ ∀ l ∈ req.header, l ∈ req'.header := by
  induction fields generalizing req with
  | nil =>
    cases h
    exact ⟨rfl, fun _ hl => hl⟩
  | cons f fields ih =>
    obtain ⟨req₁, h, hbody, hheader, -⟩ := mapFields_cons h
    obtain ⟨hbody', hheader'⟩ := ih h
    exact ⟨hbody'.trans hbody, fun l hl => hheader' l (hheader l hl)⟩

theorem mapFields_mem (h : Http3.mapFields req fields = .ok req') (hf : f ∈ fields)
    (hname : f.name ∉ requestPseudoNames) : (Http3.canonicalKey f.name, f.val) ∈ req'.header := by
  induction fields generalizing req with
  | nil => cases hf
  | cons g fields ih =>
    obtain ⟨req₁, hrest, -, -, hadd⟩ := mapFields_cons h
    obtain rfl | hf := List.mem_cons.1 hf
    · exact (mapFields_keeps hrest).2 _ (hadd hname)
    · exact ih hrest hf

theorem buildRequest_agrees {env : Http3.Env} {body : Bytes}
    (h : Http3.buildRequest env fields body = .ok req) :
    req.body = body ∧ Agrees fields body.length := by
  unfold Http3.buildRequest at h
  split at h
  · cases h
  rename_i hforms
  split at h
  · cases h
  obtain ⟨req₁, hmap, h⟩ := except_bind_eq_ok.1 h
  split at h
  · cases h
  obtain ⟨⟨⟩, hcheck, h⟩ := except_bind_eq_ok.1 h
  split at h <;> cases h
  obtain ⟨u, hu⟩ := checkContentLength_ok hcheck
  have key : Http3.canonicalKey (ascii "content-length") = ascii "Content-Length" := by decide
  have hmem : ∀ v ∈ contentLengths fields, v ∈ req.header.values (ascii "Content-Length") := by
    intro v hv
    obtain ⟨f, hf, rfl⟩ := List.mem_map.1 hv
    obtain ⟨hf, hfold⟩ := List.mem_filter.1 hf
    have hform : FieldForm f.name f.val := by
      simp only [List.any_eq_true, not_exists, not_and, Bool.not_eq_true] at hforms
      exact (prohibited_eq_false.1 (hforms f hf)).1
    have hname := eq_of_equalFold hform.octets hfold
    have hheader := mapFields_mem hmap hf (by rw [hname]; decide)
    rw [hname] at hheader
    exact List.mem_map.2 ⟨_, List.mem_filter.2 ⟨hheader, decide_eq_true key⟩, rfl⟩
  refine ⟨(mapFields_keeps hmap).1, fun v hv w hw => ?_, fun v hv => (hu v (hmem v hv)).2⟩
  rw [(hu v (hmem v hv)).1, (hu w (hmem w hw)).1]

/-- Over HTTP/3 a dispatched request agrees with its body; over HTTP/2 it does when what the
client declared agrees with what it sent. -/
theorem dispatched_content_length_agrees (env₃ : Http3.Env) (env : Server.Env) :
    (∀ (stream : Bytes) (req : Http3.Request), Http3.decodeRequest env₃ stream = .ok req →
      ∃ fields, Http3.decodeFrames env₃ stream = .ok (fields, req.body) ∧
        Agrees fields req.body.length) ∧
    ∀ (x : Nat) (continued : Bool) (fields : List HeaderField)
      (endStream : Bool) (evs : List (Except Conn.GoErr Conn.StreamEvent)) (req : Server.Request),
      env.opts.streamingBody = false →
      .serveHTTP req ∈ Server.serveStream env x continued (.ok (.headers fields endStream) :: evs) →
      (Agrees req.headers req.body.length ↔
        ∃ body, (if endStream then some [] else Server.content evs) = some body ∧
          Agrees fields body.length) := by
  constructor
  · intro stream req h
    obtain ⟨⟨fields, body⟩, hframes, h⟩ := except_bind_eq_ok.1 h
    obtain ⟨rfl, hagrees⟩ := buildRequest_agrees h
    exact ⟨fields, hframes, hagrees⟩
  · intro x continued fields endStream evs req hbuf h
    obtain ⟨endStream', rest, hevs, hbody⟩ := Server.serveStream_request hbuf h
    cases hevs
    simp only [hbody, Option.some.injEq, exists_eq_left']

def anyHandler : Server.Env where
  opts := {}
  serveHTTP _ := (.ok, true)
  leaf := none
  splitHostPort _ := none
  trimSpace v := v

def fiveOctets : Conn.Env where
  opts := {}
  decode _ _ := .ok [⟨ascii ":method", some (ascii "POST"), .incremental⟩,
    ⟨ascii ":scheme", some (ascii "https"), .incremental⟩,
    ⟨ascii ":path", some (ascii "/"), .incremental⟩,
    ⟨ascii "content-length", some (ascii "5"), .incremental⟩]

def oneBody (body : Bytes) : List (Concurrent.Event Conn.Call) :=
  Concurrent.Config.inTurn 0 (Conn.handshake ++
    [(.frame (.headers 1 false true [1] none), 16), (.frame (.data 1 true body.length body), 12)])

def dispatched (c : Concurrent.Config Conn.Op Conn.World) : List Server.Request :=
  ((c.shared.str 1).map fun s => Server.serveStream anyHandler 1 true
    (s.events.map .ok)).getD [] |>.filterMap fun
      | .serveHTTP req => some req
      | _ => none

def fiveOctets3 : Http3.Env where
  decodeFieldSection _ := ([(ascii ":method", ascii "POST"), (ascii ":scheme", ascii "https"),
    (ascii ":path", ascii "/"), (ascii "content-length", ascii "5")], none)
  parseRequestURI _ := true

def fiveOctetStream : Bytes := [1, 1, 0, 0, 5, 1, 2, 3, 4, 5]

theorem dispatched_content_length_agrees_five :
    (∃ req fields, Http3.decodeRequest fiveOctets3 fiveOctetStream = .ok req ∧
      Http3.decodeFrames fiveOctets3 fiveOctetStream = .ok (fields, req.body) ∧
      Agrees fields req.body.length) ∧
    ∃ req, .serveHTTP req ∈ Server.serveStream anyHandler 1 true
        [.ok (.headers [⟨ascii "content-length", some (ascii "5"), .incremental⟩] false),
          .ok (.data [1, 2, 3, 4, 5] true)] ∧ Agrees req.headers req.body.length := by
  constructor
  · cases h : Http3.decodeRequest fiveOctets3 fiveOctetStream with
    | error e =>
      have hok : (Http3.decodeRequest fiveOctets3 fiveOctetStream).isOk = true := by decide +kernel
      rw [h] at hok
      cases hok
    | ok req =>
      obtain ⟨fields, hfields⟩ := (dispatched_content_length_agrees fiveOctets3 anyHandler).1 _ req h
      exact ⟨req, fields, rfl, hfields⟩
  · refine ⟨_, List.mem_cons_self, ?_⟩
    refine ((dispatched_content_length_agrees fiveOctets3 anyHandler).2 1 true
      [⟨ascii "content-length", some (ascii "5"), .incremental⟩] false
      [.ok (.data [1, 2, 3, 4, 5] true)] _ rfl List.mem_cons_self).2 ?_
    exact ⟨[1, 2, 3, 4, 5], rfl, by decide +kernel⟩

/-- Over HTTP/2 a body of three octets is dispatched with the fields that declare five. -/
theorem short_body_is_dispatched : ∃ c, Conn.Reach fiveOctets Conn.anyCall c ∧
    ∃ req ∈ dispatched c, req.body = [1, 2, 3] ∧ ¬Agrees req.headers req.body.length := by
  obtain ⟨c, hc, h⟩ := Conn.exists_reach_of_run fiveOctets (oneBody [1, 2, 3])
    (p := fun c => (dispatched c).any fun req => req.body = [1, 2, 3] ∧
      ¬Agrees req.headers req.body.length) (by decide +kernel)
  obtain ⟨req, hreq, h⟩ := List.any_eq_true.1 h
  exact ⟨c, hc, req, hreq, of_decide_eq_true h⟩

end PoseidonServer.ContentLength
