import PoseidonServer.Http3.Request
import PoseidonServer.Server.Request

/-! `NewHTTPRequest`: the request of a stream as an `http.Request`, whose URL is put together from
scheme, authority and path and parsed again. -/

namespace PoseidonServer.Server

structure URL where
  scheme : Bytes
  userinfo : Option Bytes
  host : Bytes
  target : Bytes
  deriving DecidableEq

structure HTTPRequest where
  method : Bytes
  url : URL
  header : Http3.Header
  body : Bytes
  streamed : Bool
  contentLength : Int
  deriving DecidableEq

def endsAuthority (c : UInt8) : Bool := c == 0x2f || c == 0x3f || c == 0x23

/-- Everything between `://` and the first `/`, `?` or `#`. -/
def authorityOf (rest : Bytes) : Bytes := rest.takeWhile (!endsAuthority ·)

def userinfoOf (authority : Bytes) : Option Bytes :=
  if 0x40 ∈ authority then
    some ((authority.reverse.dropWhile (· ≠ 0x40)).drop 1).reverse
  else none

def hostOf (authority : Bytes) : Bytes := (authority.reverse.takeWhile (· ≠ 0x40)).reverse

/-- A host or host:port as it is written in a URL: no octet of it is a delimiter or an escape, and
a colon is followed by a port. -/
structure PlainAuthority (a : Bytes) : Prop where
  nonempty : a ≠ []
  octets : ∀ c ∈ a, endsAuthority c = false ∧ c ≠ 0x40 ∧ c ≠ 0x25
  port : a.getLast? ≠ some 0x3a

def isHTTP (scheme : Bytes) : Bool :=
  lowerASCII scheme == ascii "http" || lowerASCII scheme == ascii "https"

/-- `http.NewRequest` on a method and a URL, with what is known of `url.Parse`. -/
structure NewRequest where
  run : Bytes → Bytes → Option URL
  splits : ∀ {method scheme rest u}, isHTTP scheme = true →
    run method (scheme ++ ascii "://" ++ rest) = some u →
      u.scheme = lowerASCII scheme ∧ u.userinfo = userinfoOf (authorityOf rest) ∧
      (PlainAuthority (hostOf (authorityOf rest)) → u.host = hostOf (authorityOf rest)) ∧
      u.target = rest.dropWhile (!endsAuthority ·)

inductive NewHTTPRequestError
  | noAuthority | newRequest
  deriving DecidableEq

def mapHeaders (header : Http3.Header) (cookie : Bytes) : List HeaderField → Http3.Header × Bytes
  | [] => (header, cookie)
  | h :: hs =>
    if h.name = ascii "cookie" then
      mapHeaders header ((if cookie ≠ [] then cookie ++ ascii "; " else cookie) ++ h.val) hs
    else mapHeaders (header ++ [(Http3.canonicalKey h.name, h.val)]) cookie hs

def newHTTPRequest (lib : NewRequest) (req : Request) : Except NewHTTPRequestError HTTPRequest :=
  let scheme := if req.scheme = [] then ascii "http" else req.scheme
  let host := req.authority
  if host = [] ∧ (scheme = ascii "http" ∨ scheme = ascii "https") then .error .noAuthority
  else match lib.run req.method (scheme ++ ascii "://" ++ (host ++ req.path)) with
    | none => .error .newRequest
    | some url =>
      let (header, cookie) := mapHeaders [] [] req.headers
      .ok {
        method := req.method
        url := url
        header := if cookie ≠ [] then
            header.filter (·.1 ≠ ascii "Cookie") ++ [(ascii "Cookie", cookie)] else header
        body := req.body
        streamed := req.body = [] && req.streamed
        contentLength := if req.body ≠ [] then req.body.length else if req.streamed then -1 else 0 }

/-- The URL of a request has its authority as the host, no userinfo, and all of the path behind
the authority. -/
structure Faithful (req : Request) (r : HTTPRequest) : Prop where
  host : r.url.host = req.authority
  userinfo : r.url.userinfo = none
  target : r.url.target = req.path

variable {lib : NewRequest} {req : Request} {r : HTTPRequest} {a path : Bytes}

theorem authorityOf_append (h : ∀ c ∈ a, endsAuthority c = false)
    (hpath : path = [] ∨ path.head?.any endsAuthority = true) : authorityOf (a ++ path) = a := by
  rw [authorityOf, List.takeWhile_append_of_pos (by simpa using h)]
  cases path with
  | nil => simp
  | cons c path =>
    have hc : endsAuthority c = true := by simpa using hpath
    simp [hc]

theorem dropWhile_append (h : ∀ c ∈ a, endsAuthority c = false) :
    (a ++ path).dropWhile (!endsAuthority ·) = path.dropWhile (!endsAuthority ·) :=
  List.dropWhile_append_of_pos (by simpa using h)

theorem dropWhile_eq_self : path.dropWhile (!endsAuthority ·) = path ↔
    path = [] ∨ path.head?.any endsAuthority = true := by
  cases path with
  | nil => simp
  | cons c path =>
    cases hc : endsAuthority c with
    | true => simp [hc]
    | false =>
      simp only [List.dropWhile_cons, hc, Bool.not_false, if_true, reduceCtorEq, List.head?_cons,
        Option.any_some, Bool.false_eq_true, or_self, iff_false]
      intro heq
      have hlen := (List.dropWhile_sublist (l := path) (!endsAuthority ·)).length_le
      rw [heq, List.length_cons] at hlen
      omega

theorem PlainAuthority.parts (h : PlainAuthority a) : userinfoOf a = none ∧ hostOf a = a := by
  have hat : 0x40 ∉ a := fun hmem => (h.octets _ hmem).2.1 rfl
  refine ⟨if_neg hat, ?_⟩
  have hall : ∀ c ∈ a.reverse, decide (c ≠ 0x40) = true := by
    intro c hc
    simpa using (h.octets c (List.mem_reverse.1 hc)).2.1
  have htake : (a.reverse ++ []).takeWhile _ = _ := List.takeWhile_append_of_pos hall
  rw [List.append_nil, List.takeWhile_nil, List.append_nil] at htake
  rw [hostOf, htake, List.reverse_reverse]

theorem newHTTPRequest_url (h : newHTTPRequest lib req = .ok r) : lib.run req.method
    ((if req.scheme = [] then ascii "http" else req.scheme) ++ ascii "://" ++
      (req.authority ++ req.path)) = some r.url := by
  unfold newHTTPRequest at h
  dsimp only at h
  generalize (if req.scheme = [] then ascii "http" else req.scheme) = scheme at h ⊢
  split at h
  · cases h
  · split at h <;> cases h
    assumption

/-- A request for an http or https URL whose authority is a host or host:port comes out with the
authority it came in with exactly when its path is empty or begins with `/`, `?` or `#`. -/
theorem authority_kept_iff (lib : NewRequest) {req : Request}
    (hscheme : req.scheme = [] ∨ isHTTP req.scheme = true) (ha : PlainAuthority req.authority)
    {r : HTTPRequest} (h : newHTTPRequest lib req = .ok r) :
    Faithful req r ↔ req.path = [] ∨ req.path.head?.any endsAuthority = true := by
  have hhttp : isHTTP (if req.scheme = [] then ascii "http" else req.scheme) = true := by
    split
    · rfl
    · exact hscheme.resolve_left ‹_›
  obtain ⟨-, huser, hhost, htarget⟩ := lib.splits hhttp (newHTTPRequest_url h)
  have hplain : ∀ c ∈ req.authority, endsAuthority c = false := fun c hc => (ha.octets c hc).1
  rw [dropWhile_append hplain] at htarget
  constructor
  · intro hf
    exact dropWhile_eq_self.1 (htarget.symm.trans hf.target)
  · intro hpath
    rw [authorityOf_append hplain hpath] at huser hhost
    obtain ⟨hnone, hself⟩ := ha.parts
    rw [hself] at hhost
    exact ⟨hhost ha, huser.trans hnone, htarget.trans (dropWhile_eq_self.2 hpath)⟩

theorem colon_notMem {scheme : Bytes} (h : isHTTP scheme = true) : 0x3a ∉ scheme := by
  intro hmem
  have hmem : 0x3a ∈ lowerASCII scheme := List.mem_map.2 ⟨0x3a, hmem, rfl⟩
  rw [isHTTP, Bool.or_eq_true, beq_iff_eq, beq_iff_eq] at h
  obtain h | h := h <;> rw [h] at hmem <;> exact absurd hmem (by decide)

/-- A parser that does what is known of `url.Parse` and refuses nothing. -/
def lenientNewRequest : NewRequest where
  run _ url :=
    let rest := (url.dropWhile (· ≠ 0x3a)).drop 3
    some {
      scheme := lowerASCII (url.takeWhile (· ≠ 0x3a))
      userinfo := userinfoOf (authorityOf rest)
      host := hostOf (authorityOf rest)
      target := rest.dropWhile (!endsAuthority ·) }
  splits {method scheme rest u} hs h := by
    have hall : ∀ c ∈ scheme, decide (c ≠ 0x3a) = true := by
      intro c hc
      refine decide_eq_true ?_
      rintro rfl
      exact colon_notMem hs hc
    have htake : (scheme ++ ascii "://" ++ rest).takeWhile (· ≠ 0x3a) = scheme := by
      rw [List.append_assoc, List.takeWhile_append_of_pos hall]
      exact List.append_nil scheme
    have hdrop : ((scheme ++ ascii "://" ++ rest).dropWhile (· ≠ 0x3a)).drop 3 = rest := by
      rw [List.append_assoc, List.dropWhile_append_of_pos hall]
      rfl
    dsimp only at h
    rw [htake, hdrop] at h
    cases h
    exact ⟨rfl, rfl, fun _ => rfl, rfl⟩

def requestFor (path : String) : List HeaderField :=
  [⟨ascii ":method", some (ascii "GET"), .incremental⟩,
    ⟨ascii ":scheme", some (ascii "https"), .incremental⟩,
    ⟨ascii ":path", some (ascii path), .incremental⟩,
    ⟨ascii ":authority", some (ascii "good.example"), .incremental⟩]

theorem authority_kept_root : ∃ r, newHTTPRequest lenientNewRequest
    (buildRequest (requestFor "/") 1) = .ok r ∧ Faithful (buildRequest (requestFor "/") 1) r := by
  refine ⟨_, rfl, (authority_kept_iff lenientNewRequest (.inr rfl) ⟨?_, ?_, ?_⟩ rfl).2 (.inr rfl)⟩
  all_goals decide +kernel

/-- A path that begins with `@` turns the authority into userinfo and names another host. -/
theorem path_forges_authority :
    HttpFields.validRequestPseudoHeaders (requestFor "@evil.example/") = true ∧
    (requestFor "@evil.example/").all (fun f => !HttpFields.prohibited f.name f.val false) = true ∧
    ∃ r, newHTTPRequest lenientNewRequest (buildRequest (requestFor "@evil.example/") 1) = .ok r ∧
      r.url.host = ascii "evil.example" ∧ r.url.userinfo = some (ascii "good.example") :=
  ⟨by decide, by decide, _, rfl, by decide, by decide⟩

end PoseidonServer.Server
