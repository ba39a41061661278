import PoseidonServer.Conn.Types

/-! Package `server` on one stream: `serveStream`, `serveStreamBuffered` and `buildRequest`. -/

namespace PoseidonServer.Server

open Conn

def defaultMaxRequestBodyBytes : Int := 10 * 2 ^ 20

structure Options where
  streamingBody : Bool := false
  maxRequestBodyBytes : Int := 0

def Options.resolveMaxBodyBytes (o : Options) : Int :=
  if o.maxRequestBodyBytes = 0 then defaultMaxRequestBodyBytes
  else if o.maxRequestBodyBytes < 0 then -1 else o.maxRequestBodyBytes

structure Request where
  headers : List HeaderField
  streamID : Nat
  method : Bytes := []
  path : Bytes := []
  rawQuery : Bytes := []
  scheme : Bytes := []
  authority : Bytes := []
  trailers : List HeaderField := []
  body : Bytes := []
  /-- `BodyReader` is set, and the body is left to it. -/
  streamed : Bool := false
  deriving DecidableEq

inductive HandlerResult
  | ok | err | panicked
  deriving DecidableEq

/-- What the server takes from elsewhere: the handler, with whether it has written a response,
the hosts of the certificate it presented, if any, and two library functions. -/
structure Env where
  opts : Options
  serveHTTP : Request → HandlerResult × Bool
  leaf : Option (Bytes → Bool)
  splitHostPort : Bytes → Option Bytes
  trimSpace : Bytes → Bytes

def splitPathQuery (reqPath : Bytes) : Bytes × Bytes :=
  (reqPath.takeWhile (· ≠ 0x3f), (reqPath.dropWhile (· ≠ 0x3f)).drop 1)

def mapField (acc : Request × Bytes) (h : HeaderField) : Request × Bytes :=
  let req := acc.1
  let hostField := if req.authority = [] ∧ h.name ≠ [] ∧ h.name.head? ≠ some 0x3a ∧
    HttpFields.equalFold h.name (ascii "host") then h.val else acc.2
  if h.name = ascii ":method" then ({ req with method := h.val }, hostField)
  else if h.name = ascii ":path" then
    ({ req with path := h.val, rawQuery := (splitPathQuery h.val).2 }, hostField)
  else if h.name = ascii ":scheme" then ({ req with scheme := h.val }, hostField)
  else if h.name = ascii ":authority" then ({ req with authority := h.val }, hostField)
  else (req, hostField)

def buildRequest (headers : List HeaderField) (streamID : Nat) : Request :=
  let (req, hostField) := headers.foldl mapField ({ headers := headers, streamID := streamID }, [])
  if req.authority = [] then { req with authority := hostField } else req

def misdirectedRequest (env : Env) (req : Request) : Bool :=
  match env.leaf with
  | none => false
  | some verifyHostname =>
    if !HttpFields.equalFold req.scheme (ascii "https") then false
    else
      let host := (env.splitHostPort req.authority).getD req.authority
      if host = [] then false else !verifyHostname host

def hasExpectContinue (env : Env) (headers : List HeaderField) : Bool :=
  headers.any fun h => HttpFields.equalFold h.name (ascii "expect") &&
    (h.val.splitOn 0x2c).any fun member =>
      HttpFields.equalFold (env.trimSpace member) (ascii "100-continue")

inductive Action
  | sendContinue
  | serveHTTP (req : Request)
  | writeHeaders (status : Nat)
  | writeTrailers
  | close
  deriving DecidableEq

/-- `dispatchAndClose` after the handler, its recovery from a panic included. -/
def closeResponse (written : Bool) : HandlerResult → List Action
  | .panicked => (if written then [] else [.writeHeaders 500, .writeTrailers]) ++ [.close]
  | .err => (if written then [] else [.writeHeaders 500]) ++ [.writeTrailers, .close]
  | .ok => (if written then [] else [.writeHeaders 200]) ++ [.writeTrailers, .close]

def dispatchAndClose (env : Env) (req : Request) : List Action :=
  let (result, written) := env.serveHTTP req
  .serveHTTP req :: closeResponse written result

def rejectTooLarge : List Action := [.writeHeaders 413, .writeTrailers, .close]

def joinChunks (chunks : List Bytes) : Bytes := chunks.flatten

def serveStreamBuffered (env : Env) (req : Request) (bodyChunks : List Bytes) (total : Int) :
    List (Except GoErr StreamEvent) → List Action
  | [] => []
  | .error _ :: _ => []
  | .ok (.data p endStream) :: evs =>
    let total := total + p.length
    let max := env.opts.resolveMaxBodyBytes
    if p ≠ [] ∧ 0 ≤ max ∧ max < total then rejectTooLarge
    else
      let bodyChunks := if p = [] then bodyChunks else bodyChunks ++ [p]
      if endStream then dispatchAndClose env { req with body := joinChunks bodyChunks }
      else serveStreamBuffered env req bodyChunks total evs
  | .ok (.trailers fields endStream) :: evs =>
    let req := { req with trailers := fields }
    if endStream then dispatchAndClose env { req with body := joinChunks bodyChunks }
    else serveStreamBuffered env req bodyChunks total evs
  | .ok (.reset _) :: _ => [.close]
  | .ok (.headers _ _) :: evs => serveStreamBuffered env req bodyChunks total evs

def serveBody (env : Env) (req : Request) (evs : List (Except GoErr StreamEvent)) : List Action :=
  if env.opts.streamingBody then dispatchAndClose env { req with streamed := true }
  else serveStreamBuffered env req [] 0 evs

def serveStream (env : Env) (streamID : Nat) (continued : Bool) :
    List (Except GoErr StreamEvent) → List Action
  | [] => []
  | .error _ :: _ => []
  | .ok (.headers fields endStream) :: evs =>
    let req := buildRequest fields streamID
    if misdirectedRequest env req then [.writeHeaders 421, .writeTrailers, .close]
    else if endStream then dispatchAndClose env req
    else if hasExpectContinue env fields then
      if continued then .sendContinue :: serveBody env req evs else [.sendContinue, .close]
    else serveBody env req evs
  | .ok _ :: _ => [.close]

variable {env : Env} {req req' : Request} {evs : List (Except GoErr StreamEvent)}

theorem serveHTTP_mem_dispatchAndClose (h : .serveHTTP req' ∈ dispatchAndClose env req) :
    req' = req := by
  have hclose (written : Bool) (result : HandlerResult) :
      .serveHTTP req' ∉ closeResponse written result := by
    cases written <;> cases result <;> simp [closeResponse]
  simpa [dispatchAndClose, hclose] using h

theorem buildRequest_headers (headers : List HeaderField) (x : Nat) :
    (buildRequest headers x).headers = headers ∧ (buildRequest headers x).body = [] := by
  have step (acc : Request × Bytes) (h : HeaderField) :
      (mapField acc h).1.headers = acc.1.headers ∧ (mapField acc h).1.body = acc.1.body := by
    unfold mapField
    dsimp only
    split_ifs <;> exact ⟨rfl, rfl⟩
  have loop (acc : Request × Bytes) (hs : List HeaderField) :
      (hs.foldl mapField acc).1.headers = acc.1.headers ∧
      (hs.foldl mapField acc).1.body = acc.1.body := by
    induction hs generalizing acc with
    | nil => exact ⟨rfl, rfl⟩
    | cons h hs ih =>
      rw [List.foldl_cons, (ih _).1, (ih _).2]
      exact step acc h
  have := loop ({ headers := headers, streamID := x }, []) headers
  unfold buildRequest
  dsimp only
  split
  · exact this
  · exact this

/-- The body that the events complete, or none while `END_STREAM` is still to come. -/
def content : List (Except GoErr StreamEvent) → Option Bytes
  | .ok (.data p endStream) :: evs => if endStream then some p else (content evs).map (p ++ ·)
  | .ok (.trailers _ endStream) :: evs => if endStream then some [] else content evs
  | .ok (.headers _ _) :: evs => content evs
  | _ => none

theorem serveStreamBuffered_body {chunks : List Bytes} {total : Int}
    (h : .serveHTTP req' ∈ serveStreamBuffered env req chunks total evs) :
    req'.headers = req.headers ∧ (content evs).map (chunks.flatten ++ ·) = some req'.body := by
  induction evs generalizing req chunks total with
  | nil => cases h
  | cons ev evs ih =>
    match ev with
    | .error e => cases h
    | .ok (.reset code) => simp [serveStreamBuffered] at h
    | .ok (.headers fields endStream) => exact ih h
    | .ok (.trailers fields endStream) =>
      simp only [serveStreamBuffered] at h
      cases endStream with
      | true =>
        cases serveHTTP_mem_dispatchAndClose h
        simp [content, joinChunks]
      | false =>
        rw [if_neg Bool.false_ne_true] at h
        obtain ⟨hh, hbody⟩ := ih h
        exact ⟨hh, hbody⟩
    | .ok (.data p endStream) =>
      simp only [serveStreamBuffered] at h
      split at h
      · simp [rejectTooLarge] at h
      have hjoin : (if p = [] then chunks else chunks ++ [p]).flatten = chunks.flatten ++ p := by
        split <;> simp [*]
      cases endStream with
      | true =>
        cases serveHTTP_mem_dispatchAndClose h
        simp [content, joinChunks, hjoin]
      | false =>
        rw [if_neg Bool.false_ne_true] at h
        obtain ⟨hh, hbody⟩ := ih h
        simpa [hh, content, hjoin, Function.comp_def] using hbody

/-- Without streaming, a request that is dispatched has the fields and the body received. -/
theorem serveStream_request {x : Nat} {continued : Bool} (hbuf : env.opts.streamingBody = false)
    (h : .serveHTTP req ∈ serveStream env x continued evs) : ∃ endStream rest,
      evs = .ok (.headers req.headers endStream) :: rest ∧
      (if endStream then some [] else content rest) = some req.body := by
  match evs with
  | .ok (.headers fields endStream) :: rest =>
    obtain ⟨hheaders, hbody⟩ := buildRequest_headers fields x
    have hserve (h : .serveHTTP req ∈ serveBody env (buildRequest fields x) rest) :
        req.headers = fields ∧ content rest = some req.body := by
      rw [serveBody, hbuf, if_neg Bool.false_ne_true] at h
      simpa [hheaders] using serveStreamBuffered_body h
    simp only [serveStream] at h
    split at h
    · simp at h
    cases endStream with
    | true =>
      cases serveHTTP_mem_dispatchAndClose h
      exact ⟨true, rest, by rw [hheaders], by simp [hbody]⟩
    | false =>
      have hreq : req.headers = fields ∧ content rest = some req.body := by
        simp only [Bool.false_eq_true, if_false] at h
        split at h
        · split at h
          · exact hserve (by simpa using h)
          · simp at h
        · exact hserve h
      exact ⟨false, rest, by rw [hreq.1], hreq.2⟩
  | [] => cases h
  | .error _ :: _ => cases h
  | .ok (.data ..) :: _ | .ok (.trailers ..) :: _ | .ok (.reset _) :: _ => simp [serveStream] at h

end PoseidonServer.Server
