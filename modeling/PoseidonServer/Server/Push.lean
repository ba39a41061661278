import PoseidonServer.HttpFields.Sections
import PoseidonServer.Server.Request

/-! The request that a PUSH_PROMISE of `ResponseWriter.Push` makes up. -/

namespace PoseidonServer.Server

open HttpFields

def promiseAuthority (req : Option Request) (promiseHeaders : List HeaderField) : Bytes :=
  match promiseHeaders.find? (·.name = ascii ":authority") with
  | some h => h.val
  | none => (req.map (·.authority)).getD []

/-- `none` for `ErrPushNoAuthority`. Where the caller supplies no authority there is none to skip. -/
def promiseFields (req : Option Request) (promisePath promiseScheme : Bytes)
    (promiseHeaders : List HeaderField) : Option (List HeaderField) :=
  let promiseScheme := if promiseScheme = [] then ascii "https" else promiseScheme
  let authority := promiseAuthority req promiseHeaders
  if authority = [] then none
  else some ({ name := ascii ":method", value := some (ascii "GET") } ::
    { name := ascii ":path", value := some promisePath } ::
    { name := ascii ":scheme", value := some promiseScheme } ::
    { name := ascii ":authority", value := some authority } ::
    promiseHeaders.filter (·.name ≠ ascii ":authority"))

/-- Behind all four pseudo-headers there is no other. -/
theorem scan_complete {m s p a : Bytes} {ph : RequestPseudoHeaders} {fields : List HeaderField} :
    scanRequestPseudoHeaders ⟨some m, some s, some p, some a, true⟩ false fields = some ph ↔
      ⟨some m, some s, some p, some a, true⟩ = ph ∧ ∀ f ∈ fields, f.name ≠ [] ∧ pseudo f = false := by
  cases fields with
  | nil => simp [scanRequestPseudoHeaders]
  | cons f fields =>
    cases hf : pseudo f with
    | true => simp [scan_cons_pseudo hf, hf]
    | false =>
      by_cases hname : f.name = []
      · simp [scanRequestPseudoHeaders, hname]
      · rw [scan_cons_regular ⟨hname, hf⟩, scan_regular]
        simp [hname, hf]

/-- The promise is a complete request exactly if there is an authority, the caller supplies no other
pseudo-header and, for an http or https URL, no user information and a path. -/
theorem promised_request_iff (req : Option Request) (path scheme : Bytes) (hs : List HeaderField) :
    (promiseFields req path scheme hs).any validRequestPseudoHeaders = true ↔
      promiseAuthority req hs ≠ [] ∧
      (httpScheme (if scheme = [] then ascii "https" else scheme) = true →
        0x40 ∉ promiseAuthority req hs ∧ path ≠ []) ∧
      ∀ f ∈ hs, f.name ≠ ascii ":authority" → f.name ≠ [] ∧ pseudo f = false := by
  unfold promiseFields
  generalize promiseAuthority req hs = authority
  generalize (if scheme = [] then ascii "https" else scheme) = scheme
  by_cases ha : authority = []
  · simp [ha]
  have hmem : (∀ f ∈ hs.filter (·.name ≠ ascii ":authority"), f.name ≠ [] ∧ pseudo f = false) ↔
      ∀ f ∈ hs, f.name ≠ ascii ":authority" → f.name ≠ [] ∧ pseudo f = false := by simp
  obtain ⟨hpm, hps, hsm, ham, has, hap⟩ : ascii ":path" ≠ ascii ":method" ∧
      ascii ":path" ≠ ascii ":scheme" ∧ ascii ":scheme" ≠ ascii ":method" ∧
      ascii ":authority" ≠ ascii ":method" ∧ ascii ":authority" ≠ ascii ":scheme" ∧
      ascii ":authority" ≠ ascii ":path" := by decide
  have hget : some (ascii "GET") ≠ some (ascii "CONNECT") := by decide
  dsimp only
  rw [if_neg ha, Option.any_some, valid_iff, ← hmem]
  rw [scan_cons_pseudo rfl, if_pos rfl, if_neg (by simp)]
  rw [scan_cons_pseudo rfl, if_neg hpm, if_neg hps, if_pos rfl, if_neg (by simp)]
  rw [scan_cons_pseudo rfl, if_neg hsm, if_pos rfl, if_neg (by simp)]
  rw [scan_cons_pseudo rfl, if_neg ham, if_neg has, if_neg hap, if_pos rfl, if_neg (by simp)]
  simp only [scan_complete]
  constructor
  · rintro ⟨-, ⟨rfl, hregular⟩, hform⟩
    exact ⟨ha, fun h => ⟨hform.userinfo h, (hform.target hget).2.2 h⟩, hregular⟩
  · rintro ⟨-, hhttp, hregular⟩
    exact ⟨_, ⟨rfl, hregular⟩, rfl, fun h => (hhttp h).1, fun _ => ⟨rfl, rfl, fun h => (hhttp h).2⟩⟩

end PoseidonServer.Server
