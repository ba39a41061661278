import PoseidonServer.Http3.Request
import PoseidonServer.Server.Response

/-! `encodeResponse` of the HTTP/3 server, and the field sections of the three builders together. -/

namespace PoseidonServer.Http3

open HttpFields Server

structure ResponseWriter where
  header : HeaderMap
  status : Int
  body : Bytes

inductive ResponseError
  | fieldSectionTooLarge
  deriving DecidableEq

def responseFields (range : HeaderMap → HeaderMap) (rw : ResponseWriter) : List HeaderField :=
  { name := ascii ":status", value := some (statusBytes rw.status) } ::
    (range rw.header).fields lowerASCII

def encodeResponse (range : HeaderMap → HeaderMap) (rw : ResponseWriter) (fieldSectionLimit : Nat) :
    Except ResponseError (List HeaderField × Option Bytes) :=
  let fields := responseFields range rw
  let size := (fields.map fun f => f.name.length + f.val.length + fieldLineOverhead).sum
  if size > fieldSectionLimit then .error .fieldSectionTooLarge
  else .ok (fields, if rw.body = [] then none else some rw.body)

theorem responseFields_iff {lib : Lib} {rw : ResponseWriter} :
    ResponseSection (responseFields lib.range rw) ↔
      ∀ e ∈ rw.header, prohibitedInResponse (lowerASCII e.1) = false → ∀ v ∈ e.2,
        Legal { name := lowerASCII e.1, value := some v } := by
  have hkept : ResponseSection (responseFields lib.range rw) ↔
      ∀ f ∈ (lib.range rw.header).fields lowerASCII, Regular f := by
    simp only [responseFields, ResponseSection, true_and]
  rw [hkept, HeaderMap.regular_fields_iff]
  exact forall_congr' fun e => imp_congr (lib.range_perm rw.header).mem_iff Iff.rfl

/-- Each of the three builders sends a well-formed section if and only if the supplied fields that
pass its filter have a legal name and value and none of them is `:status`. -/
theorem response_sections_iff (lib : Lib) {status : Int} (hs : 200 ≤ status ∧ status ≤ 599) :
    (∀ (w : Server.ResponseWriter) headers, w.written = false → w.ended = false →
      ∃ fields, (w.writeHeaders lib status headers).1.sent = w.sent ++ [.headers fields false] ∧
        (ResponseSection fields ↔
          ∀ f ∈ headers, prohibitedInResponse f.name = false → Legal f)) ∧
    (∀ w : Server.ResponseWriter, w.written = false → w.ended = false →
      ∃ fields, (w.writeHeader lib status).sent = w.sent ++ [.headers fields false] ∧
        (ResponseSection fields ↔
          ∀ e ∈ w.headers, prohibitedInResponse (lib.toLower e.1) = false → ∀ v ∈ e.2,
            Legal { name := lib.toLower e.1, value := some v })) ∧
    ∀ (rw : ResponseWriter) limit fields body, rw.status = status →
      encodeResponse lib.range rw limit = .ok (fields, body) →
        (ResponseSection fields ↔
          ∀ e ∈ rw.header, prohibitedInResponse (lowerASCII e.1) = false → ∀ v ∈ e.2,
            Legal { name := lowerASCII e.1, value := some v }) := by
  have hfinal : interimStatus status = false := by
    simp only [interimStatus, Bool.and_eq_false_iff, decide_eq_false_iff_not]
    omega
  refine ⟨fun w headers hw he => ?_, fun w hw he => ?_, fun rw limit fields body _ henc => ?_⟩
  · exact ⟨_, by rw [Server.ResponseWriter.writeHeaders_eq hw he hfinal], nativeSection_iff⟩
  · exact ⟨_, by rw [Server.ResponseWriter.writeHeader_eq hw he hfinal], headerSection_iff⟩
  · simp only [encodeResponse] at henc
    split at henc
    · cases henc
    · cases henc
      exact responseFields_iff

theorem response_sections_plain :
    ∃ fields, (({ head := false, headers := [(ascii "Content-Type", [ascii "text/plain"])] } :
        Server.ResponseWriter).writeHeader plainLib 200).sent = [.headers fields false] ∧
      ResponseSection fields := by
  obtain ⟨fields, hsent, hiff⟩ := (response_sections_iff plainLib
    (by decide : 200 ≤ (200 : Int) ∧ (200 : Int) ≤ 599)).2.1
    { head := false, headers := [(ascii "Content-Type", [ascii "text/plain"])] } rfl rfl
  refine ⟨fields, hsent, hiff.2 ?_⟩
  intro e he _ v hv
  cases List.mem_singleton.1 he
  cases List.mem_singleton.1 hv
  exact ⟨by decide, by decide, by decide⟩

/-- The filter lets a second `:status` through on every path, and a value with a line break. -/
theorem handler_field_forges_status :
    (∃ fields, (({ head := false } : Server.ResponseWriter).writeHeaders plainLib 404
        [{ name := ascii ":status", value := some (ascii "200") }]).1.sent = [.headers fields false] ∧
      (fields.filter (·.name = ascii ":status")).length = 2 ∧ ¬ResponseSection fields) ∧
    (∃ fields, (({ head := false, headers := [(ascii ":status", [ascii "200"])] } :
        Server.ResponseWriter).writeHeader plainLib 404).sent = [.headers fields false] ∧
      (fields.filter (·.name = ascii ":status")).length = 2 ∧ ¬ResponseSection fields) ∧
    (∃ fields, encodeResponse plainLib.range
        { header := [(ascii ":status", [ascii "200"])], status := 404, body := [] } 65536 =
          .ok (fields, none) ∧
      (fields.filter (·.name = ascii ":status")).length = 2 ∧ ¬ResponseSection fields) ∧
    ∃ fields, (({ head := false, headers := [(ascii "X-A", [ascii "a\r\nb"])] } :
        Server.ResponseWriter).writeHeader plainLib 200).sent = [.headers fields false] ∧
      ¬ResponseSection fields :=
  ⟨⟨_, rfl, by decide, by decide⟩, ⟨_, rfl, by decide, by decide⟩, ⟨_, rfl, by decide, by decide⟩,
    _, rfl, by decide⟩

end PoseidonServer.Http3
