import PoseidonServer.Conn.Server
import PoseidonServer.Http3.Request
import PoseidonServer.HttpFields.Sections

/-! The same decoded field lines at the two front doors, as a request with an empty body. -/

namespace PoseidonServer.FrontDoors

open HttpFields

def hpackFields (lines : List (Bytes × Bytes)) : List HeaderField :=
  lines.map fun l => { name := l.1, value := some l.2 }

/-- `emitHeaderBlock` delivers the section. -/
def acceptsHttp2 (env : Conn.Env) (lines : List (Bytes × Bytes)) : Bool :=
  Conn.fieldSectionSize (hpackFields lines) ≤ env.cfg.maxHeaderBytes &&
  !Conn.malformedSection (hpackFields lines) true false

/-- `decodeFields` and `buildRequest` make a request of the section. -/
def acceptsHttp3 (env : Http3.Env) (lines : List (Bytes × Bytes)) : Bool :=
  match Http3.collectFields 0 lines with
  | .error _ => false
  | .ok fields => (Http3.buildRequest env fields []).isOk

def qpackFields (lines : List (Bytes × Bytes)) : List HeaderField :=
  lines.map fun l => { name := l.1, value := Http3.appendCopy l.2 }

variable {lines : List (Bytes × Bytes)} {n : Bytes}

theorem ownedCopy_hpackFields : Conn.ownedCopy (hpackFields lines) = hpackFields lines := by
  simp [Conn.ownedCopy, hpackFields, HeaderField.val]

theorem owned_hpackFields : Owned (hpackFields lines) := by
  intro f hf
  obtain ⟨l, -, rfl⟩ := List.mem_map.1 hf
  rfl

theorem emitFields_hpackFields {env : Conn.Env} (x : Nat)
    (hsize : Conn.fieldSectionSize (hpackFields lines) ≤ env.cfg.maxHeaderBytes) :
    Conn.emitFields env x (hpackFields lines) true false = .op (.state x) fun st =>
      if st.recvEnded then
        Conn.writeServerRSTStream x .streamClosed >>= fun _ => pure (.ok ())
      else if acceptsHttp2 env lines then
        Conn.deliverEvent x true (.headers (hpackFields lines) true)
      else Conn.writeServerRSTStream x .protocolError >>= fun _ => pure (.ok ()) := by
  have hacc : acceptsHttp2 env lines = !Conn.malformedSection (hpackFields lines) true false := by
    simp [acceptsHttp2, hsize]
  rw [Conn.emitFields, if_neg (Nat.not_lt.2 hsize), ownedCopy_hpackFields, hacc]
  cases Conn.malformedSection (hpackFields lines) true false <;> rfl

theorem acceptsHttp2_iff {env : Conn.Env}
    (hsize : Conn.fieldSectionSize (hpackFields lines) ≤ env.cfg.maxHeaderBytes) :
    acceptsHttp2 env lines = true ↔ (∀ l ∈ lines, prohibited l.1 l.2 false = false) ∧
      validRequestPseudoHeaders (hpackFields lines) = true := by
  have hforms : (hpackFields lines).any (fun f => prohibited f.name f.val false) = false ↔
      ∀ l ∈ lines, prohibited l.1 l.2 false = false := by
    simp [hpackFields, HeaderField.val]
  rw [← hforms]
  simp [acceptsHttp2, hsize, Conn.malformedSection, ownedCopy_hpackFields]

theorem collectFields_ok {size : Nat} {fields : List HeaderField}
    (h : Http3.collectFields size lines = .ok fields) : fields = qpackFields lines := by
  induction lines generalizing size fields with
  | nil =>
    cases h
    rfl
  | cons l lines ih =>
    simp only [Http3.collectFields] at h
    split at h
    · cases h
    split at h <;> cases h
    rename_i rest hrest
    rw [ih hrest]
    rfl

@[simp] theorem getD_appendCopy (v : Bytes) : (Http3.appendCopy v).getD [] = v := by
  unfold Http3.appendCopy
  split <;> simp [*]

theorem of_acceptsHttp3 {env : Http3.Env} (h : acceptsHttp3 env lines = true) :
    (∀ l ∈ lines, prohibited l.1 l.2 false = false) ∧
      validRequestPseudoHeaders (qpackFields lines) = true := by
  unfold acceptsHttp3 at h
  split at h
  · cases h
  rename_i fields hfields
  cases collectFields_ok hfields
  unfold Http3.buildRequest at h
  split at h
  · cases h
  rename_i hforms
  split at h
  · cases h
  rename_i hvalid
  refine ⟨fun l hl => ?_, by simpa using hvalid⟩
  simp only [List.any_eq_true, not_exists, not_and, Bool.not_eq_true] at hforms
  simpa [HeaderField.val] using hforms _ (List.mem_map_of_mem hl)

theorem arranged_qpackFields (h : Arranged (qpackFields lines)) : Arranged (hpackFields lines) := by
  obtain ⟨first, regular, hl, hfirst, hregular⟩ := h
  obtain ⟨ls, rs, rfl, rfl, rfl⟩ := List.map_eq_append_iff.1 hl
  rw [List.forall_mem_map] at hfirst hregular
  refine ⟨hpackFields ls, hpackFields rs, List.map_append, ?_, ?_⟩
  · exact List.forall_mem_map.2 hfirst
  · exact List.forall_mem_map.2 hregular

theorem values_qpackFields (lines : List (Bytes × Bytes)) (n : Bytes) :
    (values n (qpackFields lines)).head?.join =
      (field n (hpackFields lines)).bind Http3.appendCopy := by
  induction lines with
  | nil => rfl
  | cons l lines ih =>
    by_cases h : l.1 = n
    · simp [values, field, qpackFields, hpackFields, h, HeaderField.val]
    · simpa [values, field, qpackFields, hpackFields, h] using ih

theorem values_qpackFields_isEmpty (lines : List (Bytes × Bytes)) (n : Bytes) :
    (values n (qpackFields lines)).isEmpty = !(field n (hpackFields lines)).isSome := by
  induction lines with
  | nil => rfl
  | cons l lines ih =>
    by_cases h : l.1 = n
    · simp [values, field, qpackFields, hpackFields, h]
    · simpa [values, field, qpackFields, hpackFields, h] using ih

theorem keep_unique {vs : List (Option Bytes)} (h : vs.length ≤ 1) {r : Option Bytes}
    (hk : keep none vs = some r) : r = vs.head?.join := by
  match vs with
  | [] => simpa [keep, eq_comm] using hk
  | [v] => simpa [keep, eq_comm] using hk
  | v :: u :: vs => simp at h

@[simp] theorem getD_bind_appendCopy (v : Option Bytes) :
    (v.bind Http3.appendCopy).getD [] = v.getD [] := by
  cases v <;> simp

theorem eq_of_bind_appendCopy {v : Option Bytes} {b : Bytes}
    (h : v.bind Http3.appendCopy = some b) : v = some b := by
  obtain ⟨c, rfl, hc⟩ := Option.bind_eq_some_iff.1 h
  unfold Http3.appendCopy at hc
  split at hc <;> simp_all

theorem pseudoForm_of_copies {method scheme path authority : Option Bytes}
    (h : PseudoForm ⟨method.bind Http3.appendCopy, scheme.bind Http3.appendCopy,
      path.bind Http3.appendCopy, authority.bind Http3.appendCopy, path.isSome⟩) :
    PseudoForm ⟨method, scheme, path, authority, path.isSome⟩ := by
  have hsome {v : Option Bytes} (hv : (v.bind Http3.appendCopy).isSome = true) :
      v.isSome = true := by
    cases v with
    | none => cases hv
    | some b => rfl
  obtain ⟨hmethod, huser, htarget⟩ := h
  simp only [getD_bind_appendCopy] at huser htarget
  refine ⟨hsome hmethod, huser, fun hm => ?_⟩
  obtain ⟨hs, hp, hhttp⟩ := htarget fun he => hm (eq_of_bind_appendCopy he)
  exact ⟨hsome hs, hp, hhttp⟩

theorem valid_hpackFields_iff (h : validRequestPseudoHeaders (qpackFields lines) = true) :
    validRequestPseudoHeaders (hpackFields lines) = true ↔
      ∀ n ∈ requestPseudoNames, (lines.filter (·.1 = n)).length ≤ 1 := by
  have hlen (n : Bytes) : ((hpackFields lines).filter (·.name = n)).length =
      (lines.filter (·.1 = n)).length := by
    simp [hpackFields, List.filter_map, Function.comp_def]
  have hlen' (n : Bytes) : (values n (qpackFields lines)).length =
      (lines.filter (·.1 = n)).length := by
    simp [values, qpackFields, List.filter_map, Function.comp_def]
  simp only [valid_iff, scan_owned owned_hpackFields, hlen]
  constructor
  · rintro ⟨ph, ⟨-, huniq, -⟩, -⟩
    exact huniq
  · intro huniq
    obtain ⟨⟨method, scheme, path, authority, seen⟩, hscan, hform⟩ := valid_iff.1 h
    obtain ⟨harr, hm, hs, hp, ha⟩ := scan_iff.1 hscan
    have hkeep {n : Bytes} (hn : n ∈ requestPseudoNames) {r : Option Bytes}
        (hk : keep none (values n (qpackFields lines)) = some r) :
        r = (field n (hpackFields lines)).bind Http3.appendCopy := by
      rw [keep_unique (by rw [hlen']; exact huniq n hn) hk, values_qpackFields]
    obtain ⟨-, hpath, hseen⟩ := keepPath_some.1 hp
    rw [values_qpackFields] at hpath
    rw [values_qpackFields_isEmpty, Bool.not_not] at hseen
    dsimp only at hm hs ha hpath hseen
    cases hkeep (by simp [requestPseudoNames]) hm
    cases hkeep (by simp [requestPseudoNames]) hs
    cases hkeep (by simp [requestPseudoNames]) ha
    cases hpath
    cases hseen
    exact ⟨_, ⟨arranged_qpackFields harr, huniq, rfl⟩, pseudoForm_of_copies hform⟩

/-- What HTTP/3 accepts and HTTP/2 refuses is what repeats a pseudo-header. -/
theorem http2_accepts_iff_unique (h2 : Conn.Env) (h3 : Http3.Env) (lines : List (Bytes × Bytes))
    (hsize : Conn.fieldSectionSize (hpackFields lines) ≤ h2.cfg.maxHeaderBytes)
    (h : acceptsHttp3 h3 lines = true) : acceptsHttp2 h2 lines = true ↔
      ∀ n ∈ requestPseudoNames, (lines.filter (·.1 = n)).length ≤ 1 := by
  obtain ⟨hforms, hvalid⟩ := of_acceptsHttp3 h
  rw [acceptsHttp2_iff hsize, valid_hpackFields_iff hvalid]
  exact and_iff_right hforms

def anyTarget : Http3.Env where
  decodeFieldSection _ := ([], none)
  parseRequestURI _ := true

def linesWith (authorities : List String) : List (Bytes × Bytes) :=
  [(ascii ":method", ascii "GET"), (ascii ":scheme", ascii "https"), (ascii ":path", ascii "/")] ++
    authorities.map fun a => (ascii ":authority", ascii a)

theorem http2_accepts_of_linesWith : acceptsHttp3 anyTarget (linesWith ["a"]) = true ∧
    acceptsHttp2 Conn.getRequests (linesWith ["a"]) = true :=
  ⟨by decide +kernel, (http2_accepts_iff_unique Conn.getRequests anyTarget (linesWith ["a"])
    (by decide +kernel) (by decide +kernel)).2 (by decide +kernel)⟩

/-- HTTP/3 takes the second authority when the first is empty. -/
theorem authority_repeated_after_empty :
    acceptsHttp3 anyTarget (linesWith ["", "b"]) = true ∧
    Conn.fieldSectionSize (hpackFields (linesWith ["", "b"])) ≤
      Conn.getRequests.cfg.maxHeaderBytes ∧
    acceptsHttp2 Conn.getRequests (linesWith ["", "b"]) = false := by
  decide +kernel

end PoseidonServer.FrontDoors
