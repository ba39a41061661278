import Mathlib.Data.List.Induction
import PoseidonServer.Http3.Request

/-! The frame sequences that make up a request, and what `decodeRequest` says of the others. -/

namespace PoseidonServer.Http3

inductive FrameKind
  | headers | data | control | ignorable
  deriving DecidableEq

def Frame.kind (f : Frame) : FrameKind :=
  if f.typ = frameHeaders then .headers
  else if f.typ = frameData then .data
  else if f.typ ∈ controlFrames then .control
  else .ignorable

def Ignorable (fs : List Frame) : Prop := ∀ f ∈ fs, f.kind = .ignorable

def contentOf (fs : List Frame) : Bytes :=
  ((fs.filter (·.kind = .data)).map (·.payload)).flatten

def Content (fs : List Frame) (hdr body : Bytes) : Prop :=
  ∃ lead h mid, fs = lead ++ h :: mid ∧ Ignorable lead ∧ h.kind = .headers ∧ h.payload = hdr ∧
    (∀ f ∈ mid, f.kind = .data ∨ f.kind = .ignorable) ∧ contentOf mid = body

def Trailed (fs : List Frame) (hdr body : Bytes) : Prop :=
  ∃ before t after, fs = before ++ t :: after ∧ Content before hdr body ∧ t.kind = .headers ∧
    Ignorable after

def Message (fs : List Frame) (hdr body : Bytes) : Prop := Content fs hdr body ∨ Trailed fs hdr body

/-- The beginning of a request whose header section, if it has arrived, can be decoded. -/
def Begins (env : Env) (fs : List Frame) : Prop :=
  Ignorable fs ∨ ∃ hdr body fields, Message fs hdr body ∧ decodeFields env hdr = .ok fields

/-- The frame `f` is the first one out of place, after the frames `before`. -/
inductive Offends (env : Env) (before : List Frame) (f : Frame) : RequestError → Prop
  | early : Ignorable before → f.kind = .data →
      Offends env before f (unexpected f.typ "arrived outside the message content (RFC 9114 §4.1)")
  | fieldSection : Ignorable before → f.kind = .headers → decodeFields env f.payload = .error e →
      Offends env before f e
  | late : Trailed before hdr body → decodeFields env hdr = .ok fields → f.kind = .data →
      Offends env before f (unexpected f.typ "arrived outside the message content (RFC 9114 §4.1)")
  | third : Trailed before hdr body → decodeFields env hdr = .ok fields → f.kind = .headers →
      Offends env before f
        (unexpected f.typ "arrived after the trailing HEADERS frame (RFC 9114 §4.1)")
  | control : Begins env before → f.kind = .control →
      Offends env before f (unexpected f.typ "is not permitted on a request stream (RFC 9114 §7.2)")

/-- Why a stream of the frames `fs`, with `rest` left over, is no request. -/
inductive Refused (env : Env) (fs : List Frame) (rest : Bytes) : RequestError → Prop
  | frame : fs = before ++ f :: after → Offends env before f e → Refused env fs rest e
  | truncated : Message fs hdr body → decodeFields env hdr = .ok fields →
      readFrame rest = .error .needMore → rest ≠ [] → Refused env fs rest (truncatedFrame rest)
  | incomplete : Ignorable fs → readFrame rest = .error .needMore → Refused env fs rest .incomplete
  | tooLarge : Begins env fs → readFrame rest = .error .frameTooLarge →
      Refused env fs rest (.reader .frameTooLarge)

variable {env : Env} {fs : List Frame} {f : Frame} {st : Sequence}

@[simp] theorem contentOf_nil : contentOf [] = [] := rfl

@[simp] theorem contentOf_append (fs gs : List Frame) :
    contentOf (fs ++ gs) = contentOf fs ++ contentOf gs := by
  simp [contentOf]

theorem contentOf_data (h : f.kind = .data) : contentOf [f] = f.payload := by
  simp [contentOf, h]

theorem contentOf_ignorable (h : f.kind = .ignorable) : contentOf [f] = [] := by
  simp [contentOf, h]

theorem ignorable_append (h : Ignorable fs) (hf : f.kind = .ignorable) : Ignorable (fs ++ [f]) := by
  simpa [Ignorable, or_imp, forall_and, hf] using h

theorem Content.append {hdr body : Bytes} (h : Content fs hdr body)
    (hf : f.kind = .data ∨ f.kind = .ignorable) :
    Content (fs ++ [f]) hdr (body ++ contentOf [f]) := by
  obtain ⟨lead, h, mid, rfl, hlead, hh, hp, hmid, rfl⟩ := h
  refine ⟨lead, h, mid ++ [f], by simp, hlead, hh, hp, ?_, by simp⟩
  simpa [or_imp, forall_and, hf] using hmid

theorem Trailed.append {hdr body : Bytes} (h : Trailed fs hdr body) (hf : f.kind = .ignorable) :
    Trailed (fs ++ [f]) hdr body := by
  obtain ⟨before, t, after, rfl, hb, ht, ha⟩ := h
  exact ⟨before, t, after ++ [f], by simp, hb, ht, ignorable_append ha hf⟩

theorem Ignorable.content (h : Ignorable fs) (hf : f.kind = .headers) :
    Content (fs ++ [f]) f.payload [] :=
  ⟨fs, f, [], rfl, h, hf, rfl, by simp, rfl⟩

theorem Content.trailed {hdr body : Bytes} (h : Content fs hdr body) (hf : f.kind = .headers) :
    Trailed (fs ++ [f]) hdr body :=
  ⟨fs, f, [], rfl, h, hf, by simp [Ignorable]⟩

inductive After (env : Env) (fs : List Frame) : Sequence → Prop
  | leading : Ignorable fs → After env fs {}
  | content : Content fs hdr body → decodeFields env hdr = .ok fields →
      After env fs ⟨fields, body, true, false⟩
  | trailed : Trailed fs hdr body → decodeFields env hdr = .ok fields →
      After env fs ⟨fields, body, true, true⟩

theorem After.begins (h : After env fs st) : Begins env fs := by
  cases h with
  | leading h => exact .inl h
  | content h hd => exact .inr ⟨_, _, _, .inl h, hd⟩
  | trailed h hd => exact .inr ⟨_, _, _, .inr h, hd⟩

theorem Begins.after (h : Begins env fs) : ∃ st, After env fs st := by
  obtain h | ⟨hdr, body, fields, h | h, hd⟩ := h
  · exact ⟨_, .leading h⟩
  · exact ⟨_, .content h hd⟩
  · exact ⟨_, .trailed h hd⟩

section OnFrame

theorem onFrame_headers (hf : f.kind = .headers) : onFrame env st f =
    if st.trailers then
      .error (unexpected f.typ "arrived after the trailing HEADERS frame (RFC 9114 §4.1)")
    else if st.seen then .ok { st with trailers := true }
    else match decodeFields env f.payload with
      | .error e => .error e
      | .ok fields => .ok { st with seen := true, fields := fields } := by
  unfold Frame.kind at hf
  split_ifs at hf with h₁
  exact if_pos h₁

theorem onFrame_data (hf : f.kind = .data) : onFrame env st f =
    if !st.seen || st.trailers then
      .error (unexpected f.typ "arrived outside the message content (RFC 9114 §4.1)")
    else .ok { st with body := st.body ++ f.payload } := by
  unfold Frame.kind at hf
  split_ifs at hf with h₁ h₂
  rw [onFrame, if_neg h₁, if_pos h₂]

theorem onFrame_control (hf : f.kind = .control) : onFrame env st f =
    .error (unexpected f.typ "is not permitted on a request stream (RFC 9114 §7.2)") := by
  unfold Frame.kind at hf
  split_ifs at hf with h₁ h₂ h₃
  rw [onFrame, if_neg h₁, if_neg h₂, if_pos h₃]

theorem onFrame_ignorable (hf : f.kind = .ignorable) : onFrame env st f = .ok st := by
  unfold Frame.kind at hf
  split_ifs at hf with h₁ h₂ h₃
  rw [onFrame, if_neg h₁, if_neg h₂, if_neg h₃]

end OnFrame

theorem After.step (h : After env fs st) :
    (∃ st', onFrame env st f = .ok st' ∧ After env (fs ++ [f]) st') ∨
      ∃ e, onFrame env st f = .error e ∧ Offends env fs f e := by
  cases hk : f.kind with
  | headers =>
    rw [onFrame_headers hk]
    cases h with
    | leading h =>
      cases hd : decodeFields env f.payload with
      | error e => exact .inr ⟨e, rfl, .fieldSection h hk hd⟩
      | ok fields => exact .inl ⟨_, rfl, .content (h.content hk) hd⟩
    | content h hd => exact .inl ⟨_, rfl, .trailed (h.trailed hk) hd⟩
    | trailed h hd => exact .inr ⟨_, rfl, .third h hd hk⟩
  | data =>
    rw [onFrame_data hk]
    cases h with
    | leading h => exact .inr ⟨_, rfl, .early h hk⟩
    | content h hd =>
      refine .inl ⟨_, rfl, .content ?_ hd⟩
      simpa [contentOf_data hk] using h.append (.inl hk)
    | trailed h hd => exact .inr ⟨_, rfl, .late h hd hk⟩
  | control =>
    rw [onFrame_control hk]
    exact .inr ⟨_, rfl, .control h.begins hk⟩
  | ignorable =>
    rw [onFrame_ignorable hk]
    refine .inl ⟨st, rfl, ?_⟩
    cases h with
    | leading h => exact .leading (ignorable_append h hk)
    | content h hd =>
      refine .content ?_ hd
      simpa [contentOf_ignorable hk] using h.append (.inr hk)
    | trailed h hd => exact .trailed (h.append hk) hd

theorem foldlM_eq_ok : fs.foldlM (onFrame env) {} = .ok st → After env fs st := by
  induction fs using List.reverseRecOn generalizing st with
  | nil =>
    intro h
    cases h
    exact .leading (by simp [Ignorable])
  | append_singleton fs f ih =>
    intro h
    rw [List.foldlM_append, except_bind_eq_ok] at h
    obtain ⟨st', hst', h⟩ := h
    simp only [List.foldlM_cons, List.foldlM_nil, bind_pure] at h
    obtain ⟨_, hf, hafter⟩ | ⟨e, hf, -⟩ := (ih hst').step (f := f)
    · rw [hf] at h
      cases h
      exact hafter
    · rw [hf] at h
      cases h

theorem foldlM_ignorable (h : Ignorable fs) (st : Sequence) : fs.foldlM (onFrame env) st = .ok st := by
  induction fs with
  | nil => rfl
  | cons f fs ih =>
    rw [List.foldlM_cons, onFrame_ignorable (h f (by simp))]
    exact ih fun g hg => h g (by simp [hg])

theorem foldlM_content {fields : List HeaderField} {body : Bytes}
    (h : ∀ f ∈ fs, f.kind = .data ∨ f.kind = .ignorable) :
    fs.foldlM (onFrame env) ⟨fields, body, true, false⟩
      = .ok ⟨fields, body ++ contentOf fs, true, false⟩ := by
  induction fs generalizing body with
  | nil => simp; rfl
  | cons f fs ih =>
    have hfs : ∀ g ∈ fs, g.kind = .data ∨ g.kind = .ignorable := fun g hg => h g (by simp [hg])
    rw [List.foldlM_cons, ← List.singleton_append, contentOf_append]
    obtain hf | hf := h f (by simp)
    · rw [onFrame_data hf, contentOf_data hf, ← List.append_assoc]
      exact ih hfs
    · rw [onFrame_ignorable hf, contentOf_ignorable hf]
      exact ih hfs

theorem Content.foldlM {hdr body : Bytes} {fields : List HeaderField} (h : Content fs hdr body)
    (hd : decodeFields env hdr = .ok fields) :
    fs.foldlM (onFrame env) {} = .ok ⟨fields, body, true, false⟩ := by
  obtain ⟨lead, h, mid, rfl, hlead, hh, rfl, hmid, rfl⟩ := h
  rw [List.foldlM_append, foldlM_ignorable hlead, except_ok_bind, List.foldlM_cons, onFrame_headers hh, hd]
  exact foldlM_content hmid

theorem After.foldlM (h : After env fs st) : fs.foldlM (onFrame env) {} = .ok st := by
  cases h with
  | leading h => exact foldlM_ignorable h _
  | content h hd => exact h.foldlM hd
  | trailed h hd =>
    obtain ⟨before, t, after, rfl, hb, ht, ha⟩ := h
    rw [List.foldlM_append, hb.foldlM hd, except_ok_bind, List.foldlM_cons, onFrame_headers ht]
    exact foldlM_ignorable ha _

theorem offends_iff {e : RequestError} : Offends env fs f e ↔
    ∃ st, fs.foldlM (onFrame env) {} = .ok st ∧ onFrame env st f = .error e := by
  constructor
  · intro h
    cases h with
    | early h hk => exact ⟨_, (After.leading h).foldlM, onFrame_data hk⟩
    | fieldSection h hk he =>
      refine ⟨_, (After.leading h).foldlM, ?_⟩
      rw [onFrame_headers hk, he]
      rfl
    | late h hd hk => exact ⟨_, (After.trailed h hd).foldlM, onFrame_data hk⟩
    | third h hd hk => exact ⟨_, (After.trailed h hd).foldlM, onFrame_headers hk⟩
    | control h hk =>
      obtain ⟨st, hst⟩ := h.after
      exact ⟨st, hst.foldlM, onFrame_control hk⟩
  · rintro ⟨st, hst, hf⟩
    obtain ⟨_, hok, -⟩ | ⟨_, herr, h⟩ := (foldlM_eq_ok hst).step (f := f)
    · rw [hf] at hok
      cases hok
    · rw [hf] at herr
      cases herr
      exact h

theorem After.message (h : After env fs st) (hs : st.seen = true) :
    ∃ hdr, Message fs hdr st.body ∧ decodeFields env hdr = .ok st.fields := by
  cases h with
  | leading => cases hs
  | content h hd => exact ⟨_, .inl h, hd⟩
  | trailed h hd => exact ⟨_, .inr h, hd⟩

theorem After.ignorable (h : After env fs st) (hs : st.seen = false) : Ignorable fs := by
  cases h with
  | leading h => exact h
  | content | trailed => cases hs

theorem Message.after {hdr body : Bytes} {fields : List HeaderField} (h : Message fs hdr body)
    (hd : decodeFields env hdr = .ok fields) :
    ∃ st, After env fs st ∧ st.seen = true ∧ st.fields = fields ∧ st.body = body := by
  obtain h | h := h
  · exact ⟨_, .content h hd, rfl, rfl, rfl⟩
  · exact ⟨_, .trailed h hd, rfl, rfl, rfl⟩

theorem decodeFrames_eq {stream rest : Bytes} (h : frameReader.Cuts stream fs rest) :
    decodeFrames env stream = fs.foldlM (onFrame env) {} >>= fun st => onReadError st rest :=
  h.process_eq _ _ (Nat.lt_succ_self _) _

theorem readFrame_rest {stream rest : Bytes} (h : frameReader.Cuts stream fs rest) :
    ∃ e, readFrame rest = .error e := by
  have h := h.stuck
  cases hr : readFrame rest with
  | error e => exact ⟨e, rfl⟩
  | ok r => simp [frameReader, frameReaderUpTo, ← readFrame.eq_1, hr, Except.toOption] at h

inductive Leftover (rest : Bytes) : Prop
  | none : rest = [] → Leftover rest
  | cut : rest ≠ [] → readFrame rest = .error .needMore → Leftover rest
  | large : readFrame rest = .error .frameTooLarge → Leftover rest

theorem leftover {stream rest : Bytes} (h : frameReader.Cuts stream fs rest) : Leftover rest := by
  obtain ⟨e, he⟩ := readFrame_rest h
  cases e with
  | frameTooLarge => exact .large he
  | needMore =>
    by_cases hr : rest = []
    · exact .none hr
    · exact .cut hr he

theorem onReadError_nil (st : Sequence) : onReadError st [] =
    if st.seen then .ok (st.fields, st.body) else .error .incomplete := by
  cases h : st.seen <;> simp [onReadError, readFrame, readFrameUpTo, parseFrameHeader, varint, h]

theorem onReadError_cut {rest : Bytes} (hr : rest ≠ []) (h : readFrame rest = .error .needMore)
    (st : Sequence) : onReadError st rest =
      .error (if st.seen then truncatedFrame rest else .incomplete) := by
  have hr : 0 < rest.length := List.length_pos_iff.2 hr
  cases hs : st.seen <;> simp [onReadError, h, hs, hr]

theorem onReadError_large {rest : Bytes} (h : readFrame rest = .error .frameTooLarge)
    (st : Sequence) : onReadError st rest = .error (.reader .frameTooLarge) := by
  simp [onReadError, h]

theorem decodeFrames_eq_ok {stream rest body : Bytes} {fields : List HeaderField}
    (h : frameReader.Cuts stream fs rest) : decodeFrames env stream = .ok (fields, body) ↔
      rest = [] ∧ ∃ hdr, Message fs hdr body ∧ decodeFields env hdr = .ok fields := by
  rw [decodeFrames_eq h, except_bind_eq_ok]
  constructor
  · rintro ⟨st, hst, hr⟩
    cases leftover h with
    | none hnil =>
      subst hnil
      rw [onReadError_nil] at hr
      split at hr <;> cases hr
      exact ⟨rfl, (foldlM_eq_ok hst).message ‹_›⟩
    | cut hne hcut => simp [onReadError_cut hne hcut] at hr
    | large hlarge => simp [onReadError_large hlarge] at hr
  · rintro ⟨rfl, hdr, hm, hd⟩
    obtain ⟨st, hst, hs, rfl, rfl⟩ := hm.after hd
    exact ⟨st, hst.foldlM, by rw [onReadError_nil, if_pos hs]⟩

theorem decodeFrames_eq_error {stream rest : Bytes} {e : RequestError}
    (h : frameReader.Cuts stream fs rest) :
    decodeFrames env stream = .error e ↔ Refused env fs rest e := by
  rw [decodeFrames_eq h, except_bind_eq_error, foldlM_eq_error]
  constructor
  · rintro (⟨before, f, after, st, hfs, hst, hf⟩ | ⟨st, hst, hr⟩)
    · exact .frame hfs (offends_iff.2 ⟨st, hst, hf⟩)
    have hafter := foldlM_eq_ok hst
    cases leftover h with
    | none hnil =>
      subst hnil
      rw [onReadError_nil] at hr
      split at hr <;> cases hr
      exact .incomplete (hafter.ignorable (by simpa using ‹¬st.seen = true›)) rfl
    | cut hne hcut =>
      rw [onReadError_cut hne hcut] at hr
      cases hr
      split
      · obtain ⟨hdr, hm, hd⟩ := hafter.message ‹_›
        exact .truncated hm hd hcut hne
      · exact .incomplete (hafter.ignorable (by simpa using ‹¬st.seen = true›)) hcut
    | large hlarge =>
      rw [onReadError_large hlarge] at hr
      cases hr
      exact .tooLarge hafter.begins hlarge
  · rintro (⟨hfs, hf⟩ | ⟨hm, hd, hcut, hne⟩ | ⟨hi, hcut⟩ | ⟨hb, hlarge⟩)
    · obtain ⟨st, hst, he⟩ := offends_iff.1 hf
      exact .inl ⟨_, _, _, st, hfs, hst, he⟩
    · obtain ⟨st, hst, hs, -⟩ := hm.after hd
      exact .inr ⟨st, hst.foldlM, by rw [onReadError_cut hne hcut, if_pos hs]⟩
    · refine .inr ⟨{}, (After.leading hi).foldlM, ?_⟩
      by_cases hne : rest = []
      · subst hne
        rfl
      · exact onReadError_cut hne hcut {}
    · obtain ⟨st, hst⟩ := hb.after
      exact .inr ⟨st, hst.foldlM, onReadError_large hlarge st⟩

/-- A stream is handed on to `buildRequest` when its frames are a request with a header section
that can be decoded and nothing is left over, with the octets of its DATA frames as the body; every
other stream is refused, for the first thing that is wrong with it. -/
theorem requests_by_frames (env : Env) (stream : Bytes) : ∃ fs rest,
    frameReader.Cuts stream fs rest ∧
    (∀ fields body, decodeFrames env stream = .ok (fields, body) ↔
      rest = [] ∧ ∃ hdr, Message fs hdr body ∧ decodeFields env hdr = .ok fields) ∧
    ∀ e, decodeFrames env stream = .error e ↔ Refused env fs rest e := by
  obtain ⟨fs, rest, h⟩ := frameReader.exists_cuts stream
  exact ⟨fs, rest, h, fun _ _ => decodeFrames_eq_ok h, fun _ => decodeFrames_eq_error h⟩

def prefixDecoder : Env where
  decodeFieldSection s := if s.length < 2 then ([], some "unexpected end of the field section") else ([], none)
  parseRequestURI _ := true

/-- One HEADERS frame with an empty section is a complete request by its frames, and its section
cannot be decoded. -/
theorem undecodable_section_is_refused : ∃ fs, frameReader.Cuts [0x01, 0x00] fs [] ∧
    Message fs [] [] ∧ decodeFrames prefixDecoder [0x01, 0x00] =
      .error (.qpack "unexpected end of the field section") := by
  refine ⟨[⟨1, []⟩], .item rfl (.stop rfl), .inl ⟨[], _, [], rfl, ?_, rfl, rfl, ?_, rfl⟩, rfl⟩
  · simp [Ignorable]
  · simp

end PoseidonServer.Http3
