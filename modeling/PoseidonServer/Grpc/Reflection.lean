import PoseidonServer.Grpc.Fields
import PoseidonServer.Grpc.Status

/-! The messages of the reflection service: the decoder of its requests and the encoders of its
responses. -/

namespace PoseidonServer.Grpc

open Outcome Protobuf

structure ReflectionRequest where
  host : Bytes := []
  listAll : Bool := false
  listServices : Bytes := []
  fileByFilename : Bytes := []
  fileContainingSymbol : Bytes := []
  allExtensionNumbers : Bytes := []
  deriving DecidableEq

inductive ProtoError
  | invalidVarint
  | truncated
  | unknownWireType
  deriving DecidableEq

def ReflectionRequest.set (req : ReflectionRequest) (fieldNum : Int) (val : Bytes) :
    ReflectionRequest :=
  match fieldNum with
  | 1 => { req with host := val }
  | 3 => { req with fileByFilename := val }
  | 4 => { req with fileContainingSymbol := val }
  | 7 => { req with listServices := val, listAll := true }
  | _ => req

def requestStep (data : Bytes) : Int × ReflectionRequest →
    Outcome ((Int × ReflectionRequest) ⊕ Except ProtoError ReflectionRequest)
  | (pos, req) =>
    if pos < data.length then do
      match ← readVarint data pos with
      | none => pure (.inr (.error .invalidVarint))
      | some (tag, pos) =>
        match wireType tag with
        | 2 =>
          if pos ≥ data.length then pure (.inr (.error .truncated))
          else do
            match ← readVarint data pos with
            | none => pure (.inr (.error .invalidVarint))
            | some (length, pos) =>
              let stop := int64 (pos + int64 length.toNat)
              if stop > data.length ∨ stop < pos then pure (.inr (.error .truncated))
              else do
                let val ← slice data pos stop
                pure (.inl (stop, req.set (fieldNumber tag) val))
        | 0 => do
          match ← readVarint data pos with
          | none => pure (.inr (.error .invalidVarint))
          | some (_, pos) => pure (.inl (pos, req))
        | _ => pure (.inr (.error .unknownWireType))
    else pure (.inr (.ok req))

def decodeReflectionRequest (data : Bytes) : Nat → Outcome (Except ProtoError ReflectionRequest) :=
  loop (fun s _ => requestStep data s) (0, {})

/-! The encoders. -/

def appendVarint (buf : Bytes) (v : UInt64) : Bytes :=
  if _h : v ≥ 0x80 then appendVarint (buf ++ [v.toUInt8 ||| 0x80]) (v >>> 7) else buf ++ [v.toUInt8]
termination_by v.toNat
decreasing_by
  have h128 : 128 ≤ v.toNat := _h
  rw [UInt64.toNat_shiftRight, show (7 : UInt64).toNat % 64 = 7 from rfl, Nat.shiftRight_eq_div_pow]
  omega

def appendTag (buf : Bytes) (fieldNum wireType : Nat) : Bytes :=
  appendVarint buf (UInt64.ofNat fieldNum <<< 3 ||| UInt64.ofNat wireType)

/-- The body of `appendStringField`, `appendBytesField` and `appendMessageField`. -/
def appendOctetsField (buf : Bytes) (fieldNum : Nat) (s : Bytes) : Bytes :=
  appendVarint (appendTag buf fieldNum 2) (UInt64.ofNat s.length) ++ s

def appendStringField (buf : Bytes) (fieldNum : Nat) (s : Bytes) : Bytes :=
  appendOctetsField buf fieldNum s

def appendBytesField (buf : Bytes) (fieldNum : Nat) (b : Bytes) : Bytes :=
  appendOctetsField buf fieldNum b

def appendMessageField (buf : Bytes) (fieldNum : Nat) (msg : Bytes) : Bytes :=
  appendOctetsField buf fieldNum msg

def appendVarintField (buf : Bytes) (fieldNum : Nat) (v : UInt64) : Bytes :=
  appendVarint (appendTag buf fieldNum 0) v

def encodeListServiceResponse (serviceNames : List Bytes) : Bytes :=
  let services := serviceNames.foldl
    (fun services name => appendMessageField services 1 (appendStringField [] 1 name)) []
  appendMessageField [] 6 services

def encodeFileDescriptorResponse (files : List Bytes) : Bytes :=
  let fdr := files.foldl (fun fdr f => appendBytesField fdr 1 f) []
  appendMessageField [] 4 fdr

def encodeErrorResponse (code : Code) (message : Bytes) : Bytes :=
  let errResp := appendVarintField [] 1 code.toUInt64
  let errResp := appendStringField errResp 2 message
  appendMessageField [] 7 errResp

def encodeReflectionResponse (host originalRequest messageResponse : Bytes) : Bytes :=
  let buf := if host ≠ [] then appendStringField [] 1 host else []
  let buf := if originalRequest ≠ [] then appendMessageField buf 2 originalRequest else buf
  buf ++ messageResponse

/-! Requests. -/

section Requests

variable {data : Bytes} {pos : Int}

theorem readVarint_lt {v : UInt64} {q : Int} (hlen : data.length < 2 ^ 63) (h₀ : 0 ≤ pos)
    (h₁ : pos ≤ data.length) (h : readVarint data pos = .ok (some (v, q))) :
    pos < q ∧ q ≤ data.length := by
  have hs : slice data pos data.length = .ok (data.drop pos.toNat) := by
    simp [slice, h₀, h₁]
  have hn := decodeVarint_le (data.drop pos.toNat)
  rw [List.length_drop] at hn
  simp only [readVarint, hs, ok_bind, pure_eq, Outcome.ok.injEq] at h
  split at h
  · cases h
  · rename_i hne
    simp only [Option.some.injEq, Prod.mk.injEq] at h
    rw [int64_of_range (by omega) (by omega)] at h
    omega

def Advances (data : Bytes) (pos : Int) :
    Outcome ((Int × ReflectionRequest) ⊕ Except ProtoError ReflectionRequest) → Prop
  | .ok (.inl (q, _)) => pos < q ∧ q ≤ data.length
  | .ok (.inr _) => True
  | _ => False

theorem requestStep_advances (hlen : data.length < 2 ^ 63) (h₀ : 0 ≤ pos) (h₁ : pos ≤ data.length)
    (req : ReflectionRequest) : Advances data pos (requestStep data (pos, req)) := by
  rw [requestStep]
  split
  · obtain h | ⟨tag, p, h, hp⟩ := readVarint_ok hlen h₀ h₁
    · rw [h]
      trivial
    have hlt := readVarint_lt hlen h₀ h₁ h
    rw [h, ok_bind]
    dsimp only
    obtain h' | ⟨v, q, h', hq⟩ := readVarint_ok hlen hp.1 hp.2
    · rw [h']
      dsimp only [ok_bind]
      split <;> (try split) <;> trivial
    have hlt' := readVarint_lt hlen hp.1 hp.2 h'
    rw [h', ok_bind]
    dsimp only [ok_bind]
    split
    · split
      · trivial
      split
      · trivial
      · rename_i hstop
        push Not at hstop
        rw [slice, if_pos ⟨hq.1, hstop.2, hstop.1⟩]
        exact ⟨by omega, hstop.1⟩
    · exact ⟨by omega, hlt'.2⟩
    · trivial
  · trivial

theorem loop_requestStep_ok (hlen : data.length < 2 ^ 63) (h₀ : 0 ≤ pos) (h₁ : pos ≤ data.length)
    (req : ReflectionRequest) {n : Nat} (hn : data.length - pos < n) :
    ∃ r, loop (fun s _ => requestStep data s) (pos, req) n = .ok r := by
  induction n generalizing pos req with
  | zero => omega
  | succ n ih =>
    have hstep := requestStep_advances hlen h₀ h₁ req
    rw [loop]
    generalize requestStep data (pos, req) = out at hstep ⊢
    cases out with
    | ok v =>
      obtain ⟨q, req'⟩ | r := v
      · obtain ⟨hlt, hle⟩ := hstep
        exact ih (by omega) hle req' (by omega)
      · exact ⟨r, rfl⟩
    | _ => cases hstep

def ReflectionRequest.give (req : ReflectionRequest) (f : WireField) : ReflectionRequest :=
  match f.payload with
  | .len s => req.set f.number s
  | _ => req

theorem requestStep_octets {tag length : UInt64} {p start stop : Int} {s : Bytes}
    (hpos : pos < data.length) (htag : readVarint data pos = .ok (some (tag, p)))
    (hw : wireType tag = 2) (hp : p < data.length)
    (hlength : readVarint data p = .ok (some (length, start)))
    (hstop : int64 (start + int64 length.toNat) = stop) (hle : start ≤ stop)
    (hin : stop ≤ data.length) (hs : slice data start stop = .ok s) (req : ReflectionRequest) :
    requestStep data (pos, req) = .ok (.inl (stop, req.set (fieldNumber tag) s)) := by
  have hout : ¬(stop > data.length ∨ stop < start) := by omega
  simp only [requestStep, if_pos hpos, htag, ok_bind, hw, ge_iff_le, if_neg (Int.not_le.2 hp), hlength]
  rw [hstop, if_neg hout, hs, ok_bind, pure_eq]

theorem requestStep_varint {tag v : UInt64} {p q : Int} (hpos : pos < data.length)
    (htag : readVarint data pos = .ok (some (tag, p))) (hw : wireType tag = 0)
    (hv : readVarint data p = .ok (some (v, q))) (req : ReflectionRequest) :
    requestStep data (pos, req) = .ok (.inl (q, req)) := by
  simp only [requestStep, if_pos hpos, htag, ok_bind, hw, hv, pure_eq]

theorem requestStep_append (pre rest : Bytes) {f : WireField} {tag value : Bytes}
    (h : f.Encodes tag value) (hw : f.payload.wireType = 0 ∨ f.payload.wireType = 2)
    (hdata : (pre ++ (tag ++ value) ++ rest).length < 2 ^ 63) (req : ReflectionRequest) :
    requestStep (pre ++ (tag ++ value) ++ rest) ((pre.length : Int), req) =
      .ok (.inl (((pre ++ (tag ++ value)).length : Int), req.give f)) := by
  have htag : readVarint (pre ++ (tag ++ value) ++ rest) pre.length =
      .ok (some (UInt64.ofNat (8 * f.number + f.payload.wireType), (pre ++ tag).length)) := by
    have := readVarint_append pre (value ++ rest) h.tagged h.short
    simp only [List.append_assoc] at this hdata ⊢
    exact this hdata
  have hwire := wireType_tag (p := f.payload) h.number_lt
  have hnumber := fieldNumber_tag (p := f.payload) h.number_lt
  have htagged := h.tagged.length_pos
  have hlen := hdata
  simp only [List.length_append] at hlen
  have hpos : (pre.length : Int) < (pre ++ (tag ++ value) ++ rest).length := by
    simp only [List.length_append]
    omega
  generalize UInt64.ofNat (8 * f.number + f.payload.wireType) = t at htag hwire hnumber
  obtain ⟨number, payload⟩ := f
  cases h.valued with
  | varint _ hvalue hshort =>
    have hval := readVarint_append (pre ++ tag) rest hvalue hshort
    rw [List.append_assoc pre tag value] at hval
    exact requestStep_varint hpos htag hwire (hval hdata) req
  | i64 | i32 => simp [Payload.wireType] at hw
  | @len s ls hvalue hshort =>
    have hlength := readVarint_append (pre ++ tag) (s ++ rest) hvalue hshort
    have hslice := slice_append (pre ++ tag ++ ls) rest s
    have hnat := toNat_ofNat_of_lt (v := s.length) (by simp at hlen; omega)
    have hlspos := hvalue.length_pos
    generalize UInt64.ofNat s.length = length at hlength hnat
    simp only [List.append_assoc] at hlength hslice hdata htag hpos ⊢
    simp only [List.length_append] at hlen
    rw [ReflectionRequest.give, ← hnumber]
    refine requestStep_octets hpos htag hwire ?_ (hlength hdata) ?_ ?_ ?_ hslice req
    · simp only [List.length_append]
      omega
    · rw [hnat, int64_of_range (v := s.length) (by omega) (by omega)]
      simp only [List.length_append, Nat.cast_add]
      rw [int64_of_range (by omega) (by omega)]
      omega
    · simp only [List.length_append]
      omega
    · simp only [List.length_append]
      omega

theorem requestStep_message (pre : Bytes) {fs : List WireField} {rest : Bytes}
    (h : Message fs rest) (hw : ∀ f ∈ fs, f.payload.wireType = 0 ∨ f.payload.wireType = 2)
    (hdata : (pre ++ rest).length < 2 ^ 63) {n : Nat} (hn : fs.length < n)
    (req : ReflectionRequest) :
    loop (fun s _ => requestStep (pre ++ rest) s) ((pre.length : Int), req) n =
      .ok (.ok (fs.foldl ReflectionRequest.give req)) := by
  induction h generalizing pre n req with
  | nil =>
    obtain ⟨n, rfl⟩ : ∃ j, n = j + 1 := ⟨n - 1, by omega⟩
    simp [loop, requestStep]
  | @cons f fs tag value rest h _ ih =>
    obtain ⟨n, rfl⟩ : ∃ j, n = j + 1 := ⟨n - 1, by omega⟩
    rw [List.forall_mem_cons] at hw
    simp only [List.length_cons, Nat.add_lt_add_iff_right] at hn
    rw [← List.append_assoc] at hdata ⊢
    rw [loop, requestStep_append pre rest h hw.1 hdata]
    exact ih _ hw.2 hdata hn _

def lastOctets (number : Nat) (fs : List WireField) : Bytes :=
  (fs.filterMap (octetsOf number)).getLast?.getD []

theorem foldl_give {number : Nat} {val : ReflectionRequest → Bytes}
    (hval : ∀ req f, val (req.give f) = (octetsOf number f).getD (val req))
    (fs : List WireField) (req : ReflectionRequest) :
    val (fs.foldl ReflectionRequest.give req) =
      (fs.filterMap (octetsOf number)).getLast?.getD (val req) := by
  induction fs generalizing req with
  | nil => rfl
  | cons f fs ih =>
    rw [List.foldl_cons, ih, hval, List.filterMap_cons]
    cases octetsOf number f with
    | none => rfl
    | some s => simp [List.getLast?_cons]

theorem give_known (req : ReflectionRequest) (f : WireField) :
    (req.give f).host = (octetsOf 1 f).getD req.host ∧
    (req.give f).fileByFilename = (octetsOf 3 f).getD req.fileByFilename ∧
    (req.give f).fileContainingSymbol = (octetsOf 4 f).getD req.fileContainingSymbol ∧
    (req.give f).listServices = (octetsOf 7 f).getD req.listServices ∧
    (req.give f).allExtensionNumbers = req.allExtensionNumbers := by
  obtain ⟨number, payload⟩ := f
  cases payload with
  | len s =>
    simp only [ReflectionRequest.give, octetsOf]
    unfold ReflectionRequest.set
    split <;> grind
  | _ => simp [ReflectionRequest.give, octetsOf]

theorem foldl_allExtensionNumbers (fs : List WireField) (req : ReflectionRequest) :
    (fs.foldl ReflectionRequest.give req).allExtensionNumbers = req.allExtensionNumbers := by
  induction fs generalizing req with
  | nil => rfl
  | cons f fs ih => rw [List.foldl_cons, ih, (give_known req f).2.2.2.2]

def ReflectionRequest.Given (req : ReflectionRequest) (fs : List WireField) : Prop :=
  req.host = lastOctets 1 fs ∧ req.fileByFilename = lastOctets 3 fs ∧
    req.fileContainingSymbol = lastOctets 4 fs ∧ req.allExtensionNumbers = lastOctets 6 fs ∧
    req.listServices = lastOctets 7 fs

theorem given_foldl_iff (fs : List WireField) :
    (fs.foldl ReflectionRequest.give {}).Given fs ↔ lastOctets 6 fs = [] := by
  have hhost := foldl_give (fun req f => (give_known req f).1) fs {}
  have hfile := foldl_give (fun req f => (give_known req f).2.1) fs {}
  have hsymbol := foldl_give (fun req f => (give_known req f).2.2.1) fs {}
  have hlist := foldl_give (fun req f => (give_known req f).2.2.2.1) fs {}
  have hext := foldl_allExtensionNumbers fs {}
  simp only [ReflectionRequest.Given, hhost, hfile, hsymbol, hlist, hext, lastOctets, true_and,
    and_true, eq_comm]

end Requests

/-- The decoder returns on every input. Of a request that is a message of octets and integers it gets
the last value of every field, but for `all_extension_numbers_of_type`, which it leaves empty. -/
theorem reflection_request_decoded_iff (data : Bytes) (hdata : data.length < 2 ^ 63) {n : Nat}
    (hn : data.length < n) :
    (∃ r, decodeReflectionRequest data n = .ok r) ∧
    ∀ fs, Message fs data → (∀ f ∈ fs, f.payload.wireType = 0 ∨ f.payload.wireType = 2) →
      ∃ req, decodeReflectionRequest data n = .ok (.ok req) ∧
        (req.Given fs ↔ lastOctets 6 fs = []) := by
  refine ⟨loop_requestStep_ok hdata (Int.le_refl 0) (Int.natCast_nonneg _) {} (by omega), ?_⟩
  intro fs h hw
  refine ⟨_, requestStep_message [] h hw hdata (h.length_le.trans_lt hn) {}, ?_⟩
  exact given_foldl_iff fs

def extensionRequest : Bytes := [0x32, 1, 0x78]

theorem message_extensionRequest : Message [⟨6, .len (ascii "x")⟩] extensionRequest :=
  .short (by decide) (by decide)

theorem reflection_request_decoded_file : ∃ req,
    decodeReflectionRequest [0x1a, 1, 0x61] 4 = .ok (.ok req) ∧ req.Given [⟨3, .len (ascii "a")⟩] := by
  have hmsg : Message [⟨3, .len (ascii "a")⟩] [0x1a, 1, 0x61] :=
    .short (by decide) (by decide)
  obtain ⟨req, hreq, hgiven⟩ :=
    (reflection_request_decoded_iff [0x1a, 1, 0x61] (by decide) (n := 4) (by decide)).2 _ hmsg
      (by decide)
  exact ⟨req, hreq, hgiven.2 rfl⟩

/-- The type is not in what is decoded. -/
theorem extension_type_is_dropped : Message [⟨6, .len (ascii "x")⟩] extensionRequest ∧
    decodeReflectionRequest extensionRequest 4 = .ok (.ok {}) ∧
    ¬({} : ReflectionRequest).Given [⟨6, .len (ascii "x")⟩] := by
  refine ⟨message_extensionRequest, by decide, fun h => ?_⟩
  have := h.2.2.2.1
  simp [lastOctets, octetsOf, ascii] at this

section Responses

theorem toNat_tag {number wireType : Nat} (hk : number < 2 ^ 29) (hw : wireType < 8) :
    (UInt64.ofNat number <<< 3 ||| UInt64.ofNat wireType).toNat = 8 * number + wireType := by
  have hor := Nat.two_pow_add_eq_or_of_lt (i := 3) hw number
  have h3 : (3 : UInt64).toNat % 64 = 3 := rfl
  rw [UInt64.toNat_or, UInt64.toNat_shiftLeft, h3, toNat_ofNat_of_lt (by omega),
    toNat_ofNat_of_lt (by omega), Nat.shiftLeft_eq,
    show number * 2 ^ 3 % 2 ^ 64 = 2 ^ 3 * number by omega, ← hor]

theorem toNat_continued (b : UInt8) : (b ||| 0x80).toNat = b.toNat % 128 + 128 := by
  have h : ∀ n : Fin 256, (UInt8.ofNat n.val ||| 0x80).toNat = n.val % 128 + 128 := by
    decide +kernel
  have hb := h ⟨b.toNat, b.toNat_lt⟩
  rwa [UInt8.ofNat_toNat] at hb

theorem appendVarint_small {v : UInt64} (hv : v.toNat < 128) (buf : Bytes) :
    appendVarint buf v = buf ++ [v.toUInt8] := by
  have h : ¬v ≥ 0x80 := Nat.not_le.2 hv
  rw [appendVarint, dif_neg h]

theorem appendVarint_large {v : UInt64} (hv : 128 ≤ v.toNat) (buf : Bytes) :
    appendVarint buf v = appendVarint (buf ++ [v.toUInt8 ||| 0x80]) (v >>> 7) := by
  have h : v ≥ 0x80 := hv
  rw [appendVarint, dif_pos h]

theorem varint_small {v : UInt64} (hv : v.toNat < 128) : Varint v.toNat [v.toUInt8] := by
  have hlow : v.toUInt8 = UInt8.ofNat v.toNat := rfl
  rw [hlow]
  exact .of_lt hv

theorem varint_large {v : UInt64} {bs : Bytes} (h : Varint (v >>> 7).toNat bs) :
    Varint v.toNat ((v.toUInt8 ||| 0x80) :: bs) := by
  have hb := toNat_continued v.toUInt8
  have hhigh : (v >>> 7).toNat = v.toNat / 128 := by
    rw [UInt64.toNat_shiftRight, show (7 : UInt64).toNat % 64 = 7 from rfl,
      Nat.shiftRight_eq_div_pow]
  rw [UInt64.toNat_toUInt8] at hb
  have hsplit : v.toNat = (v.toUInt8 ||| 0x80).toNat % 128 + 128 * (v >>> 7).toNat := by omega
  rw [hsplit]
  exact .more (by omega) h

theorem appendVarint_of_lt {v : UInt64} {k : Nat} (hv : v.toNat < 128 ^ (k + 1)) (buf : Bytes) :
    ∃ bs, appendVarint buf v = buf ++ bs ∧ Varint v.toNat bs ∧ bs.length ≤ k + 1 := by
  induction k generalizing v buf with
  | zero => exact ⟨_, appendVarint_small (by omega) buf, varint_small (by omega), by simp⟩
  | succ k ih =>
    by_cases hlt : v.toNat < 128
    · exact ⟨_, appendVarint_small hlt buf, varint_small hlt, by simp⟩
    · have hhigh : (v >>> 7).toNat < 128 ^ (k + 1) := by
        rw [UInt64.toNat_shiftRight, show (7 : UInt64).toNat % 64 = 7 from rfl,
          Nat.shiftRight_eq_div_pow]
        rw [Nat.pow_succ] at hv
        exact Nat.div_lt_of_lt_mul (Nat.mul_comm _ _ ▸ hv)
      obtain ⟨bs, hbs, hvarint, hlen⟩ := ih hhigh (buf ++ [v.toUInt8 ||| 0x80])
      refine ⟨_ :: bs, ?_, varint_large hvarint, by simpa using hlen⟩
      rw [appendVarint_large (by omega), hbs, List.append_assoc]
      rfl

theorem appendVarint_spec (buf : Bytes) (v : UInt64) :
    ∃ bs, appendVarint buf v = buf ++ bs ∧ Varint v.toNat bs ∧ bs.length ≤ 10 :=
  appendVarint_of_lt (k := 9) (v.toNat_lt.trans (by norm_num)) buf

/-- What is read is what was written, whatever is behind it. -/
theorem decodeVarint_appendVarint (v : UInt64) (rest : Bytes) :
    decodeVarint (appendVarint [] v ++ rest) = (v, (appendVarint [] v).length) := by
  obtain ⟨bs, hbs, hvarint, hlen⟩ := appendVarint_spec [] v
  rw [hbs, List.nil_append, decodeVarint_append hvarint hlen, UInt64.ofNat_toNat]

variable {fs : List WireField} {buf : Bytes} {fieldNum : Nat}

theorem message_appendOctetsField (h : Message fs buf) (hk : fieldNum < 2 ^ 29) {s : Bytes}
    (hs : s.length < 2 ^ 64) :
    Message (fs ++ [⟨fieldNum, .len s⟩]) (appendOctetsField buf fieldNum s) := by
  obtain ⟨tag, htag, htagged, hshort⟩ :=
    appendVarint_spec buf (UInt64.ofNat fieldNum <<< 3 ||| UInt64.ofNat 2)
  obtain ⟨ls, hls, hlength, hlen⟩ := appendVarint_spec (buf ++ tag) (UInt64.ofNat s.length)
  rw [toNat_tag hk (by decide)] at htagged
  rw [toNat_ofNat_of_lt hs] at hlength
  have hfield : WireField.Encodes ⟨fieldNum, .len s⟩ tag (ls ++ s) :=
    ⟨hk, htagged, hshort, .len hlength hlen⟩
  rw [appendOctetsField, appendTag, htag, hls]
  simpa only [List.append_assoc] using h.append (.single hfield)

theorem message_appendVarintField (fieldNum : Nat) (h : Message fs buf) (hk : fieldNum < 2 ^ 29)
    (v : UInt64) :
    Message (fs ++ [⟨fieldNum, .varint v.toNat⟩]) (appendVarintField buf fieldNum v) := by
  obtain ⟨tag, htag, htagged, hshort⟩ :=
    appendVarint_spec buf (UInt64.ofNat fieldNum <<< 3 ||| UInt64.ofNat 0)
  obtain ⟨bs, hbs, hvarint, hlen⟩ := appendVarint_spec (buf ++ tag) v
  rw [toNat_tag hk (by decide)] at htagged
  have hfield : WireField.Encodes ⟨fieldNum, .varint v.toNat⟩ tag bs :=
    ⟨hk, htagged, hshort, .varint v.toNat_lt hvarint hlen⟩
  rw [appendVarintField, appendTag, htag, hbs]
  simpa only [List.append_assoc] using h.append (.single hfield)

theorem length_appendOctetsField (buf : Bytes) (fieldNum : Nat) (s : Bytes) :
    buf.length + s.length ≤ (appendOctetsField buf fieldNum s).length := by
  obtain ⟨tag, htag, -⟩ := appendVarint_spec buf (UInt64.ofNat fieldNum <<< 3 ||| UInt64.ofNat 2)
  obtain ⟨ls, hls, -⟩ := appendVarint_spec (buf ++ tag) (UInt64.ofNat s.length)
  rw [appendOctetsField, appendTag, htag, hls]
  simp only [List.length_append]
  omega

def appendAll (buf : Bytes) (fieldNum : Nat) (items : List Bytes) : Bytes :=
  items.foldl (fun buf s => appendOctetsField buf fieldNum s) buf

theorem length_le_appendAll (buf : Bytes) (fieldNum : Nat) (items : List Bytes) :
    buf.length ≤ (appendAll buf fieldNum items).length := by
  induction items generalizing buf with
  | nil => exact Nat.le_refl _
  | cons s items ih =>
    have hs := length_appendOctetsField buf fieldNum s
    have hrest := ih (appendOctetsField buf fieldNum s)
    exact (by omega : buf.length ≤ _).trans hrest

theorem item_length_le_appendAll (buf : Bytes) (fieldNum : Nat) {items : List Bytes} {s : Bytes}
    (hs : s ∈ items) :
    s.length ≤ (appendAll buf fieldNum items).length := by
  induction items generalizing buf with
  | nil => cases hs
  | cons s' items ih =>
    rcases List.mem_cons.1 hs with rfl | hs
    · have hlen := length_appendOctetsField buf fieldNum s
      have hrest := length_le_appendAll (appendOctetsField buf fieldNum s) fieldNum items
      exact (by omega : s.length ≤ _).trans hrest
    · exact ih _ hs

theorem message_appendAll (h : Message fs buf) (hk : fieldNum < 2 ^ 29) {items : List Bytes}
    (hs : ∀ s ∈ items, s.length < 2 ^ 64) :
    Message (fs ++ items.map fun s => ⟨fieldNum, .len s⟩) (appendAll buf fieldNum items) := by
  induction items generalizing fs buf with
  | nil =>
    rw [List.map_nil, List.append_nil]
    exact h
  | cons s items ih =>
    rw [List.forall_mem_cons] at hs
    have hall := ih (message_appendOctetsField h hk hs.1) hs.2
    rw [List.append_assoc] at hall
    exact hall

theorem encodeListServiceResponse_eq (serviceNames : List Bytes) :
    encodeListServiceResponse serviceNames = appendMessageField [] 6
      (appendAll [] 1 (serviceNames.map fun name => appendStringField [] 1 name)) := by
  rw [appendAll, List.foldl_map]
  rfl

def wrapper (host originalRequest : Bytes) : List WireField :=
  (if host ≠ [] then [⟨1, .len host⟩] else []) ++
    if originalRequest ≠ [] then [⟨2, .len originalRequest⟩] else []

theorem message_appendNonempty (fieldNum : Nat) (h : Message fs buf) (hk : fieldNum < 2 ^ 29) {s : Bytes}
    (hs : s.length < 2 ^ 64) :
    Message (fs ++ if s ≠ [] then [⟨fieldNum, .len s⟩] else [])
      (if s ≠ [] then appendOctetsField buf fieldNum s else buf) := by
  split
  · exact message_appendOctetsField h hk hs
  · rw [List.append_nil]
    exact h

theorem length_encodeReflectionResponse (host originalRequest messageResponse : Bytes) :
    host.length + originalRequest.length + messageResponse.length ≤
      (encodeReflectionResponse host originalRequest messageResponse).length := by
  have hhost := length_appendOctetsField [] 1 host
  have hnil := length_appendOctetsField [] 2 originalRequest
  have hboth := length_appendOctetsField (appendOctetsField [] 1 host) 2 originalRequest
  simp only [List.length_nil, Nat.zero_add] at hhost hnil
  by_cases h₁ : host = [] <;> by_cases h₂ : originalRequest = [] <;>
    simp [encodeReflectionResponse, appendStringField, appendMessageField, h₁, h₂] <;> omega

variable {host originalRequest messageResponse : Bytes}

/-- The wrapper around a response of one field. -/
theorem scan_encodeReflectionResponse {f : WireField} (h : Message [f] messageResponse)
    (hlen : (encodeReflectionResponse host originalRequest messageResponse).length < 2 ^ 63) :
    scan (encodeReflectionResponse host originalRequest messageResponse) =
      some (wrapper host originalRequest ++ [f]) := by
  have hle := length_encodeReflectionResponse host originalRequest messageResponse
  have hhost := message_appendNonempty 1 .nil (by decide)
    (by omega : host.length < 2 ^ 64)
  have hwrapper := message_appendNonempty 2 hhost (by decide)
    (by omega : originalRequest.length < 2 ^ 64)
  exact scan_message (hwrapper.append h)

theorem scan_listServiceResponse {names : List Bytes} (hlen : (encodeReflectionResponse host
      originalRequest (encodeListServiceResponse names)).length < 2 ^ 63) :
    ∃ (m : Bytes) (services : List Bytes),
      scan (encodeReflectionResponse host originalRequest (encodeListServiceResponse names)) =
        some (wrapper host originalRequest ++ [⟨6, .len m⟩]) ∧
      scan m = some (services.map fun s => ⟨1, .len s⟩) ∧
      services.map scan = names.map fun name => some [⟨1, .len name⟩] := by
  have hle := length_encodeReflectionResponse host originalRequest
    (encodeListServiceResponse names)
  rw [encodeListServiceResponse_eq] at hlen hle ⊢
  have hbody := length_appendOctetsField [] 6
    (appendAll [] 1 (names.map fun name => appendStringField [] 1 name))
  have hservice : ∀ s ∈ names.map fun name => appendStringField [] 1 name, s.length < 2 ^ 63 := by
    intro s hs
    have := item_length_le_appendAll [] 1 hs
    simp only [appendMessageField] at hle hlen
    omega
  refine ⟨_, _, scan_encodeReflectionResponse (message_appendOctetsField .nil (by decide) ?_) hlen,
    scan_message (message_appendAll .nil (by decide) ?_), ?_⟩
  · simp only [appendMessageField] at hle hlen
    omega
  · intro s hs
    have := hservice s hs
    omega
  · rw [List.map_map]
    refine List.map_congr_left fun name hname => scan_message ?_
    have hlt := hservice _ (List.mem_map_of_mem hname)
    have hname := length_appendOctetsField [] 1 name
    simp only [appendStringField] at hlt
    exact message_appendOctetsField .nil (by decide) (by omega)

theorem scan_fileDescriptorResponse {files : List Bytes} (hlen : (encodeReflectionResponse host
      originalRequest (encodeFileDescriptorResponse files)).length < 2 ^ 63) :
    ∃ m : Bytes,
      scan (encodeReflectionResponse host originalRequest (encodeFileDescriptorResponse files)) =
        some (wrapper host originalRequest ++ [⟨4, .len m⟩]) ∧
      scan m = some (files.map fun f => ⟨1, .len f⟩) := by
  have hle := length_encodeReflectionResponse host originalRequest
    (encodeFileDescriptorResponse files)
  have hbody := length_appendOctetsField [] 4 (appendAll [] 1 files)
  have heq : encodeFileDescriptorResponse files = appendOctetsField [] 4 (appendAll [] 1 files) := rfl
  rw [heq] at hlen hle ⊢
  refine ⟨_, scan_encodeReflectionResponse (message_appendOctetsField .nil (by decide) ?_) hlen,
    scan_message (message_appendAll .nil (by decide) ?_)⟩
  · omega
  · intro s hs
    have := item_length_le_appendAll [] 1 hs
    omega

theorem scan_errorResponse {code : Code} {message : Bytes} (hlen : (encodeReflectionResponse host
      originalRequest (encodeErrorResponse code message)).length < 2 ^ 63) :
    ∃ m : Bytes,
      scan (encodeReflectionResponse host originalRequest (encodeErrorResponse code message)) =
        some (wrapper host originalRequest ++ [⟨7, .len m⟩]) ∧
      scan m = some [⟨1, .varint code.toNat⟩, ⟨2, .len message⟩] := by
  have hle := length_encodeReflectionResponse host originalRequest
    (encodeErrorResponse code message)
  have heq : encodeErrorResponse code message = appendOctetsField [] 7
      (appendOctetsField (appendVarintField [] 1 code.toUInt64) 2 message) := rfl
  have hbody := length_appendOctetsField [] 7
    (appendOctetsField (appendVarintField [] 1 code.toUInt64) 2 message)
  have hmessage := length_appendOctetsField (appendVarintField [] 1 code.toUInt64) 2 message
  rw [heq] at hlen hle ⊢
  refine ⟨_, scan_encodeReflectionResponse (message_appendOctetsField .nil (by decide) ?_) hlen, ?_⟩
  · omega
  · have hcode := message_appendVarintField 1 .nil (by decide) code.toUInt64
    rw [UInt32.toNat_toUInt64] at hcode
    exact scan_message (message_appendOctetsField hcode (by decide) (by omega))

/-- Every response is read back from its fields, with its parts at their numbers. -/
theorem reflection_responses_scan (host originalRequest : Bytes) :
    (∀ v rest, decodeVarint (appendVarint [] v ++ rest) = (v, (appendVarint [] v).length)) ∧
    (∀ names,
      let response := encodeReflectionResponse host originalRequest (encodeListServiceResponse names)
      response.length < 2 ^ 63 → ∃ (m : Bytes) (services : List Bytes),
        scan response = some (wrapper host originalRequest ++ [⟨6, .len m⟩]) ∧
        scan m = some (services.map fun s => ⟨1, .len s⟩) ∧
        services.map scan = names.map fun name => some [⟨1, .len name⟩]) ∧
    (∀ files,
      let response := encodeReflectionResponse host originalRequest (encodeFileDescriptorResponse files)
      response.length < 2 ^ 63 → ∃ m : Bytes,
        scan response = some (wrapper host originalRequest ++ [⟨4, .len m⟩]) ∧
        scan m = some (files.map fun f => ⟨1, .len f⟩)) ∧
    ∀ code message,
      let response := encodeReflectionResponse host originalRequest (encodeErrorResponse code message)
      response.length < 2 ^ 63 → ∃ m : Bytes,
        scan response = some (wrapper host originalRequest ++ [⟨7, .len m⟩]) ∧
        scan m = some [⟨1, .varint code.toNat⟩, ⟨2, .len message⟩] :=
  ⟨decodeVarint_appendVarint, fun _ => scan_listServiceResponse, fun _ => scan_fileDescriptorResponse,
    fun _ _ => scan_errorResponse⟩

/-- A response to a symbol that is not known. -/
theorem reflection_responses_scan_notFound :
    (encodeReflectionResponse (ascii "h") [] (encodeErrorResponse 5 (ascii "no"))).length < 2 ^ 63 ∧
    ∃ m : Bytes, scan (encodeReflectionResponse (ascii "h") [] (encodeErrorResponse 5 (ascii "no"))) =
        some [⟨1, .len (ascii "h")⟩, ⟨7, .len m⟩] ∧
      scan m = some [⟨1, .varint 5⟩, ⟨2, .len (ascii "no")⟩] := by
  have hlen : (encodeReflectionResponse (ascii "h") []
      (encodeErrorResponse 5 (ascii "no"))).length < 2 ^ 63 := by
    simp (disch := decide) [encodeReflectionResponse, encodeErrorResponse, appendStringField,
      appendMessageField, appendVarintField, appendOctetsField, appendTag, appendVarint_small, ascii]
  exact ⟨hlen, (reflection_responses_scan (ascii "h") []).2.2.2 5 (ascii "no") hlen⟩

end Responses

end PoseidonServer.Grpc
