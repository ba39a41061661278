import PoseidonServer.Framing
import PoseidonServer.Grpc.Status
import PoseidonServer.Source

/-! Length-prefixed messages: `framing.go`. -/

namespace PoseidonServer.Grpc

def grpcMessageHeader : Nat := 5
def maxRecvMessageSize : Nat := 4 * 1024 * 1024

def flagNone : UInt8 := 0x00
def flagCompressed : UInt8 := 0x01

def eof : GoError := { is := [.eof], text := ascii "EOF" }

def errUnexpectedEOF : GoError := { is := [.unexpectedEOF], text := ascii "unexpected EOF" }

def errMessageTooLarge : GoError :=
  { is := [.messageTooLarge], text := ascii "grpcserver: message too large" }

def errInvalidHeader : GoError :=
  { is := [.invalidHeader], text := ascii "grpcserver: invalid message header" }

structure LPMessage where
  flag : UInt8
  payload : Bytes
  deriving DecidableEq

def lpHeader (flag : UInt8) (n : Nat) : Bytes :=
  [flag, UInt8.ofNat (n >>> 24), UInt8.ofNat (n >>> 16), UInt8.ofNat (n >>> 8), UInt8.ofNat n]

def encodeLP (dst : Bytes) (msg : LPMessage) : Bytes :=
  dst ++ (lpHeader msg.flag msg.payload.length ++ msg.payload)

def lpFlag (hdr : Bytes) : UInt8 := hdr.headD 0

def lpLength (hdr : Bytes) : Nat := ((hdr.drop 1).take 4).foldl (fun n c => n * 256 + c.toNat) 0

def readError : Source.ReadError → GoError
  | .eof => eof
  | .unexpectedEOF => errUnexpectedEOF

def decodeLPWithLimit (r : Source UInt8) (maxSize : Int) :
    Except GoError LPMessage × Source UInt8 :=
  match r.readFull grpcMessageHeader with
  | (.error e, r) => (.error (readError e), r)
  | (.ok hdr, r) =>
    if maxSize < lpLength hdr then (.error errMessageTooLarge, r)
    else if lpLength hdr = 0 then (.ok ⟨lpFlag hdr, []⟩, r)
    else match r.readFull (lpLength hdr) with
      | (.error e, r) => (.error (readError e), r)
      | (.ok payload, r) => (.ok ⟨lpFlag hdr, payload⟩, r)

def decodeLP (r : Source UInt8) : Except GoError LPMessage × Source UInt8 :=
  decodeLPWithLimit r maxRecvMessageSize

def decodeLPFromBytes (data : Bytes) : Except GoError (LPMessage × Nat) :=
  if data.length < grpcMessageHeader then .error errInvalidHeader
  else if maxRecvMessageSize < lpLength data then .error errMessageTooLarge
  else if data.length < grpcMessageHeader + lpLength data then .error errInvalidHeader
  else .ok (⟨lpFlag data, (data.drop grpcMessageHeader).take (lpLength data)⟩,
    grpcMessageHeader + lpLength data)

variable {data rest : Bytes} {m : LPMessage} {flag : UInt8} {n : Nat}

@[simp] theorem length_lpHeader : (lpHeader flag n).length = 5 := rfl

@[simp] theorem lpFlag_lpHeader : lpFlag (lpHeader flag n ++ rest) = flag := rfl

theorem lpLength_lpHeader : lpLength (lpHeader flag n ++ rest) = n % 2 ^ 32 := by
  simp only [lpLength, lpHeader, List.cons_append, List.drop_succ_cons, List.drop_zero,
    List.take_succ_cons, List.take_zero, List.foldl_cons, List.foldl_nil, UInt8.toNat_ofNat',
    Nat.shiftRight_eq_div_pow]
  omega

theorem lpLength_take (h : 5 ≤ n) : lpLength (data.take n) = lpLength data := by
  rw [lpLength, List.drop_take, List.take_take, Nat.min_eq_left (by omega)]
  rfl

theorem lpFlag_take (h : 0 < n) : lpFlag (data.take n) = lpFlag data := by
  obtain ⟨n, rfl⟩ := Nat.exists_eq_succ_of_ne_zero h.ne'
  cases data <;> rfl

theorem take_eq_lpHeader (h : 5 ≤ data.length) :
    data.take 5 = lpHeader (lpFlag data) (lpLength data) := by
  match data, h with
  | f :: a :: b :: c :: d :: rest, _ =>
    have ha := a.toNat_lt
    have hb := b.toNat_lt
    have hc := c.toNat_lt
    have hd := d.toNat_lt
    simp only [lpHeader, lpFlag, lpLength, List.take_succ_cons, List.take_zero, List.headD_cons,
      List.drop_succ_cons, List.drop_zero, List.foldl_cons, List.foldl_nil, List.cons.injEq,
      ← UInt8.toNat_inj, UInt8.toNat_ofNat', Nat.shiftRight_eq_div_pow, and_true, true_and]
    omega

theorem encodeLP_append (dst : Bytes) (m : LPMessage) : encodeLP dst m = dst ++ encodeLP [] m := by
  rfl

theorem length_encodeLP (m : LPMessage) : (encodeLP [] m).length = 5 + m.payload.length := by
  simp [encodeLP]

theorem lt_of_le_maxRecv (h : n ≤ maxRecvMessageSize) : n < 2 ^ 32 := by
  unfold maxRecvMessageSize at h
  omega

theorem lpLength_encodeLP (h : m.payload.length < 2 ^ 32) :
    lpLength (encodeLP [] m ++ rest) = m.payload.length := by
  rw [← Nat.mod_eq_of_lt h]
  simp only [encodeLP, List.nil_append, List.append_assoc]
  exact lpLength_lpHeader

theorem drop_encodeLP : (encodeLP [] m ++ rest).drop 5 = m.payload ++ rest := by
  simp [encodeLP, lpHeader]

theorem eq_encodeLP_append (h : 5 + lpLength data ≤ data.length) :
    data = encodeLP [] ⟨lpFlag data, (data.drop 5).take (lpLength data)⟩ ++
      data.drop (5 + lpLength data) := by
  have hlen : ((data.drop 5).take (lpLength data)).length = lpLength data := by
    rw [List.length_take, List.length_drop]
    omega
  simp only [encodeLP, List.nil_append, hlen, ← take_eq_lpHeader (by omega : 5 ≤ data.length),
    List.append_assoc, ← List.drop_drop, List.take_append_drop]

theorem decodeLPFromBytes_eq_ok : decodeLPFromBytes data = .ok (m, n) ↔
    ∃ rest, data = encodeLP [] m ++ rest ∧ m.payload.length ≤ maxRecvMessageSize ∧
      n = 5 + m.payload.length := by
  constructor
  · intro h
    unfold decodeLPFromBytes at h
    split at h
    · cases h
    split at h
    · cases h
    split at h
    · cases h
    rename_i h₁ h₂ h₃
    cases h
    simp only [grpcMessageHeader, Nat.not_lt] at h₁ h₂ h₃ ⊢
    refine ⟨_, eq_encodeLP_append h₃, ?_, ?_⟩
    · rw [List.length_take]
      omega
    · rw [List.length_take, List.length_drop]
      omega
  · rintro ⟨rest, rfl, hp, rfl⟩
    have hlen : lpLength (encodeLP [] m ++ rest) = m.payload.length :=
      lpLength_encodeLP (lt_of_le_maxRecv hp)
    rw [decodeLPFromBytes, grpcMessageHeader, hlen, if_neg (by simp [encodeLP]),
      if_neg (Nat.not_lt.2 hp), if_neg (by simp [length_encodeLP]), drop_encodeLP, List.take_left]
    rfl

/-- What `DecodeLPWithLimit` makes of a stream that still holds `u`, and how much it takes. -/
def decodeContent (u : Bytes) (maxSize : Int) : Except GoError LPMessage × Nat :=
  if u.length < 5 then (.error (if u = [] then eof else errUnexpectedEOF), u.length)
  else if maxSize < lpLength u then (.error errMessageTooLarge, 5)
  else if u.length < 5 + lpLength u then
    (.error (if u.length = 5 then eof else errUnexpectedEOF), u.length)
  else (.ok ⟨lpFlag u, (u.drop 5).take (lpLength u)⟩, 5 + lpLength u)

theorem decodeLPWithLimit_eq (r : Source UInt8) (maxSize : Int) :
    ∃ r', decodeLPWithLimit r maxSize = ((decodeContent r.content maxSize).1, r') ∧
      r'.content = r.content.drop (decodeContent r.content maxSize).2 := by
  unfold decodeLPWithLimit decodeContent grpcMessageHeader
  by_cases h₁ : r.content.length < 5
  · obtain ⟨r', hr, hc⟩ := Source.readFull_of_lt h₁
    rw [hr, if_pos h₁]
    refine ⟨r', ?_, hc.trans List.drop_length.symm⟩
    simp only [apply_ite readError]
    rfl
  obtain ⟨r₁, hr₁, hc₁⟩ := Source.readFull_of_le (Nat.not_lt.1 h₁)
  simp only [hr₁, h₁, if_false, lpLength_take (Nat.le_refl 5), lpFlag_take (by decide : 0 < 5)]
  by_cases h₂ : maxSize < lpLength r.content
  · simp only [h₂, if_true]
    exact ⟨r₁, rfl, hc₁⟩
  simp only [h₂, if_false]
  have hlen : r₁.content.length = r.content.length - 5 := by rw [hc₁, List.length_drop]
  by_cases h₃ : r.content.length < 5 + lpLength r.content
  · have h₀ : lpLength r.content ≠ 0 := by omega
    obtain ⟨r', hr, hc⟩ := Source.readFull_of_lt (by omega : r₁.content.length < lpLength r.content)
    simp only [h₃, h₀, if_true, if_false, hr]
    refine ⟨r', ?_, hc.trans List.drop_length.symm⟩
    have hnil : r₁.content = [] ↔ r.content.length = 5 := by
      rw [← List.length_eq_zero_iff]
      omega
    simp only [hnil, apply_ite readError]
    rfl
  · simp only [h₃, if_false]
    by_cases h₀ : lpLength r.content = 0
    · simp only [h₀, if_true, List.take_zero]
      exact ⟨r₁, rfl, hc₁⟩
    · have hle : lpLength r.content ≤ r₁.content.length := by omega
      obtain ⟨r', hr, hc⟩ := Source.readFull_of_le hle
      simp only [h₀, if_false, hr]
      exact ⟨r', by rw [hc₁], by rw [hc, hc₁, List.drop_drop]⟩

theorem decodeContent_eq_ok : decodeContent data maxRecvMessageSize = (.ok m, n) ↔
    decodeLPFromBytes data = .ok (m, n) := by
  unfold decodeContent decodeLPFromBytes grpcMessageHeader
  simp only [Int.ofNat_lt]
  split
  · simp
  split
  · simp
  split
  · simp
  · rw [Except.ok.injEq, Prod.mk.injEq, Prod.mk.injEq, Except.ok.injEq]

theorem decodeContent_le (u : Bytes) (maxSize : Int) :
    (decodeContent u maxSize).2 ≤ 5 + lpLength u := by
  unfold decodeContent
  split
  · dsimp only
    omega
  split
  · exact Nat.le_add_right 5 _
  split
  · dsimp only
    omega
  · exact Nat.le_refl _

theorem decodeContent_encodeLP {maxSize : Int} (h : m.payload.length < 2 ^ 32)
    (hmax : m.payload.length ≤ maxSize) :
    decodeContent (encodeLP [] m ++ rest) maxSize = (.ok m, (encodeLP [] m).length) := by
  rw [decodeContent, lpLength_encodeLP h, if_neg (by simp [encodeLP]), if_neg (by omega),
    if_neg (by simp [length_encodeLP]), drop_encodeLP, List.take_left, length_encodeLP]
  rfl

def encodeAll (msgs : List LPMessage) : Bytes := msgs.foldl encodeLP []

theorem encodeAll_cons (m : LPMessage) (msgs : List LPMessage) :
    encodeAll (m :: msgs) = encodeLP [] m ++ encodeAll msgs := by
  have h : ∀ (msgs : List LPMessage) dst, msgs.foldl encodeLP dst = dst ++ encodeAll msgs := by
    intro msgs
    induction msgs with
    | nil => simp [encodeAll]
    | cons m msgs ih =>
      intro dst
      rw [encodeAll, List.foldl_cons, List.foldl_cons, ih, ih, encodeLP_append dst,
        List.append_assoc]
  exact h msgs _

def nextFromBytes (data : Bytes) : Except GoError (LPMessage × Nat) × Bytes :=
  match decodeLPFromBytes data with
  | .ok p => (.ok p, data.drop p.2)
  | .error e => (.error e, data)

theorem drains_fromBytes {msgs : List LPMessage}
    (h : ∀ m ∈ msgs, m.payload.length ≤ maxRecvMessageSize) :
    Drains nextFromBytes (encodeAll msgs) (msgs.map fun m => (m, 5 + m.payload.length))
      errInvalidHeader := by
  induction msgs with
  | nil => exact .stop rfl
  | cons m msgs ih =>
    rw [List.forall_mem_cons] at h
    have hm : decodeLPFromBytes (encodeAll (m :: msgs)) = .ok (m, 5 + m.payload.length) :=
      decodeLPFromBytes_eq_ok.2 ⟨_, encodeAll_cons m msgs, h.1, rfl⟩
    have hnext : nextFromBytes (encodeAll (m :: msgs)) =
        (.ok (m, 5 + m.payload.length), encodeAll msgs) := by
      simp only [nextFromBytes, hm]
      rw [encodeAll_cons, ← length_encodeLP, List.drop_left]
    exact .more hnext (ih h.2)

theorem drains_withLimit {msgs : List LPMessage} {maxSize : Int}
    (h : ∀ m ∈ msgs, m.payload.length ≤ maxRecvMessageSize)
    (hmax : ∀ m ∈ msgs, m.payload.length ≤ maxSize) {r : Source UInt8}
    (hr : r.content = encodeAll msgs) : Drains (decodeLPWithLimit · maxSize) r msgs eof := by
  induction msgs generalizing r with
  | nil =>
    obtain ⟨r', hd, -⟩ := decodeLPWithLimit_eq r maxSize
    rw [hr] at hd
    exact .stop hd
  | cons m msgs ih =>
    rw [List.forall_mem_cons] at h hmax
    obtain ⟨r', hd, hc⟩ := decodeLPWithLimit_eq r maxSize
    rw [hr, encodeAll_cons, decodeContent_encodeLP (lt_of_le_maxRecv h.1) hmax.1] at hd hc
    exact .more hd (ih h.2 hmax.2 (by rw [hc, List.drop_left]))

/-- What has been encoded is decoded again, from a slice and from a reader however it is chunked;
and on any octets the two decoders agree on the first message and on where it ends. -/
theorem lp_round_trip (msgs : List LPMessage)
    (h : ∀ m ∈ msgs, m.payload.length ≤ maxRecvMessageSize) (maxSize : Int)
    (hmax : ∀ m ∈ msgs, m.payload.length ≤ maxSize) (r : Source UInt8) :
    Drains nextFromBytes (encodeAll msgs) (msgs.map fun m => (m, 5 + m.payload.length))
      errInvalidHeader ∧
    (r.content = encodeAll msgs → Drains (decodeLPWithLimit · maxSize) r msgs eof) ∧
    (∀ m, (decodeLP r).1 = .ok m ↔ ∃ n, decodeLPFromBytes r.content = .ok (m, n)) ∧
    (∀ m n, decodeLPFromBytes r.content = .ok (m, n) →
      n = 5 + m.payload.length ∧ n ≤ r.content.length ∧ (decodeLP r).2.content = r.content.drop n ∧
      ∀ data, r.content.take n <+: data → decodeLPFromBytes data = .ok (m, n)) ∧
    ∃ n ≤ 5 + lpLength r.content, (decodeLP r).2.content = r.content.drop n := by
  obtain ⟨r', hd, hc⟩ := decodeLPWithLimit_eq r maxRecvMessageSize
  refine ⟨drains_fromBytes h, drains_withLimit h hmax, fun m => ?_, fun m n hm => ?_, ?_⟩
  · rw [decodeLP, hd]
    constructor
    · intro hm
      exact ⟨_, decodeContent_eq_ok.1 (Prod.ext hm rfl)⟩
    · rintro ⟨n, hn⟩
      exact congrArg Prod.fst (decodeContent_eq_ok.2 hn)
  · obtain ⟨rest, hrest, hp, rfl⟩ := decodeLPFromBytes_eq_ok.1 hm
    refine ⟨rfl, ?_, ?_, ?_⟩
    · rw [hrest, List.length_append, length_encodeLP]
      exact Nat.le_add_right _ _
    · rw [decodeLP, hd, hc, decodeContent_eq_ok.2 hm]
    · rintro data ⟨rest', rfl⟩
      rw [hrest, ← length_encodeLP, List.take_left]
      exact decodeLPFromBytes_eq_ok.2 ⟨rest', rfl, hp, length_encodeLP m⟩
  · rw [decodeLP, hd]
    exact ⟨_, decodeContent_le _ _, hc⟩

theorem lp_round_trip_hello :
    Drains nextFromBytes (encodeAll [⟨0, ascii "hello"⟩, ⟨1, []⟩])
      [(⟨0, ascii "hello"⟩, 10), (⟨1, []⟩, 5)] errInvalidHeader :=
  (lp_round_trip [⟨0, ascii "hello"⟩, ⟨1, []⟩] (by decide) 5 (by decide) ⟨[], false⟩).1

end PoseidonServer.Grpc
