import PoseidonServer.Grpc.Framing

/-! The messages of a request body as a streaming handler receives them: `streamReceiver` and
`readStreamingLP`. -/

namespace PoseidonServer.Grpc

structure Request where
  method : Bytes := []
  headers : List HeaderField := []
  path : Bytes := []
  body : Bytes := []
  bodyReader : Option (Source UInt8) := none

def errCompressed : GoError :=
  RPCStatus.error ⟨.unimplemented, ascii "message compression not supported"⟩

def readStreamingLP (r : Source UInt8) : Except GoError Bytes × Source UInt8 :=
  match r.readFull grpcMessageHeader with
  | (.error e, r) => (.error (readError e), r)
  | (.ok hdr, r) =>
    if lpFlag hdr = flagCompressed then (.error errCompressed, r)
    else if maxRecvMessageSize < lpLength hdr then (.error errMessageTooLarge, r)
    else if lpLength hdr = 0 then (.ok [], r)
    else match r.readFull (lpLength hdr) with
      | (.error e, r) => (.error (readError e), r)
      | (.ok payload, r) => (.ok payload, r)

def recvBuffered (remaining : Bytes) : Except GoError Bytes × Bytes :=
  if remaining.length = 0 then (.error eof, remaining)
  else match decodeLPFromBytes remaining with
    | .error e => (.error e, remaining)
    | .ok (msg, n) =>
      if msg.flag = flagCompressed then (.error errCompressed, remaining)
      else (.ok msg.payload, remaining.drop n)

inductive Receiver
  | buffered (remaining : Bytes)
  | streaming (r : Source UInt8)
  | noBody

def streamReceiver (req : Request) : Receiver :=
  if req.body.length > 0 then .buffered req.body
  else match req.bodyReader with
    | some r => .streaming r
    | none => .noBody

def Receiver.recv : Receiver → Except GoError Bytes × Receiver
  | .buffered remaining =>
    let (result, remaining) := recvBuffered remaining
    (result, .buffered remaining)
  | .streaming r =>
    let (result, r) := readStreamingLP r
    (result, .streaming r)
  | .noBody => (.error eof, .noBody)

def GoError.isEOF (e : GoError) : Prop := .eof ∈ e.is

instance (e : GoError) : Decidable e.isEOF := inferInstanceAs (Decidable (_ ∈ _))

def Plain (m : LPMessage) : Prop :=
  m.flag ≠ flagCompressed ∧ m.payload.length ≤ maxRecvMessageSize

def Complete (body : Bytes) : Prop := ∃ msgs, (∀ m ∈ msgs, Plain m) ∧ body = encodeAll msgs

def BareHeader (u : Bytes) : Prop :=
  ∃ flag n, flag ≠ flagCompressed ∧ 0 < n ∧ n ≤ maxRecvMessageSize ∧ u = lpHeader flag n

def EndsInHeader (body : Bytes) : Prop :=
  ∃ msgs u, (∀ m ∈ msgs, Plain m) ∧ BareHeader u ∧ body = encodeAll msgs ++ u

def plainReader : Reader UInt8 LPMessage where
  next data := match decodeLPFromBytes data with
    | .ok (m, n) => if m.flag = flagCompressed then none else some (m, data.drop n)
    | .error _ => none
  shorter := by
    intro s t rest h
    split at h
    · rename_i m n hm
      obtain ⟨rest', rfl, -, rfl⟩ := decodeLPFromBytes_eq_ok.1 hm
      split at h
      · cases h
      · cases h
        rw [List.length_drop, List.length_append, length_encodeLP]
        omega
    · cases h

variable {u rest body : Bytes} {m : LPMessage} {msgs : List LPMessage}

theorem plainReader_next : plainReader.next u = some (m, rest) ↔
    Plain m ∧ u = encodeLP [] m ++ rest := by
  simp only [plainReader]
  constructor
  · intro h
    split at h
    · rename_i m' n hm
      obtain ⟨rest', rfl, hp, rfl⟩ := decodeLPFromBytes_eq_ok.1 hm
      split at h
      · cases h
      · rename_i hflag
        cases h
        rw [← length_encodeLP, List.drop_left]
        exact ⟨⟨hflag, hp⟩, rfl⟩
    · cases h
  · rintro ⟨⟨hflag, hp⟩, rfl⟩
    rw [decodeLPFromBytes_eq_ok.2 ⟨rest, rfl, hp, rfl⟩]
    simp only [hflag, if_false, ← length_encodeLP, List.drop_left]

theorem plain_of_cuts (h : plainReader.Cuts u msgs rest) :
    (∀ m ∈ msgs, Plain m) ∧ u = encodeAll msgs ++ rest := by
  induction h with
  | stop => exact ⟨by simp, rfl⟩
  | item hn _ ih =>
    obtain ⟨hm, rfl⟩ := plainReader_next.1 hn
    refine ⟨List.forall_mem_cons.2 ⟨hm, ih.1⟩, ?_⟩
    rw [encodeAll_cons, List.append_assoc, ← ih.2]

theorem cuts_encodeAll (h : ∀ m ∈ msgs, Plain m) (hrest : plainReader.next rest = none) :
    plainReader.Cuts (encodeAll msgs ++ rest) msgs rest := by
  induction msgs with
  | nil => exact .stop hrest
  | cons m msgs ih =>
    rw [List.forall_mem_cons] at h
    have hnext : plainReader.next (encodeAll (m :: msgs) ++ rest) =
        some (m, encodeAll msgs ++ rest) := by
      rw [plainReader_next, encodeAll_cons, List.append_assoc]
      exact ⟨h.1, rfl⟩
    exact .item hnext (ih h.2)

theorem readStreamingLP_compressed {r : Source UInt8} (h : 5 ≤ r.content.length)
    (hflag : lpFlag r.content = flagCompressed) :
    ∃ r', readStreamingLP r = (.error errCompressed, r') := by
  obtain ⟨r', hr, -⟩ := Source.readFull_of_le h
  refine ⟨r', ?_⟩
  simp only [readStreamingLP, grpcMessageHeader, hr, lpFlag_take (by decide : 0 < 5), hflag, if_true]

theorem readStreamingLP_eq {r : Source UInt8}
    (h : 5 ≤ r.content.length → lpFlag r.content ≠ flagCompressed) :
    readStreamingLP r = ((decodeLP r).1.map (·.payload), (decodeLP r).2) := by
  unfold readStreamingLP decodeLP decodeLPWithLimit grpcMessageHeader
  by_cases hlen : r.content.length < 5
  · obtain ⟨r', hr, -⟩ := Source.readFull_of_lt hlen
    rw [hr]
    rfl
  obtain ⟨r₁, hr, -⟩ := Source.readFull_of_le (Nat.not_lt.1 hlen)
  have hflag := h (Nat.not_lt.1 hlen)
  rw [← lpFlag_take (by decide : 0 < 5)] at hflag
  simp only [hr, hflag, if_false, Int.ofNat_lt]
  split
  · rfl
  split
  · rfl
  · obtain ⟨_ | _, _⟩ := r₁.readFull (lpLength (r.content.take 5)) <;> rfl

def endError : Except GoError α → GoError
  | .error e => e
  | .ok _ => errInvalidHeader

def bufferedEnd (u : Bytes) : GoError := endError (recvBuffered u).1

def streamingEnd (u : Bytes) : GoError :=
  if 5 ≤ u.length ∧ lpFlag u = flagCompressed then errCompressed
  else endError (decodeContent u maxRecvMessageSize).1

theorem recvBuffered_item (hn : plainReader.next u = some (m, rest)) :
    recvBuffered u = (.ok m.payload, rest) := by
  obtain ⟨⟨hflag, hp⟩, rfl⟩ := plainReader_next.1 hn
  rw [recvBuffered, if_neg (by simp [encodeLP]), decodeLPFromBytes_eq_ok.2 ⟨rest, rfl, hp, rfl⟩]
  simp only [hflag, if_false, ← length_encodeLP, List.drop_left]

theorem recvBuffered_stop (hn : plainReader.next u = none) :
    ∃ u', recvBuffered u = (.error (bufferedEnd u), u') := by
  obtain ⟨result, u', hrecv⟩ : ∃ result u', recvBuffered u = (result, u') := ⟨_, _, rfl⟩
  cases result with
  | error e => exact ⟨u', by rw [bufferedEnd, hrecv, endError]⟩
  | ok p =>
    unfold recvBuffered at hrecv
    split at hrecv
    · cases hrecv
    split at hrecv
    · cases hrecv
    split at hrecv
    · cases hrecv
    · rename_i m n hm hflag
      obtain ⟨rest, hu, hp, -⟩ := decodeLPFromBytes_eq_ok.1 hm
      rw [plainReader_next.2 ⟨⟨hflag, hp⟩, hu⟩] at hn
      cases hn

variable {r : Source UInt8}

theorem readStreamingLP_item (hn : plainReader.next r.content = some (m, rest)) :
    ∃ r', readStreamingLP r = (.ok m.payload, r') ∧ r'.content = rest := by
  obtain ⟨⟨hflag, hp⟩, hu⟩ := plainReader_next.1 hn
  have hm : decodeContent r.content maxRecvMessageSize = (.ok m, 5 + m.payload.length) :=
    decodeContent_eq_ok.2 (decodeLPFromBytes_eq_ok.2 ⟨rest, hu, hp, rfl⟩)
  obtain ⟨r', hd, hc⟩ := decodeLPWithLimit_eq r maxRecvMessageSize
  rw [hm] at hd hc
  refine ⟨r', ?_, ?_⟩
  · rw [readStreamingLP_eq fun _ => by rwa [hu], decodeLP, hd]
    rfl
  · rw [hc, hu, ← length_encodeLP, List.drop_left]

theorem readStreamingLP_stop (hn : plainReader.next r.content = none) :
    ∃ r', readStreamingLP r = (.error (streamingEnd r.content), r') := by
  by_cases hflag : 5 ≤ r.content.length ∧ lpFlag r.content = flagCompressed
  · rw [streamingEnd, if_pos hflag]
    exact readStreamingLP_compressed hflag.1 hflag.2
  obtain ⟨r', hd, -⟩ := decodeLPWithLimit_eq r maxRecvMessageSize
  rw [streamingEnd, if_neg hflag, readStreamingLP_eq fun hlen hf => hflag ⟨hlen, hf⟩, decodeLP, hd]
  cases hm : (decodeContent r.content maxRecvMessageSize).1 with
  | error e => exact ⟨r', rfl⟩
  | ok m =>
    obtain ⟨rest, hu, hp, -⟩ := decodeLPFromBytes_eq_ok.1 (decodeContent_eq_ok.1 (Prod.ext hm rfl))
    have hplain : m.flag ≠ flagCompressed := fun hf => hflag (by
      rw [hu]
      exact ⟨by simp [encodeLP], hf⟩)
    rw [plainReader_next.2 ⟨⟨hplain, hp⟩, hu⟩] at hn
    cases hn

theorem drains_buffered (h : plainReader.Cuts body msgs rest) :
    Drains recvBuffered body (msgs.map (·.payload)) (bufferedEnd rest) := by
  apply h.drains id (·.payload) bufferedEnd
  · intro u m rest hn
    exact ⟨rest, recvBuffered_item hn, rfl⟩
  · intro u hn
    exact recvBuffered_stop hn

theorem drains_streaming (h : plainReader.Cuts r.content msgs rest) :
    Drains readStreamingLP r (msgs.map (·.payload)) (streamingEnd rest) :=
  h.drains Source.content (·.payload) streamingEnd (fun _ _ _ hn => readStreamingLP_item hn)
    fun _ hn => readStreamingLP_stop hn

theorem isEOF_eof : eof.isEOF := by decide

theorem not_isEOF_errInvalidHeader : ¬errInvalidHeader.isEOF := by decide

theorem not_isEOF_errMessageTooLarge : ¬errMessageTooLarge.isEOF := by decide

theorem not_isEOF_errUnexpectedEOF : ¬errUnexpectedEOF.isEOF := by decide

theorem not_isEOF_errCompressed : ¬errCompressed.isEOF := by decide

theorem isEOF_bufferedEnd : (bufferedEnd u).isEOF ↔ u = [] := by
  unfold bufferedEnd recvBuffered decodeLPFromBytes
  split
  · rename_i h
    exact iff_of_true isEOF_eof (List.length_eq_zero_iff.1 h)
  rename_i h
  refine iff_of_false ?_ fun hu => h (by rw [hu]; rfl)
  split
  · rename_i e he
    split at he
    · cases he
      exact not_isEOF_errInvalidHeader
    split at he
    · cases he
      exact not_isEOF_errMessageTooLarge
    split at he
    · cases he
      exact not_isEOF_errInvalidHeader
    · cases he
  split
  · exact not_isEOF_errCompressed
  · exact not_isEOF_errInvalidHeader

theorem bareHeader_iff : BareHeader u ↔ u.length = 5 ∧ lpFlag u ≠ flagCompressed ∧
    0 < lpLength u ∧ lpLength u ≤ maxRecvMessageSize := by
  constructor
  · rintro ⟨flag, n, hflag, hpos, hn, rfl⟩
    have hlen : lpLength (lpHeader flag n ++ []) = n :=
      lpLength_lpHeader.trans (Nat.mod_eq_of_lt (lt_of_le_maxRecv hn))
    rw [List.append_nil] at hlen
    exact ⟨rfl, hflag, by rwa [hlen], by rwa [hlen]⟩
  · rintro ⟨hlen, hflag, hpos, hn⟩
    refine ⟨lpFlag u, lpLength u, hflag, hpos, hn, ?_⟩
    rw [← take_eq_lpHeader hlen.ge, List.take_of_length_le hlen.le]

theorem isEOF_streamingEnd : (streamingEnd u).isEOF ↔ u = [] ∨ BareHeader u := by
  have hnil : u = [] ↔ u.length = 0 := List.length_eq_zero_iff.symm
  unfold streamingEnd decodeContent
  simp only [bareHeader_iff, hnil, Int.ofNat_lt]
  split
  · rename_i h
    refine iff_of_false not_isEOF_errCompressed ?_
    rintro (hu | hu)
    · omega
    · exact hu.2.1 h.2
  rename_i hflag
  split
  · rename_i h₁
    simp only [endError]
    split
    · rename_i h₀
      exact iff_of_true isEOF_eof (.inl h₀)
    · refine iff_of_false not_isEOF_errUnexpectedEOF ?_
      omega
  rename_i h₁
  split
  · refine iff_of_false not_isEOF_errMessageTooLarge ?_
    omega
  rename_i h₂
  split
  · rename_i h₃
    simp only [endError]
    split
    · rename_i h₅
      exact iff_of_true isEOF_eof (.inr ⟨h₅, fun hf => hflag ⟨h₅.ge, hf⟩, by omega, by omega⟩)
    · refine iff_of_false not_isEOF_errUnexpectedEOF ?_
      omega
  · refine iff_of_false not_isEOF_errInvalidHeader ?_
    omega

theorem drains_body (h : plainReader.Cuts body msgs rest) :
    Drains Receiver.recv (streamReceiver { body }) (msgs.map (·.payload)) (bufferedEnd rest) := by
  unfold streamReceiver
  split
  · exact (drains_buffered h).map (g := Receiver.buffered) fun _ => rfl
  · rename_i hbody
    obtain rfl : body = [] := List.length_eq_zero_iff.1 (by simpa using hbody)
    obtain ⟨rfl, rfl⟩ := h.unique (.stop rfl)
    exact .stop rfl

theorem drains_bodyReader (h : plainReader.Cuts r.content msgs rest) :
    Drains Receiver.recv (streamReceiver { bodyReader := some r }) (msgs.map (·.payload))
      (streamingEnd rest) :=
  (drains_streaming h).map (g := Receiver.streaming) fun _ => rfl

theorem plainReader_next_nil : plainReader.next [] = none := rfl

theorem BareHeader.next (h : BareHeader u) : plainReader.next u = none := by
  cases hn : plainReader.next u with
  | none => rfl
  | some p =>
    obtain ⟨hm, hu⟩ := plainReader_next.1 hn
    obtain ⟨hlen, -, hpos, -⟩ := bareHeader_iff.1 h
    rw [hu, lpLength_encodeLP (lt_of_le_maxRecv hm.2)] at hpos
    rw [hu, List.length_append, length_encodeLP] at hlen
    omega

theorem complete_iff (h : plainReader.Cuts body msgs rest) : Complete body ↔ rest = [] := by
  constructor
  · rintro ⟨msgs', hplain, rfl⟩
    have h' := cuts_encodeAll hplain plainReader_next_nil
    rw [List.append_nil] at h'
    exact (h.unique h').2
  · rintro rfl
    obtain ⟨hplain, hbody⟩ := plain_of_cuts h
    exact ⟨msgs, hplain, by rw [hbody, List.append_nil]⟩

theorem endsInHeader_iff (h : plainReader.Cuts body msgs rest) :
    EndsInHeader body ↔ BareHeader rest := by
  constructor
  · rintro ⟨msgs', u, hplain, hu, rfl⟩
    rwa [(h.unique (cuts_encodeAll hplain hu.next)).2]
  · intro hrest
    obtain ⟨hplain, hbody⟩ := plain_of_cuts h
    exact ⟨msgs, rest, hplain, hrest, hbody⟩

/-- The two modes give a handler the same messages and end in the same way, and well exactly if
the body is complete, unless it stops right after a header: the read of the payload then reports a
plain end of the stream. -/
theorem modes_agree_iff (r : Source UInt8) :
    (∃ payloads e e', Drains Receiver.recv (streamReceiver { body := r.content }) payloads e ∧
      Drains Receiver.recv (streamReceiver { bodyReader := some r }) payloads e' ∧
      (e.isEOF ↔ e'.isEOF) ∧ (e.isEOF ↔ Complete r.content)) ↔ ¬EndsInHeader r.content := by
  obtain ⟨msgs, rest, h⟩ := plainReader.exists_cuts r.content
  rw [endsInHeader_iff h, complete_iff h]
  constructor
  · rintro ⟨payloads, e, e', hb, hs, hee, -⟩ hrest
    obtain ⟨-, rfl⟩ := hb.unique (drains_body h)
    obtain ⟨-, rfl⟩ := hs.unique (drains_bodyReader h)
    rw [isEOF_bufferedEnd, isEOF_streamingEnd] at hee
    have hnil := hee.2 (.inr hrest)
    have hlen := (bareHeader_iff.1 hrest).1
    rw [hnil] at hlen
    cases hlen
  · intro hrest
    refine ⟨_, _, _, drains_body h, drains_bodyReader h, ?_, isEOF_bufferedEnd⟩
    rw [isEOF_bufferedEnd, isEOF_streamingEnd, or_iff_left hrest]

/-- The header of a message of ten octets, and nothing after it. -/
theorem modes_differ_after_header :
    Drains Receiver.recv (streamReceiver { body := [0, 0, 0, 0, 10] }) [] errInvalidHeader ∧
    Drains Receiver.recv (streamReceiver { bodyReader := some ⟨[[0, 0, 0, 0, 10]], false⟩ }) [] eof := by
  have hb : recvBuffered [0, 0, 0, 0, 10] = (.error errInvalidHeader, [0, 0, 0, 0, 10]) := by decide
  have hs : readStreamingLP ⟨[[0, 0, 0, 0, 10]], false⟩ = (.error eof, ⟨[], false⟩) := by decide
  exact ⟨(Drains.stop hb).map (g := Receiver.buffered) fun _ => rfl,
    (Drains.stop hs).map (g := Receiver.streaming) fun _ => rfl⟩

end PoseidonServer.Grpc
