import PoseidonServer.Conn.Types

/-! The body of an HTTP/2 request as the server hands it to a handler: read from the stream on
demand by `streamBody`, or collected before the handler runs by `serveStreamBuffered`. -/

namespace PoseidonServer.Server

open Conn HttpFields

abbrev Received := Except GoErr StreamEvent

inductive ReadError
  | eof | unexpectedEOF | bodyTooLarge
  | recv (e : GoErr)
  deriving DecidableEq

structure StreamBody where
  limit : Int
  total : Nat := 0
  buf : Bytes := []
  done : Bool := false
  deriving DecidableEq

structure Answer where
  bytes : Bytes := []
  err : Option ReadError := none
  deriving DecidableEq

namespace StreamBody

def deliverData (sb : StreamBody) (n : Nat) (data : Bytes) (endStream : Bool) :
    Answer × StreamBody :=
  let sb := if 0 ≤ sb.limit then { sb with total := sb.total + data.length } else sb
  if 0 ≤ sb.limit ∧ sb.limit < sb.total then
    (⟨[], some .bodyTooLarge⟩, { sb with done := true })
  else
    let p := data.take n
    let sb := { sb with buf := sb.buf ++ data.drop n }
    if endStream then
      (if p = [] then ⟨[], some .eof⟩ else ⟨p, none⟩, { sb with done := true })
    else (⟨p, none⟩, sb)

/-- A round of the loop of `Read`; `none` where it goes on to the next event. -/
def round (sb : StreamBody) (n : Nat) : Received → Option (Answer × StreamBody)
  | .error e => some (⟨[], some (.recv e)⟩, { sb with done := true })
  | .ok (.headers _ endStream) =>
    if endStream then some (⟨[], some .eof⟩, { sb with done := true }) else none
  | .ok (.data p endStream) =>
    if p = [] then
      if endStream then some (⟨[], some .eof⟩, { sb with done := true }) else none
    else some (sb.deliverData n p endStream)
  | .ok (.trailers _ _) => some (⟨[], some .eof⟩, { sb with done := true })
  | .ok (.reset _) => some (⟨[], some .unexpectedEOF⟩, { sb with done := true })

def next (sb : StreamBody) (n : Nat) : List Received → Option (Answer × StreamBody × List Received)
  | [] => none
  | r :: rs =>
    match sb.round n r with
    | some (a, sb) => some (a, sb, rs)
    | none => sb.next n rs

def read (sb : StreamBody) (n : Nat) (rs : List Received) :
    Option (Answer × StreamBody × List Received) :=
  if sb.buf ≠ [] then some (⟨sb.buf.take n, none⟩, { sb with buf := sb.buf.drop n }, rs)
  else if sb.done then some (⟨[], some .eof⟩, sb, rs)
  else sb.next n rs

def close (sb : StreamBody) : StreamBody := { sb with done := true }

end StreamBody

def Received.skipped : Received → Bool
  | .ok (.headers _ endStream) => !endStream
  | .ok (.data p endStream) => p.isEmpty && !endStream
  | _ => false

def Received.running : Received → Bool
  | .ok (.headers _ endStream) | .ok (.data _ endStream) => !endStream
  | _ => false

def Received.octets : Received → Bytes
  | .ok (.data p _) => p
  | _ => []

def Received.faulty : Received → Bool
  | .error _ => true
  | .ok e => e.isReset

def Received.failure : Received → ReadError
  | .error e => .recv e
  | .ok (.reset _) => .unexpectedEOF
  | .ok _ => .bodyTooLarge

theorem failure_ne_eof (r : Received) : r.failure ≠ .eof := by
  match r with
  | .ok (.headers _ _) | .ok (.data _ _) | .ok (.trailers _ _) | .ok (.reset _) | .error _ => nofun

def payload (rs : List Received) : Bytes := rs.flatMap Received.octets

@[simp] theorem payload_nil : payload [] = [] := rfl

@[simp] theorem payload_cons (r : Received) (rs : List Received) :
    payload (r :: rs) = r.octets ++ payload rs := by
  simp [payload]

@[simp] theorem payload_append (rs rs' : List Received) :
    payload (rs ++ rs') = payload rs ++ payload rs' := by
  simp [payload]

theorem octets_of_skipped {r : Received} (h : r.skipped = true) : r.octets = [] := by
  match r with
  | .ok (.data p e) =>
    simp only [Received.skipped, Bool.and_eq_true, List.isEmpty_iff] at h
    exact h.1
  | .ok (.headers _ _) | .ok (.trailers _ _) | .ok (.reset _) | .error _ => rfl

theorem running_of_skipped {r : Received} (h : r.skipped = true) : r.running = true := by
  match r with
  | .ok (.data p e) =>
    simp only [Received.skipped, Bool.and_eq_true] at h
    exact h.2
  | .ok (.headers _ _) => exact h

theorem endStream_of_running {e : StreamEvent} (h : Received.running (.ok e) = true) :
    e.endStream = false := by
  cases e with
  | headers fields endStream => simpa [Received.running, StreamEvent.endStream] using h
  | data p endStream => simpa [Received.running, StreamEvent.endStream] using h
  | trailers fields endStream => cases h
  | reset code => cases h

theorem faulty_of_running {r : Received} (h : r.running = true) : r.faulty = false := by
  match r with
  | .ok (.headers _ _) | .ok (.data _ _) => rfl

theorem endStream_of_last {r : Received} (hr : r.running = false) (hok : r.faulty = false)
    (hne : ∀ fields, r ≠ .ok (.trailers fields false)) : ∃ e, r = .ok e ∧ e.endStream = true := by
  match r with
  | .ok (.headers fields e) | .ok (.data p e) => exact ⟨_, rfl, by simpa [Received.running, StreamEvent.endStream] using hr⟩
  | .ok (.trailers fields true) => exact ⟨_, rfl, rfl⟩
  | .ok (.trailers fields false) => exact absurd rfl (hne fields)
  | .ok (.reset code) => exact ⟨_, rfl, rfl⟩

theorem payload_of_skipped {rs : List Received} (h : ∀ r ∈ rs, r.skipped = true) :
    payload rs = [] := by
  rw [payload, List.flatMap_eq_nil_iff]
  intro r hr
  exact octets_of_skipped (h r hr)

theorem payload_after (rs : List Received) (r : Received) {before : List Received}
    (h : ∀ q ∈ before, q.skipped = true) :
    payload (rs ++ before ++ [r]) = payload rs ++ r.octets := by
  simp [payload_of_skipped h]

namespace StreamBody

variable {sb sb' : StreamBody} {n : Nat} {a : Answer} {r : Received} {rs rest : List Received}

theorem round_eq_none : sb.round n r = none ↔ r.skipped = true := by
  match r with
  | .ok (.data p e) =>
    by_cases hp : p = [] <;> cases e <;> simp [round, Received.skipped, hp]
  | .ok (.headers _ e) => cases e <;> simp [round, Received.skipped]
  | .ok (.trailers _ _) | .ok (.reset _) | .error _ => simp [round, Received.skipped]

def Over (sb : StreamBody) (r : Received) : Prop :=
  0 ≤ sb.limit ∧ sb.limit < sb.total + r.octets.length

def count (sb : StreamBody) (r : Received) : StreamBody :=
  { sb with total := if 0 ≤ sb.limit then sb.total + r.octets.length else sb.total }

inductive Took (sb : StreamBody) (n : Nat) (r : Received) : Answer → StreamBody → Prop
  | failed : r.faulty = true ∨ sb.Over r →
      Took sb n r ⟨[], some r.failure⟩ { sb.count r with done := true }
  | running : r.running = true → ¬ sb.Over r →
      Took sb n r ⟨r.octets.take n, none⟩ { sb.count r with buf := r.octets.drop n }
  | ended : r.running = false → r.faulty = false → ¬ sb.Over r →
      Took sb n r ⟨r.octets.take n, if r.octets.take n = [] then some .eof else none⟩
        { sb.count r with buf := r.octets.drop n, done := true }

theorem count_of_nil (hr : r.octets = []) : sb.count r = sb := by
  simp [count, hr]

theorem over_iff : sb.Over r ↔ 0 ≤ (sb.count r).limit ∧ (sb.count r).limit < (sb.count r).total := by
  by_cases h : 0 ≤ sb.limit <;> simp [Over, count, h]

theorem took_deliverData {p : Bytes} {e : Bool} (hbuf : sb.buf = []) :
    Took sb n (.ok (.data p e)) (sb.deliverData n p e).1 (sb.deliverData n p e).2 := by
  have hcount : (if 0 ≤ sb.limit then { sb with total := sb.total + p.length } else sb) =
      sb.count (.ok (.data p e)) := by
    unfold count Received.octets
    split <;> rfl
  have hleft : (sb.count (.ok (.data p e))).buf ++ p.drop n = p.drop n := by
    simp [count, hbuf]
  rw [deliverData, hcount]
  dsimp only
  split
  · rename_i hover
    exact .failed (.inr (over_iff.2 hover))
  rename_i hover
  cases e with
  | false =>
    rw [hleft]
    exact .running rfl (mt over_iff.1 hover)
  | true =>
    have ha : (if p.take n = [] then ⟨[], some .eof⟩ else ⟨p.take n, none⟩ : Answer) =
        ⟨p.take n, if p.take n = [] then some .eof else none⟩ := by
      split <;> simp_all
    rw [hleft, ha]
    exact .ended rfl rfl (mt over_iff.1 hover)

theorem took_eof (hbuf : sb.buf = []) (htotal : 0 ≤ sb.limit → sb.total ≤ sb.limit)
    (hr : r.octets = []) (hrun : r.running = false) (hok : r.faulty = false) :
    Took sb n r ⟨[], some .eof⟩ { sb with done := true } := by
  have hover : ¬ sb.Over r := by
    rintro ⟨hl, hover⟩
    rw [hr] at hover
    have := htotal hl
    simp only [List.length_nil] at hover
    omega
  have h := Took.ended (n := n) hrun hok hover
  rw [count_of_nil hr, hr] at h
  simpa [hbuf] using h

theorem took_fault (hr : r.octets = []) (hbad : r.faulty = true) :
    Took sb n r ⟨[], some r.failure⟩ { sb with done := true } := by
  have h : Took sb n r _ _ := .failed (.inl hbad)
  rwa [count_of_nil hr] at h

theorem took_of_round (hbuf : sb.buf = []) (htotal : 0 ≤ sb.limit → sb.total ≤ sb.limit)
    (h : sb.round n r = some (a, sb')) : Took sb n r a sb' := by
  match r with
  | .error e =>
    cases h
    exact took_fault rfl rfl
  | .ok (.reset e) =>
    cases h
    exact took_fault rfl rfl
  | .ok (.trailers _ e) =>
    cases h
    exact took_eof hbuf htotal rfl rfl rfl
  | .ok (.headers _ e) =>
    rw [round] at h
    split at h
    · rename_i he
      cases h
      exact took_eof hbuf htotal rfl (by simp [Received.running, he]) rfl
    · cases h
  | .ok (.data p e) =>
    rw [round] at h
    split at h
    · rename_i hp
      split at h
      · rename_i he
        cases h
        exact took_eof hbuf htotal hp (by simp [Received.running, he]) rfl
      · cases h
    · have ht : Took sb n (.ok (.data p e)) _ _ := took_deliverData hbuf
      rwa [Option.some.inj h] at ht

theorem round_of_next (h : sb.next n rs = some (a, sb', rest)) :
    ∃ before r, rs = before ++ r :: rest ∧ (∀ q ∈ before, q.skipped = true) ∧
      sb.round n r = some (a, sb') := by
  induction rs with
  | nil => cases h
  | cons r rs ih =>
    rw [next] at h
    cases hr : sb.round n r with
    | some o =>
      rw [hr] at h
      cases h
      exact ⟨[], r, rfl, by simp, hr⟩
    | none =>
      rw [hr] at h
      obtain ⟨before, q, rfl, hbefore, hq⟩ := ih h
      refine ⟨r :: before, q, rfl, ?_, hq⟩
      intro p hp
      rcases List.mem_cons.1 hp with rfl | hp
      · exact round_eq_none.1 hr
      · exact hbefore p hp

end StreamBody

structure Session where
  body : StreamBody
  pending : List Received
  taken : List Received := []
  returned : Bytes := []
  reported : List ReadError := []
  closed : Bool := false

namespace Session

def start (limit : Int) (rs : List Received) : Session := ⟨{ limit }, rs, [], [], [], false⟩

def read (s : Session) (n : Nat) : Option (Answer × Session) :=
  (s.body.read n s.pending).map fun (a, sb, rest) =>
    (a, { s with
      body := sb
      pending := rest
      taken := s.taken ++ s.pending.take (s.pending.length - rest.length)
      returned := s.returned ++ a.bytes
      reported := s.reported ++ a.err.toList })

def close (s : Session) : Session := { s with body := s.body.close, closed := true }

inductive Reach (limit : Int) (rs : List Received) : Session → Prop
  | start : Reach limit rs (start limit rs)
  | read {s a s'} (n : Nat) : Reach limit rs s → s.read n = some (a, s') → Reach limit rs s'
  | close {s} : Reach limit rs s → Reach limit rs s.close

end Session

/-- The events make up a body: END_STREAM is there, no reset, and the limit is kept. -/
def Complete (limit : Int) (rs : List Received) : Prop :=
  (∃ e, .ok e ∈ rs ∧ e.endStream = true) ∧ (∀ r ∈ rs, Received.faulty r = false) ∧
    (0 ≤ limit → (payload rs).length ≤ limit)

/-- What a handler may rely on when `Read` answers `a` in a session on the events `rs`. -/
structure Kept (limit : Int) (rs : List Received) (s : Session) (a : Answer) (s' : Session) :
    Prop where
  bytes : s'.returned <+: payload rs
  eof : a.err = some .eof →
    s.closed = true ∨ Complete limit s'.taken ∧ s'.returned = payload s'.taken
  failed : .unexpectedEOF ∈ s.reported ∨ .bodyTooLarge ∈ s.reported → a.err = some .eof →
    s.closed = true
  closed : s.closed = true → a.bytes = [] ∧ a.err = some .eof

/-- The `Read`s that meet the contract: after `Close` only with no leftover, after the end only if
no error was reported, and with room for some of a DATA frame that ends the body. -/
def Fit (s : Session) (n : Nat) : Prop :=
  if s.body.buf ≠ [] then s.closed = false
  else s.closed = true ∨
    if s.body.done then
      (∀ e ∈ s.reported, e = .eof) ∧ ∀ fields, s.taken.getLast? ≠ some (.ok (.trailers fields false))
    else ∀ r, s.pending.find? (!Received.skipped ·) = some r →
      (∀ fields, r ≠ .ok (.trailers fields false)) ∧
      ∀ p, r = .ok (.data p true) → ¬ (0 ≤ s.body.limit ∧ s.body.limit < s.body.total + p.length) →
        p = [] ∨ 0 < n


namespace Session

variable {s s' : Session} {n : Nat} {a : Answer} {limit : Int} {rs : List Received}

theorem read_cases (h : s.read n = some (a, s')) :
    (s.body.buf ≠ [] ∧ a = ⟨s.body.buf.take n, none⟩ ∧
      s' = { s with
        body := { s.body with buf := s.body.buf.drop n }
        returned := s.returned ++ s.body.buf.take n }) ∨
    (s.body.buf = [] ∧ s.body.done = true ∧ a = ⟨[], some .eof⟩ ∧
      s' = { s with reported := s.reported ++ [.eof] }) ∨
    (s.body.buf = [] ∧ s.body.done = false ∧ ∃ before r rest sb,
      s.pending = before ++ r :: rest ∧ (∀ q ∈ before, q.skipped = true) ∧
      s.body.round n r = some (a, sb) ∧
      s' = { s with
        body := sb
        pending := rest
        taken := s.taken ++ before ++ [r]
        returned := s.returned ++ a.bytes
        reported := s.reported ++ a.err.toList }) := by
  rw [read, Option.map_eq_some_iff] at h
  obtain ⟨⟨a', sb, rest⟩, h, h'⟩ := h
  cases h'
  rw [StreamBody.read] at h
  split at h
  · rename_i hbuf
    cases h
    exact .inl ⟨hbuf, rfl, by simp⟩
  rename_i hbuf
  split at h
  · rename_i hdone
    cases h
    exact .inr (.inl ⟨not_not.1 hbuf, hdone, rfl, by simp⟩)
  · rename_i hdone
    obtain ⟨before, r, hs, hbefore, hr⟩ := StreamBody.round_of_next h
    refine .inr (.inr ⟨not_not.1 hbuf, by simpa using hdone, before, r, rest, sb, hs, hbefore, hr, ?_⟩)
    have htake : s.pending.take (s.pending.length - rest.length) = before ++ [r] := by
      rw [hs, List.length_append, List.length_cons]
      have hlen : before.length + (rest.length + 1) - rest.length = (before ++ [r]).length := by
        rw [List.length_append, List.length_singleton]
        omega
      rw [hlen, List.append_cons before r rest]
      exact List.take_left
    rw [htake, List.append_assoc]

structure Reading (s : Session) : Prop where
  closed : s.closed = false
  reported : s.reported = []
  running : ∀ r ∈ s.taken, Received.running r = true
  total : 0 ≤ s.body.limit → s.body.total = (payload s.taken).length ∧ s.body.total ≤ s.body.limit
  returned : s.returned ++ s.body.buf = payload s.taken

inductive Phase (s : Session) : Prop
  | running : s.body.done = false → Reading s → Phase s
  | ended (front : List Received) (r : Received) : s.body.done = true → s.closed = false →
      (∀ e ∈ s.reported, e = .eof) → s.taken = front ++ [r] → (∀ q ∈ front, q.running = true) →
      r.running = false → r.faulty = false →
      (0 ≤ s.body.limit → (payload s.taken).length ≤ s.body.limit) →
      s.returned ++ s.body.buf = payload s.taken → Phase s
  | failed : s.body.done = true → s.closed = false → s.body.buf = [] →
      (∃ e ∈ s.reported, e ≠ .eof) → ¬ Complete s.body.limit s.taken →
      s.returned <+: payload s.taken → Phase s
  | closed : s.body.done = true → s.closed = true →
      s.returned ++ s.body.buf <+: payload s.taken → Phase s

theorem Phase.close (h : Phase s) : Phase s.close := by
  refine .closed rfl rfl ?_
  cases h with
  | running _ h => exact h.returned ▸ List.prefix_refl _
  | ended _ _ _ _ _ _ _ _ _ _ hret => exact hret ▸ List.prefix_refl _
  | failed _ _ hbuf _ _ hret =>
    change s.returned ++ s.body.buf <+: _
    rw [hbuf, List.append_nil]
    exact hret
  | closed _ _ hret => exact hret

theorem Phase.reading (h : Phase s) (hdone : s.body.done = false) : Reading s := by
  cases h with
  | running _ h => exact h
  | ended _ _ hnot => rw [hdone] at hnot; cases hnot
  | failed hnot => rw [hdone] at hnot; cases hnot
  | closed hnot => rw [hdone] at hnot; cases hnot

theorem Phase.leftover (h : Phase s) : Phase { s with
    body := { s.body with buf := s.body.buf.drop n }
    returned := s.returned ++ s.body.buf.take n } := by
  have hbuf : s.returned ++ s.body.buf.take n ++ s.body.buf.drop n = s.returned ++ s.body.buf := by
    rw [List.append_assoc, List.take_append_drop]
  cases h with
  | running hdone h =>
    exact .running hdone ⟨h.closed, h.reported, h.running, h.total, hbuf.trans h.returned⟩
  | ended front r hdone hclosed hrep htaken hfront hr hok htotal hret =>
    exact .ended front r hdone hclosed hrep htaken hfront hr hok htotal (hbuf.trans hret)
  | failed hdone hclosed hnil hrep hbad hret =>
    refine .failed hdone hclosed ?_ hrep hbad ?_
    · simp [hnil]
    · simpa [hnil] using hret
  | closed hdone hclosed hret => exact .closed hdone hclosed (hbuf ▸ hret)

theorem Phase.again (h : Phase s) (hdone : s.body.done = true) :
    Phase { s with reported := s.reported ++ [.eof] } := by
  cases h with
  | running hnot => rw [hdone] at hnot; cases hnot
  | ended front r hdone hclosed hrep htaken hfront hr hok htotal hret =>
    refine .ended front r hdone hclosed ?_ htaken hfront hr hok htotal hret
    intro e he
    rcases List.mem_append.1 he with he | he
    · exact hrep e he
    · exact List.mem_singleton.1 he
  | failed hdone hclosed hnil hrep hbad hret =>
    obtain ⟨e, he, hne⟩ := hrep
    exact .failed hdone hclosed hnil ⟨e, List.mem_append_left _ he, hne⟩ hbad hret
  | closed hdone hclosed hret => exact .closed hdone hclosed hret

theorem not_complete_of_faulty {r : Received} (hr : r.faulty = true) (hmem : r ∈ rs) :
    ¬ Complete limit rs := by
  rintro ⟨-, hok, -⟩
  rw [hok r hmem] at hr
  cases hr

theorem fits_of_not_over {sb : StreamBody} {r : Received} (hl : 0 ≤ sb.limit) (h : ¬ sb.Over r) :
    (sb.total + r.octets.length : Int) ≤ sb.limit := by
  by_contra hlt
  exact h ⟨hl, by omega⟩

theorem Reading.front (h : Reading s) {before : List Received}
    (hbefore : ∀ q ∈ before, q.skipped = true) : ∀ q ∈ s.taken ++ before, q.running = true := by
  intro q hq
  rcases List.mem_append.1 hq with hq | hq
  · exact h.running q hq
  · exact running_of_skipped (hbefore q hq)

theorem Reading.fits {before : List Received} {r : Received} (h : Reading s)
    (hbefore : ∀ q ∈ before, q.skipped = true) (hover : ¬ s.body.Over r) (hl : 0 ≤ s.body.limit) :
    (payload (s.taken ++ before ++ [r])).length ≤ s.body.limit := by
  have hle := fits_of_not_over hl hover
  rw [(h.total hl).1] at hle
  rw [payload_after _ _ hbefore, List.length_append]
  exact_mod_cast hle

theorem Reading.took {before rest : List Received} {r : Received} {sb : StreamBody}
    (h : Reading s) (hdone : s.body.done = false) (hbuf : s.body.buf = [])
    (hbefore : ∀ q ∈ before, q.skipped = true) (ht : s.body.Took n r a sb) :
    Phase { s with
      body := sb
      pending := rest
      taken := s.taken ++ before ++ [r]
      returned := s.returned ++ a.bytes
      reported := s.reported ++ a.err.toList } := by
  have hret := h.returned
  rw [hbuf, List.append_nil] at hret
  have hpay := payload_after s.taken r hbefore
  have hfront := h.front hbefore
  cases ht with
  | failed hbad =>
    refine .failed rfl h.closed hbuf ⟨_, by simp, failure_ne_eof r⟩ ?_ ?_
    · rcases hbad with hbad | ⟨hl, hover⟩
      · exact not_complete_of_faulty hbad (by simp)
      · rintro ⟨-, -, hfits⟩
        have hle : ((payload (s.taken ++ before ++ [r])).length : Int) ≤ s.body.limit := hfits hl
        rw [hpay, List.length_append] at hle
        have := (h.total hl).1
        omega
    · rw [hpay, List.append_nil, hret]
      exact List.prefix_append _ _
  | running hr hover =>
    refine .running hdone ⟨h.closed, by simp [h.reported], ?_, ?_, ?_⟩
    · intro q hq
      rcases List.mem_append.1 hq with hq | hq
      · exact hfront q hq
      · exact List.mem_singleton.1 hq ▸ hr
    · intro (hl : 0 ≤ s.body.limit)
      have hcount : (s.body.count r).total = (payload (s.taken ++ before ++ [r])).length := by
        rw [StreamBody.count, if_pos hl, hpay, List.length_append, (h.total hl).1]
      exact ⟨hcount, by rw [hcount]; exact h.fits hbefore hover hl⟩
    · rw [hpay, hret, List.append_assoc, List.take_append_drop]
  | ended hr hok hover =>
    refine .ended (s.taken ++ before) r rfl h.closed ?_ rfl hfront hr hok ?_ ?_
    · intro e he
      rw [h.reported, List.nil_append] at he
      split at he <;> simp_all
    · exact h.fits hbefore hover
    · rw [hpay, hret, List.append_assoc, List.take_append_drop]

theorem Phase.took_of_round {r : Received} {sb : StreamBody} (h : Phase s)
    (hdone : s.body.done = false) (hbuf : s.body.buf = []) (hr : s.body.round n r = some (a, sb)) :
    s.body.Took n r a sb :=
  StreamBody.took_of_round hbuf (fun hl => ((h.reading hdone).total hl).2) hr

theorem Phase.read (h : Phase s) (hr : s.read n = some (a, s')) : Phase s' := by
  rcases read_cases hr with ⟨-, rfl, rfl⟩ | ⟨-, hdone, rfl, rfl⟩ |
    ⟨hbuf, hdone, before, r, rest, sb, -, hbefore, hround, rfl⟩
  · exact h.leftover
  · exact h.again hdone
  · exact (h.reading hdone).took hdone hbuf hbefore (h.took_of_round hdone hbuf hround)

theorem phase_of_reach (h : Reach limit rs s) : Phase s := by
  induction h with
  | start => exact .running rfl ⟨rfl, rfl, nofun, fun h => ⟨rfl, h⟩, rfl⟩
  | read n _ hr ih => exact ih.read hr
  | close _ ih => exact ih.close

theorem limit_of_reach (h : Reach limit rs s) : s.body.limit = limit := by
  induction h with
  | start => rfl
  | close _ ih => exact ih
  | read n hs hr ih =>
    rcases read_cases hr with ⟨-, rfl, rfl⟩ | ⟨-, -, rfl, rfl⟩ |
      ⟨hbuf, hdone, before, r, rest, sb, -, -, hround, rfl⟩
    · exact ih
    · exact ih
    · cases (phase_of_reach hs).took_of_round hdone hbuf hround <;> exact ih

theorem taken_of_reach (h : Reach limit rs s) : s.taken ++ s.pending = rs := by
  induction h with
  | start => rfl
  | close _ ih => exact ih
  | read n _ hr ih =>
    rcases read_cases hr with ⟨-, rfl, rfl⟩ | ⟨-, hdone, rfl, rfl⟩ |
      ⟨-, -, before, r, rest, sb, hp, -, -, rfl⟩
    · exact ih
    · exact ih
    · simpa [hp] using ih

theorem Phase.returned (h : Phase s) : s.returned <+: payload s.taken := by
  cases h with
  | running _ h => exact h.returned ▸ List.prefix_append _ _
  | ended _ _ _ _ _ _ _ _ _ _ hret => exact hret ▸ List.prefix_append _ _
  | failed _ _ _ _ _ hret => exact hret
  | closed _ _ hret => exact (List.prefix_append _ _).trans hret

theorem returned_of_reach (h : Reach limit rs s) : s.returned <+: payload rs := by
  rw [← taken_of_reach h, payload_append]
  exact (phase_of_reach h).returned.trans (List.prefix_append _ _)

theorem complete_iff {front : List Received} {r : Received}
    (hfront : ∀ q ∈ front, q.running = true) (hr : r.running = false) (hok : r.faulty = false)
    (hlimit : 0 ≤ limit → (payload (front ++ [r])).length ≤ limit) :
    Complete limit (front ++ [r]) ↔ ∀ fields, r ≠ .ok (.trailers fields false) := by
  constructor
  · rintro ⟨⟨e, he, hend⟩, -, -⟩ fields rfl
    rcases List.mem_append.1 he with he | he
    · rw [endStream_of_running (hfront _ he)] at hend
      cases hend
    · cases List.mem_singleton.1 he
      cases hend
  · intro hne
    refine ⟨?_, ?_, hlimit⟩
    · obtain ⟨e, rfl, he⟩ := endStream_of_last hr hok hne
      exact ⟨e, by simp, he⟩
    · intro q hq
      rcases List.mem_append.1 hq with hq | hq
      · exact faulty_of_running (hfront q hq)
      · exact List.mem_singleton.1 hq ▸ hok

theorem find_pending {before rest : List Received} {r : Received}
    (hp : s.pending = before ++ r :: rest) (hbefore : ∀ q ∈ before, q.skipped = true)
    (hr : r.skipped = false) : s.pending.find? (!Received.skipped ·) = some r := by
  rw [hp, List.find?_append]
  have hnone : before.find? (!Received.skipped ·) = none := by
    simpa using hbefore
  simp [hnone, hr]

theorem kept_leftover (hbuf : s.body.buf ≠ []) (hret : s'.returned <+: payload rs) :
    Kept limit rs s ⟨s.body.buf.take n, none⟩ s' ↔ Fit s n := by
  rw [Fit, if_pos hbuf]
  constructor
  · intro h
    by_contra hc
    have := (h.closed (by simpa using hc)).2
    cases this
  · intro hc
    exact ⟨hret, nofun, nofun, fun hc' => by rw [hc] at hc'; cases hc'⟩

theorem kept_again (h : Phase s) (hbuf : s.body.buf = []) (hdone : s.body.done = true)
    (hret : s.returned <+: payload rs) (hlimit : s.body.limit = limit) :
    Kept limit rs s ⟨[], some .eof⟩ { s with reported := s.reported ++ [.eof] } ↔ Fit s n := by
  rw [Fit, if_neg (not_not.2 hbuf), if_pos hdone]
  subst hlimit
  cases h with
  | running hnot => rw [hdone] at hnot; cases hnot
  | closed _ hclosed _ =>
    exact ⟨fun _ => .inl hclosed, fun _ => ⟨hret, fun _ => .inl hclosed, fun _ _ => hclosed,
      fun _ => ⟨rfl, rfl⟩⟩⟩
  | failed _ hclosed _ hrep hbad _ =>
    constructor
    · intro h
      rcases h.eof rfl with hc | hc
      · rw [hclosed] at hc; cases hc
      · exact absurd hc.1 hbad
    · rintro (hc | ⟨hrep', -⟩)
      · rw [hclosed] at hc; cases hc
      · obtain ⟨e, he, hne⟩ := hrep
        exact absurd (hrep' e he) hne
  | ended front r _ hclosed hrep htaken hfront hr hok htotal hret' =>
    rw [hbuf, List.append_nil] at hret'
    rw [htaken] at htotal
    have hcomplete := complete_iff hfront hr hok htotal
    rw [← htaken] at hcomplete
    have hlast : s.taken.getLast? = some r := by simp [htaken]
    rw [hlast]
    constructor
    · intro h
      rcases h.eof rfl with hc | hc
      · rw [hclosed] at hc; cases hc
      · exact .inr ⟨hrep, fun fields he => hcomplete.1 hc.1 fields (Option.some.inj he)⟩
    · rintro (hc | ⟨-, hne⟩)
      · rw [hclosed] at hc; cases hc
      · refine ⟨hret, fun _ => .inr ⟨hcomplete.2 fun fields he => hne fields (by rw [he]), hret'⟩, ?_, ?_⟩
        · rintro (he | he) _ <;> cases hrep _ he
        · intro hc
          rw [hclosed] at hc
          cases hc

theorem Reading.kept_iff (h : Reading s) (hret : s'.returned <+: payload rs) :
    Kept limit rs s a s' ↔
      (a.err = some .eof → Complete limit s'.taken ∧ s'.returned = payload s'.taken) := by
  have hnot : ¬ s.closed = true := by simp [h.closed]
  constructor
  · intro hk he
    exact (hk.eof he).resolve_left hnot
  · intro hk
    refine ⟨hret, fun he => .inr (hk he), ?_, fun hc => absurd hc hnot⟩
    rw [h.reported]
    rintro (he | he) <;> cases he

theorem Reading.fit_iff {r : Received} (h : Reading s) (hbuf : s.body.buf = [])
    (hdone : s.body.done = false) (hr : s.pending.find? (!Received.skipped ·) = some r) :
    Fit s n ↔ (∀ fields, r ≠ .ok (.trailers fields false)) ∧
      ∀ p, r = .ok (.data p true) → ¬ s.body.Over r → p = [] ∨ 0 < n := by
  rw [Fit, if_neg (not_not.2 hbuf), hdone, hr]
  simp only [h.closed, Bool.false_eq_true, false_or, if_false, Option.some.injEq, forall_eq']
  apply and_congr_right
  intro _
  apply forall_congr'
  rintro p
  constructor
  · rintro hf rfl hover
    exact hf rfl hover
  · rintro hf rfl hover
    exact hf rfl hover

theorem octets_of_ended {r : Received} (hr : r.running = false) (ho : r.octets ≠ []) :
    ∃ p, r = .ok (.data p true) ∧ r.octets = p := by
  match r with
  | .ok (.data p e) =>
    have he : e = true := by simpa [Received.running] using hr
    exact ⟨p, by rw [he], rfl⟩
  | .ok (.headers _ _) | .ok (.trailers _ _) | .ok (.reset _) | .error _ => exact absurd rfl ho

theorem Reading.kept_took {before rest : List Received} {r : Received} {sb : StreamBody}
    (h : Reading s) (hbuf : s.body.buf = []) (hdone : s.body.done = false)
    (hp : s.pending = before ++ r :: rest) (hbefore : ∀ q ∈ before, q.skipped = true)
    (hround : s.body.round n r = some (a, sb)) (htaken : s'.taken = s.taken ++ before ++ [r])
    (hreturned : s'.returned = s.returned ++ a.bytes) (hret : s'.returned <+: payload rs) :
    Kept s.body.limit rs s a s' ↔ Fit s n := by
  have hskip : r.skipped = false := by
    by_contra hs
    rw [StreamBody.round_eq_none.2 (by simpa using hs)] at hround
    cases hround
  have ht := StreamBody.took_of_round hbuf (fun hl => (h.total hl).2) hround
  rw [h.kept_iff hret, h.fit_iff hbuf hdone (find_pending hp hbefore hskip), htaken, hreturned]
  have hsent := h.returned
  rw [hbuf, List.append_nil] at hsent
  have hpay := payload_after s.taken r hbefore
  cases ht with
  | failed hbad =>
    refine ⟨fun _ => ⟨?_, ?_⟩, fun _ heof => absurd (Option.some.inj heof) (failure_ne_eof r)⟩
    · rintro fields rfl
      rcases hbad with hbad | ⟨hl, hover⟩
      · cases hbad
      · have := (h.total hl).2
        simp only [Received.octets, List.length_nil] at hover
        omega
    · rintro p rfl hover
      rcases hbad with hbad | hbad
      · cases hbad
      · exact absurd hbad hover
  | running hr hover =>
    refine ⟨fun _ => ⟨?_, ?_⟩, fun _ => nofun⟩
    · rintro fields rfl
      cases hr
    · rintro p rfl
      cases hr
  | ended hr hok hover =>
    rw [complete_iff (h.front hbefore) hr hok (h.fits hbefore hover), hpay, hsent,
      List.append_cancel_left_eq]
    have heof : (if r.octets.take n = [] then some ReadError.eof else none) = some .eof ↔
        r.octets.take n = [] := by
      by_cases ho : r.octets.take n = [] <;> simp only [ho, if_true, if_false, reduceCtorEq]
    rw [heof]
    constructor
    · intro hk
      refine ⟨?_, ?_⟩
      · rintro fields rfl
        exact (hk List.take_nil).1 fields rfl
      · rintro p rfl -
        rcases Nat.eq_zero_or_pos n with rfl | hn
        · exact .inl (hk List.take_zero).2.symm
        · exact .inr hn
    · rintro ⟨hne, hroom⟩ htake
      refine ⟨hne, ?_⟩
      by_cases ho : r.octets = []
      · rw [ho, List.take_nil]
      · obtain ⟨p, rfl, hpo⟩ := octets_of_ended hr ho
        rcases hroom p rfl hover with rfl | hn
        · exact absurd hpo ho
        · exact absurd ((List.take_eq_nil_iff.1 htake).resolve_right ho) (Nat.ne_of_gt hn)

/-- A `Read` meets the contract exactly if it is fit for the session it is made in. -/
theorem read_kept_iff (h : Reach limit rs s) (hr : s.read n = some (a, s')) :
    Kept limit rs s a s' ↔ Fit s n := by
  have hs := phase_of_reach h
  have hret := returned_of_reach (h.read n hr)
  have hlimit := limit_of_reach h
  rcases read_cases hr with ⟨hbuf, rfl, rfl⟩ | ⟨hbuf, hdone, rfl, rfl⟩ |
    ⟨hbuf, hdone, before, r, rest, sb, hp, hbefore, hround, rfl⟩
  · exact kept_leftover hbuf hret
  · exact kept_again hs hbuf hdone hret hlimit
  · subst hlimit
    exact (hs.reading hdone).kept_took hbuf hdone hp hbefore hround rfl rfl hret

theorem read_kept_iff_data :
    Kept (-1) [.ok (.data [1, 2] true)] (start (-1) [.ok (.data [1, 2] true)]) ⟨[1], none⟩
      ⟨⟨-1, 0, [2], true⟩, [], [.ok (.data [1, 2] true)], [1], [], false⟩ ↔
    Fit (start (-1) [.ok (.data [1, 2] true)]) 1 :=
  read_kept_iff .start rfl

/-- A `Read` into an empty buffer reports the end of a body before its octets, a `Read` after
`Close` hands out what was left over, and a `Read` after a reset reports the end. -/
theorem read_breaks_contract :
    (∃ s s', Reach (-1) [.ok (.data [1, 2] true)] s ∧ s.read 0 = some (⟨[], some .eof⟩, s') ∧
      ¬ Kept (-1) [.ok (.data [1, 2] true)] s ⟨[], some .eof⟩ s') ∧
    (∃ s s', Reach (-1) [.ok (.data [1, 2] false)] s ∧ s.closed = true ∧
      s.read 1 = some (⟨[2], none⟩, s') ∧ ¬ Kept (-1) [.ok (.data [1, 2] false)] s ⟨[2], none⟩ s') ∧
    (∃ s s', Reach (-1) [.ok (.reset .cancel)] s ∧ s.reported = [.unexpectedEOF] ∧
      s.read 1 = some (⟨[], some .eof⟩, s') ∧
      ¬ Kept (-1) [.ok (.reset .cancel)] s ⟨[], some .eof⟩ s') := by
  refine ⟨⟨_, _, .start, rfl, ?_⟩, ⟨_, _, .close (.read 1 .start rfl), rfl, rfl, ?_⟩,
    ⟨_, _, .read 1 .start rfl, rfl, rfl, ?_⟩⟩
  · intro h
    rcases h.eof rfl with hc | ⟨-, hb⟩
    · cases hc
    · cases hb
  · intro h
    cases (h.closed rfl).2
  · intro h
    cases h.failed (.inl (List.mem_singleton.2 rfl)) rfl

end Session

end PoseidonServer.Server
