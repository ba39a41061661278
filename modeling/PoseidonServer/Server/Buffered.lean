import PoseidonServer.Server.Body
import PoseidonServer.Server.Request

/-! Buffered request bodies, and that the streaming reader comes to the same verdict. -/

namespace PoseidonServer.Server

open Conn HttpFields

inductive Verdict
  | complete (body : Bytes)
  | tooLarge
  | aborted
  deriving DecidableEq

structure Collecting where
  chunks : List Bytes := []
  total : Nat := 0
  trailers : List HeaderField := []

/-- How `serveStreamBuffered` ends: the request goes to the handler with its body and trailers, it
is answered with a 413, the reset closes the stream, or `Recv` fails. -/
inductive Collected
  | dispatched (body : Bytes) (trailers : List HeaderField)
  | rejected
  | closed
  | failed (e : GoErr)
  deriving DecidableEq

namespace Collecting

def dispatch (c : Collecting) : Collected := .dispatched (joinChunks c.chunks) c.trailers

def round (maxBodyBytes : Int) (c : Collecting) : Received → Collecting ⊕ Collected
  | .error e => .inr (.failed e)
  | .ok (.data p endStream) =>
    let total := c.total + p.length
    if p ≠ [] ∧ 0 ≤ maxBodyBytes ∧ maxBodyBytes < total then .inr .rejected
    else
      let c := { c with total, chunks := if p = [] then c.chunks else c.chunks ++ [p] }
      if endStream then .inr c.dispatch else .inl c
  | .ok (.trailers fields endStream) =>
    let c := { c with trailers := fields }
    if endStream then .inr c.dispatch else .inl c
  | .ok (.reset _) => .inr .closed
  | .ok (.headers _ _) => .inl c

def run (maxBodyBytes : Int) (c : Collecting) : List Received → Option (Collected × List Received)
  | [] => none
  | r :: rs =>
    match c.round maxBodyBytes r with
    | .inl c => c.run maxBodyBytes rs
    | .inr o => some (o, rs)

end Collecting

/-- `serveStreamBuffered` up to the point where the fate of the request is known, with the events
that are left then. -/
def collect (maxBodyBytes : Int) (rs : List Received) : Option (Collected × List Received) :=
  Collecting.run maxBodyBytes {} rs

def Collected.verdict : Collected → Verdict
  | .dispatched body _ => .complete body
  | .rejected => .tooLarge
  | .closed | .failed _ => .aborted

def Collected.actions (env : Env) (req : Request) : Collected → List Action
  | .dispatched body trailers => dispatchAndClose env { req with body, trailers }
  | .rejected => rejectTooLarge
  | .closed => [.close]
  | .failed _ => []

def ReadError.verdict (body : Bytes) : ReadError → Verdict
  | .eof => .complete body
  | .bodyTooLarge => .tooLarge
  | .unexpectedEOF | .recv _ => .aborted

def StreamBody.readAll (sb : StreamBody) (got : Bytes) (rs : List Received) :
    List Nat → Option (Verdict × List Received)
  | [] => none
  | n :: sizes =>
    match sb.read n rs with
    | none => none
    | some (a, sb, rest) =>
      match a.err with
      | some e => some (e.verdict (got ++ a.bytes), rest)
      | none => sb.readAll (got ++ a.bytes) rest sizes

def Received.regular : Received → Bool
  | .ok (.headers _ endStream) => !endStream
  | .ok (.trailers _ endStream) => endStream
  | _ => true

namespace Collecting

variable {c c' : Collecting} {maxBodyBytes : Int} {r : Received} {rs before : List Received}

theorem run_of_skipped (h : r.skipped = true) :
    c.run maxBodyBytes (r :: rs) = c.run maxBodyBytes rs := by
  match r with
  | .ok (.headers _ _) => rfl
  | .ok (.data p e) =>
    simp only [Received.skipped, Bool.and_eq_true, List.isEmpty_iff, Bool.not_eq_true'] at h
    obtain ⟨rfl, rfl⟩ := h
    simp [run, round]

theorem run_after_skipped (h : ∀ q ∈ before, q.skipped = true) :
    c.run maxBodyBytes (before ++ rs) = c.run maxBodyBytes rs := by
  induction before with
  | nil => rfl
  | cons q before ih =>
    rw [List.cons_append, run_of_skipped (h q (by simp))]
    exact ih fun p hp => h p (by simp [hp])

theorem run_actions (env : Env) (req : Request) (rs : List Received) :
    serveStreamBuffered env { req with trailers := c.trailers } c.chunks c.total rs =
      ((c.run env.opts.resolveMaxBodyBytes rs).map fun o => o.1.actions env req).getD [] := by
  induction rs generalizing c with
  | nil => rfl
  | cons r rs ih =>
    match r with
    | .error e => rfl
    | .ok (.reset code) => rfl
    | .ok (.headers fields e) => exact ih
    | .ok (.trailers fields e) =>
      cases e with
      | true => simp [serveStreamBuffered, run, round, dispatch, Collected.actions]
      | false => exact ih (c := { c with trailers := fields })
    | .ok (.data p e) =>
      simp only [serveStreamBuffered, run, round]
      have hcast : (c.total : Int) + p.length = (c.total + p.length : Nat) := by push_cast; rfl
      rw [hcast]
      split
      · rfl
      · cases e with
        | true => rfl
        | false =>
          simp only [Bool.false_eq_true, if_false]
          exact ih (c := ⟨if p = [] then c.chunks else c.chunks ++ [p], c.total + p.length, c.trailers⟩)

end Collecting

namespace StreamBody

variable {sb sb' : StreamBody} {got : Bytes} {c : Collecting} {n : Nat} {a : Answer}
  {r : Received} {rs rest : List Received} {sizes : List Nat}

theorem skipped_of_next (h : sb.next n rs = none) : ∀ r ∈ rs, r.skipped = true := by
  induction rs with
  | nil => nofun
  | cons r rs ih =>
    rw [next] at h
    cases hr : sb.round n r with
    | some o =>
      rw [hr] at h
      cases h
    | none =>
      rw [hr] at h
      intro q hq
      rcases List.mem_cons.1 hq with rfl | hq
      · exact round_eq_none.1 hr
      · exact ih h q hq

def Agrees (sb : StreamBody) (got : Bytes) (c : Collecting) : Prop :=
  sb.done = false → got ++ sb.buf = c.chunks.flatten ∧
    (0 ≤ sb.limit → sb.total = c.total ∧ sb.total ≤ sb.limit)

def outcome (sb : StreamBody) (got : Bytes) (c : Collecting) (rs : List Received) :
    Option (Verdict × List Received) :=
  if sb.done then some (.complete (got ++ sb.buf), rs)
  else (c.run sb.limit rs).map fun o => (o.1.verdict, o.2)

def remaining (sb : StreamBody) (rs : List Received) : Nat := sb.buf.length + (payload rs).length

def Continues (sb : StreamBody) (got : Bytes) (c : Collecting) (rs : List Received)
    (a : Answer) (sb' : StreamBody) (rest : List Received) : Prop :=
  match a.err with
  | some e => sb.outcome got c rs = some (e.verdict (got ++ a.bytes), rest)
  | none => ∃ c', sb'.Agrees (got ++ a.bytes) c' ∧
      sb'.outcome (got ++ a.bytes) c' rest = sb.outcome got c rs ∧
      sb'.remaining rest < sb.remaining rs

theorem continues_leftover (hbuf : sb.buf ≠ []) (hn : 0 < n) (h : sb.Agrees got c) :
    sb.Continues got c rs ⟨sb.buf.take n, none⟩ { sb with buf := sb.buf.drop n } rs := by
  have hsplit : got ++ sb.buf.take n ++ sb.buf.drop n = got ++ sb.buf := by
    rw [List.append_assoc, List.take_append_drop]
  refine ⟨c, ?_, ?_, ?_⟩
  · intro hdone
    exact ⟨hsplit.trans (h hdone).1, (h hdone).2⟩
  · simp only [outcome, hsplit]
  · have := List.length_pos_of_ne_nil hbuf
    simp only [remaining, List.length_drop]
    omega

theorem outcome_running (hdone : sb.done = false) :
    sb.outcome got c rs = (c.run sb.limit rs).map fun o => (o.1.verdict, o.2) := by
  simp [outcome, hdone]

theorem outcome_of_run {o : Collected} (hdone : sb.done = false)
    (h : c.run sb.limit rs = some (o, rest)) : sb.outcome got c rs = some (o.verdict, rest) := by
  rw [outcome_running hdone, h]
  rfl

theorem round_over {p : Bytes} {e : Bool}
    (htotal : 0 ≤ sb.limit → sb.total = c.total ∧ sb.total ≤ sb.limit)
    (hover : sb.Over (.ok (.data p e))) : c.round sb.limit (.ok (.data p e)) = .inr .rejected := by
  obtain ⟨hl, hlt⟩ := hover
  obtain ⟨hsame, hle⟩ := htotal hl
  have hp : p ≠ [] := by
    rintro rfl
    simp only [Received.octets, List.length_nil] at hlt
    omega
  have hlt' : sb.limit < (c.total + p.length : Nat) := by
    simp only [Received.octets, hsame] at hlt
    exact_mod_cast hlt
  simp only [Collecting.round, ne_eq, hp, not_false_eq_true, if_true, hl, hlt', and_self]

theorem round_fits {p : Bytes} {e : Bool} (hp : p ≠ [])
    (htotal : 0 ≤ sb.limit → sb.total = c.total ∧ sb.total ≤ sb.limit)
    (hover : ¬ sb.Over (.ok (.data p e))) :
    c.round sb.limit (.ok (.data p e)) =
      if e then .inr (.dispatched (c.chunks ++ [p]).flatten c.trailers)
      else .inl { c with total := c.total + p.length, chunks := c.chunks ++ [p] } := by
  have hfit : ¬ (0 ≤ sb.limit ∧ sb.limit < (c.total + p.length : Nat)) := by
    rintro ⟨hl, hlt⟩
    refine hover ⟨hl, ?_⟩
    rw [(htotal hl).1]
    exact_mod_cast hlt
  simp only [Collecting.round, hp, hfit, ne_eq, not_false_eq_true, if_false, and_false,
    Collecting.dispatch, joinChunks]

theorem append_taken {chunks : List Bytes} {p : Bytes} (h : got = chunks.flatten) :
    got ++ p.take n ++ p.drop n = (chunks ++ [p]).flatten := by
  simp [h]

theorem remaining_lt (hbuf : sb.buf = []) (hn : 0 < n) (ho : r.octets ≠ [])
    (hleft : sb'.buf = r.octets.drop n) : sb'.remaining rest < sb.remaining (r :: rest) := by
  have := List.length_pos_of_ne_nil ho
  simp only [remaining, hbuf, hleft, payload_cons, List.length_append, List.length_drop,
    List.length_nil]
  omega

theorem continues_data {p : Bytes} (hdone : sb.done = false) (hbuf : sb.buf = []) (hn : 0 < n)
    (hp : p ≠ []) (hgot : got = c.chunks.flatten)
    (htotal : 0 ≤ sb.limit → sb.total = c.total ∧ sb.total ≤ sb.limit)
    (hover : ¬ sb.Over (.ok (.data p false))) :
    sb.Continues got c (.ok (.data p false) :: rest) ⟨p.take n, none⟩
      { sb.count (.ok (.data p false)) with buf := p.drop n } rest := by
  refine ⟨{ c with total := c.total + p.length, chunks := c.chunks ++ [p] }, fun _ => ⟨?_, ?_⟩, ?_,
    remaining_lt hbuf hn hp rfl⟩
  · exact append_taken hgot
  · intro (hl : 0 ≤ sb.limit)
    have hle := Session.fits_of_not_over hl hover
    have hcount : (sb.count (.ok (.data p false))).total = sb.total + p.length := if_pos hl
    refine ⟨hcount.trans (by rw [(htotal hl).1]), ?_⟩
    change ((sb.count (.ok (.data p false))).total : Int) ≤ sb.limit
    rw [hcount]
    exact_mod_cast hle
  · have hround : c.round sb.limit (.ok (.data p false)) = _ := round_fits hp htotal hover
    have hrun : c.run sb.limit (.ok (.data p false) :: rest) =
        Collecting.run sb.limit { c with total := c.total + p.length, chunks := c.chunks ++ [p] }
          rest := by
      rw [Collecting.run, hround]
      rfl
    rw [outcome_running hdone, hrun]
    exact outcome_running hdone

theorem continues_last {p : Bytes} (hdone : sb.done = false) (hbuf : sb.buf = []) (hn : 0 < n)
    (hp : p ≠ []) (hgot : got = c.chunks.flatten)
    (htotal : 0 ≤ sb.limit → sb.total = c.total ∧ sb.total ≤ sb.limit)
    (hover : ¬ sb.Over (.ok (.data p true))) :
    sb.Continues got c (.ok (.data p true) :: rest)
      ⟨p.take n, if p.take n = [] then some .eof else none⟩
      { sb.count (.ok (.data p true)) with buf := p.drop n, done := true } rest := by
  have htake : p.take n ≠ [] := by
    rw [ne_eq, List.take_eq_nil_iff]
    exact not_or_intro (Nat.ne_of_gt hn) hp
  rw [if_neg htake]
  refine ⟨c, nofun, ?_, remaining_lt hbuf hn hp rfl⟩
  have hround : c.round sb.limit (.ok (.data p true)) = _ := round_fits hp htotal hover
  have hrun : c.run sb.limit (.ok (.data p true) :: rest) =
      some (.dispatched (c.chunks ++ [p]).flatten c.trailers, rest) := by
    rw [Collecting.run, hround]
    rfl
  rw [outcome_of_run hdone hrun]
  change some (Verdict.complete (got ++ p.take n ++ p.drop n), rest) = _
  rw [append_taken hgot]
  rfl

theorem continues_round (hdone : sb.done = false) (hbuf : sb.buf = []) (hn : 0 < n)
    (h : sb.Agrees got c) (hreg : r.regular = true) (hr : sb.round n r = some (a, sb')) :
    sb.Continues got c (r :: rest) a sb' rest := by
  obtain ⟨hgot, htotal⟩ := h hdone
  rw [hbuf, List.append_nil] at hgot
  obtain e | ⟨fields, _ | _⟩ | ⟨_ | ⟨x, p⟩, e⟩ | ⟨fields, _ | _⟩ | code := r
  · cases hr
    have hrun : c.run sb.limit (.error e :: rest) = some (.failed e, rest) := rfl
    exact outcome_of_run hdone hrun
  · cases hr
  · cases hreg
  · cases e with
    | false => cases hr
    | true =>
      cases hr
      have hrun : c.run sb.limit (.ok (.data [] true) :: rest) =
          some (.dispatched c.chunks.flatten c.trailers, rest) := by
        simp [Collecting.run, Collecting.round, Collecting.dispatch, joinChunks]
      rw [Continues, outcome_of_run hdone hrun, List.append_nil, hgot]
      rfl
  · cases took_of_round hbuf (fun hl => (htotal hl).2) hr with
    | failed hbad =>
      have hover := hbad.resolve_left Bool.false_ne_true
      have hrun : c.run sb.limit (.ok (.data (x :: p) e) :: rest) = some (.rejected, rest) := by
        rw [Collecting.run, round_over htotal hover]
      exact outcome_of_run hdone hrun
    | running hrunning hover =>
      obtain rfl : e = false := by simpa [Received.running] using hrunning
      exact continues_data hdone hbuf hn (List.cons_ne_nil x p) hgot htotal hover
    | ended hrunning _ hover =>
      obtain rfl : e = true := by simpa [Received.running] using hrunning
      exact continues_last hdone hbuf hn (List.cons_ne_nil x p) hgot htotal hover
  · cases hreg
  · cases hr
    have hrun : c.run sb.limit (.ok (.trailers fields true) :: rest) =
        some (.dispatched c.chunks.flatten fields, rest) := by
      simp [Collecting.run, Collecting.round, Collecting.dispatch, joinChunks]
    rw [Continues, outcome_of_run hdone hrun, List.append_nil, hgot]
    rfl
  · cases hr
    have hrun : c.run sb.limit (.ok (.reset code) :: rest) = some (.closed, rest) := rfl
    exact outcome_of_run hdone hrun

theorem continues_read (hn : 0 < n) (h : sb.Agrees got c) (hreg : ∀ r ∈ rs, r.regular = true)
    (hr : sb.read n rs = some (a, sb', rest)) :
    sb.Continues got c rs a sb' rest ∧ ∀ r ∈ rest, r.regular = true := by
  rw [read] at hr
  split at hr
  · rename_i hbuf
    cases hr
    exact ⟨continues_leftover hbuf hn h, hreg⟩
  rename_i hbuf
  split at hr
  · rename_i hdone
    cases hr
    refine ⟨?_, hreg⟩
    simp [Continues, outcome, hdone, not_not.1 hbuf, ReadError.verdict]
  · rename_i hnot
    have hdone : sb.done = false := by simpa using hnot
    obtain ⟨before, r, rfl, hbefore, hround⟩ := round_of_next hr
    refine ⟨?_, fun q hq => hreg q (by simp [hq])⟩
    have hnext : sb.Continues got c (r :: rest) a sb' rest :=
      continues_round hdone (not_not.1 hbuf) hn h (hreg r (by simp)) hround
    have hsame : sb.outcome got c (before ++ r :: rest) = sb.outcome got c (r :: rest) := by
      rw [outcome_running hdone, outcome_running hdone, Collecting.run_after_skipped hbefore]
    have hleft : sb.remaining (before ++ r :: rest) = sb.remaining (r :: rest) := by
      simp only [remaining, payload_append, payload_of_skipped hbefore, List.nil_append]
    rwa [Continues, hsame, hleft]

theorem outcome_of_wait (hr : sb.read n rs = none) : sb.outcome got c rs = none := by
  rw [read] at hr
  split at hr
  · cases hr
  split at hr
  · cases hr
  · rename_i hdone
    have hrun : c.run sb.limit rs = none := by
      rw [← List.append_nil rs, Collecting.run_after_skipped (skipped_of_next hr)]
      rfl
    simp [outcome, hdone, hrun]

theorem readAll_eq_outcome (h : sb.Agrees got c) (hreg : ∀ r ∈ rs, r.regular = true)
    (hpos : ∀ n ∈ sizes, 0 < n) (hlen : sb.remaining rs < sizes.length) :
    sb.readAll got rs sizes = sb.outcome got c rs := by
  induction sizes generalizing sb got c rs with
  | nil => cases hlen
  | cons n sizes ih =>
    rw [readAll]
    cases hr : sb.read n rs with
    | none => exact (outcome_of_wait hr).symm
    | some o =>
      obtain ⟨a, sb', rest⟩ := o
      obtain ⟨hnext, hrest⟩ := continues_read (hpos n (by simp)) h hreg hr
      rw [Continues] at hnext
      dsimp only
      cases he : a.err with
      | some e =>
        rw [he] at hnext
        exact hnext.symm
      | none =>
        rw [he] at hnext
        obtain ⟨c', hagrees, hsame, hless⟩ := hnext
        rw [← hsame]
        refine ih hagrees hrest (fun m hm => hpos m (by simp [hm])) ?_
        rw [List.length_cons] at hlen
        omega

end StreamBody

end PoseidonServer.Server
