import Mathlib.Algebra.Order.BigOperators.Group.List
import Mathlib.Algebra.Order.Pi
import Mathlib.Data.Multiset.Range
import PoseidonServer.Server.Teardown.Model

/-! What the parts of the server's state keep: the book of the counters, the streams in flight and
the connections that are still open. -/

namespace PoseidonServer.Server.Teardown

/-- Every connection ever tracked is one term of the total: a live one with a value its counters had
during the call, a forgotten one with what was folded. -/
structure View.CountsOnce (v : View) : Prop where
  activeConns : v.activeConns = v.live.length
  nodup : v.ever.Nodup
  perm : (v.live ++ v.folded.map (·.1)).Perm v.ever
  folded : ∀ p ∈ v.folded, p.2 ≤ v.high p.1
  total : ∃ st : Nat → Stats, (∀ k ∈ v.live, v.low k ≤ st k ∧ st k ≤ v.high k) ∧
    v.total = (v.folded.map (·.2)).sum + (v.live.map st).sum

namespace Book

structure Inv (b : Book) : Prop where
  nodup : b.ever.Nodup
  perm : (b.conns ++ b.folded.map (·.1)).Perm b.ever
  closedStats : b.closedStats = (b.folded.map (·.2)).sum
  folded : ∀ p ∈ b.folded, p.2 ≤ b.counters p.1
  floor : ∀ k, b.floor k ≤ b.counters k
  last : ∀ v ∈ b.views, v.total ≤ b.closedStats + (b.conns.map b.floor).sum
  counts : ∀ v ∈ b.views, v.CountsOnce
  views : b.views.Pairwise fun v v' => v.total ≤ v'.total

variable {b : Book} {k : Nat} {st : Stats}

theorem sum_le_sum {ks : List Nat} {f g : Nat → Stats} (h : ∀ k ∈ ks, f k ≤ g k) :
    (ks.map f).sum ≤ (ks.map g).sum := List.sum_le_sum h

theorem Inv.mem_ever (h : b.Inv) (hk : k ∈ b.conns) : k ∈ b.ever :=
  h.perm.subset (List.mem_append_left _ hk)

theorem Inv.lock (h : b.Inv) : Inv { b with floor := b.counters } where
  nodup := h.nodup
  perm := h.perm
  closedStats := h.closedStats
  folded := h.folded
  floor := fun _ => le_rfl
  last := fun v hv => (h.last v hv).trans (add_le_add_right (sum_le_sum fun k _ => h.floor k) _)
  counts := h.counts
  views := h.views

theorem Inv.count (h : b.Inv) (hst : b.counters k ≤ st) :
    Inv { b with counters := Function.update b.counters k st } := by
  have hle : b.counters ≤ Function.update b.counters k st := by
    rw [le_update_iff]
    exact ⟨hst, fun _ _ => le_rfl⟩
  exact ⟨h.nodup, h.perm, h.closedStats, fun p hp => (h.folded p hp).trans (hle p.1),
    fun k' => (h.floor k').trans (hle k'), h.last, h.counts, h.views⟩

theorem Inv.track (h : b.Inv) (hk : k ∉ b.ever) :
    Inv { b with conns := k :: b.conns.erase k, ever := k :: b.ever } := by
  have herase : b.conns.erase k = b.conns :=
    List.erase_of_not_mem fun hmem => hk (h.mem_ever hmem)
  rw [herase]
  refine ⟨h.nodup.cons hk, h.perm.cons k, h.closedStats, h.folded, h.floor, fun v hv => ?_, h.counts,
    h.views⟩
  refine (h.last v hv).trans (add_le_add_right ?_ _)
  rw [List.map_cons, List.sum_cons]
  exact le_add_of_nonneg_left zero_le

theorem Inv.fold (h : b.Inv) (hk : k ∈ b.conns) (hlow : b.floor k ≤ st) (hhigh : st ≤ b.counters k) :
    Inv { b with
      conns := b.conns.erase k
      closedStats := b.closedStats + st
      folded := b.folded ++ [(k, st)] } where
  nodup := h.nodup
  perm := by
    have hmove : (b.conns.erase k ++ (b.folded.map (·.1) ++ [k])).Perm
        (b.conns ++ b.folded.map (·.1)) := by
      rw [← List.append_assoc]
      refine (List.perm_append_singleton k _).trans ?_
      exact (List.perm_cons_erase hk).symm.append_right _
    rw [List.map_append]
    exact hmove.trans h.perm
  closedStats := by simp [h.closedStats]
  folded := by
    intro p hp
    rcases List.mem_append.1 hp with hp | hp
    · exact h.folded p hp
    · cases List.mem_singleton.1 hp
      exact hhigh
  floor := h.floor
  last := by
    intro v hv
    refine (h.last v hv).trans ?_
    dsimp only
    rw [← List.sum_map_erase b.floor hk, add_assoc]
    exact add_le_add_right (add_le_add_left hlow _) _
  counts := h.counts
  views := h.views

def Adds (b : Book) (ts : Stats) : Prop :=
  ∃ st : Nat → Stats, (∀ k ∈ b.conns, b.floor k ≤ st k ∧ st k ≤ b.counters k) ∧
    ts = b.closedStats + (b.conns.map st).sum

theorem Inv.report {ts : Stats} (h : b.Inv) (hts : b.Adds ts) {n : Nat} (hn : n = b.conns.length) :
    Inv { b with
      views := b.views ++ [{
        activeConns := n
        total := ts
        live := b.conns
        folded := b.folded
        ever := b.ever
        low := b.floor
        high := b.counters }]
      floor := b.counters } := by
  obtain ⟨st, hst, rfl⟩ := hts
  have hlast : ∀ v ∈ b.views, v.total ≤ b.closedStats + (b.conns.map st).sum := fun v hv =>
    (h.last v hv).trans (add_le_add_right (sum_le_sum fun k hk => (hst k hk).1) _)
  refine ⟨h.nodup, h.perm, h.closedStats, h.folded, fun _ => le_rfl, fun v hv => ?_, fun v hv => ?_, ?_⟩
  · rcases List.mem_append.1 hv with hv | hv
    · exact h.lock.last v hv
    · cases List.mem_singleton.1 hv
      exact add_le_add_right (sum_le_sum fun k hk => (hst k hk).2) _
  · rcases List.mem_append.1 hv with hv | hv
    · exact h.counts v hv
    · cases List.mem_singleton.1 hv
      exact ⟨hn, h.nodup, h.perm, h.folded, st, hst, by rw [h.closedStats]⟩
  · refine List.pairwise_append.2 ⟨h.views, List.pairwise_singleton _ _, fun v hv v' hv' => ?_⟩
    cases List.mem_singleton.1 hv'
    exact hlast v hv

end Book

structure Streams.Inv (s : Streams) (g : Multiset Nat) : Prop where
  tokens : g + s.finished = Multiset.range s.admitted
  inFlight : s.inFlight = g.card
  handed : ∀ p ∈ s.handed, p.1 < s.admitted
  flagged : ∀ n, s.flagged = some n → s.shutdown = true ∧ s.admitted = n
  done : s.done = true → s.shutdown = true ∧ s.inFlight = 0
  drained : ∀ l, s.drained = some l → s.shutdown = true ∧ ∀ k < s.admitted, k ∈ l

namespace Streams

variable {s : Streams} {g : Multiset Nat} {n : Nat}

theorem Inv.lt (h : s.Inv g) (hn : n ∈ g) : n < s.admitted := by
  rw [← Multiset.mem_range, ← h.tokens]
  exact Multiset.mem_add.2 (.inl hn)

theorem Inv.add (h : s.Inv g) (hs : s.shutdown = false) :
    Inv { s with inFlight := s.inFlight + 1, admitted := s.admitted + 1 } ({s.admitted} + g) where
  tokens := by rw [add_assoc, h.tokens, Multiset.range_succ, Multiset.singleton_add]
  inFlight := by rw [Multiset.card_add, Multiset.card_singleton, ← h.inFlight, Nat.add_comm]
  handed := fun p hp => Nat.lt_succ_of_lt (h.handed p hp)
  flagged := fun n hn => by simp [(h.flagged n hn).1] at hs
  done := fun hd => by simp [(h.done hd).1] at hs
  drained := fun l hl => by simp [(h.drained l hl).1] at hs

theorem Inv.finish (h : s.Inv ({n} + g)) :
    Inv { s with inFlight := s.inFlight - 1, finished := s.finished ++ [n] } g where
  tokens := by
    rw [← h.tokens, ← Multiset.coe_add, Multiset.coe_singleton, add_comm {n} g, add_assoc,
      add_comm ({n} : Multiset Nat)]
  inFlight := by
    have := h.inFlight
    rw [Multiset.card_add, Multiset.card_singleton] at this
    dsimp only
    omega
  handed := h.handed
  flagged := h.flagged
  done := fun hd => ⟨(h.done hd).1, by simp [(h.done hd).2]⟩
  drained := h.drained

theorem Inv.hand (h : s.Inv g) (hn : n < s.admitted) (b : Bool) :
    Inv { s with handed := s.handed ++ [(n, b)] } g := by
  refine ⟨h.tokens, h.inFlight, fun p hp => ?_, h.flagged, h.done, h.drained⟩
  rcases List.mem_append.1 hp with hp | hp
  · exact h.handed p hp
  · cases List.mem_singleton.1 hp
    exact hn

theorem Inv.flag (h : s.Inv g) : Inv { s with shutdown := true, flagged := some s.admitted } g :=
  ⟨h.tokens, h.inFlight, h.handed, fun _ hn => ⟨rfl, Option.some.inj hn⟩,
    fun hd => ⟨rfl, (h.done hd).2⟩, fun l hl => ⟨rfl, (h.drained l hl).2⟩⟩

theorem Inv.close (h : s.Inv g) (hs : s.shutdown = true) (hzero : s.inFlight = 0) :
    Inv { s with done := true } g :=
  ⟨h.tokens, h.inFlight, h.handed, h.flagged, fun _ => ⟨hs, hzero⟩, h.drained⟩

theorem Inv.drain (h : s.Inv g) (hd : s.done = true) :
    Inv { s with drained := some s.finished } g := by
  refine ⟨h.tokens, h.inFlight, h.handed, h.flagged, h.done, ?_⟩
  rintro _ ⟨⟩
  refine ⟨(h.done hd).1, fun k hk => ?_⟩
  have hg : g = 0 := Multiset.card_eq_zero.1 (h.inFlight.symm.trans (h.done hd).2)
  have hmem : k ∈ (s.finished : Multiset Nat) := by
    rw [← zero_add (s.finished : Multiset Nat), ← hg, h.tokens]
    exact Multiset.mem_range.2 hk
  exact hmem

end Streams

structure Ends.Inv (e : Ends) : Prop where
  made : ∀ k ∈ e.snapshot, k < e.made
  snapshot : ∀ k ∈ e.snapshot, e.isOpen k = true → k ∈ e.left
  left : e.closer = none → e.left = []

namespace Ends

variable {e : Ends} {k : Nat}

theorem Inv.new (h : e.Inv) (i : Nat) : Inv { e with
    made := e.made + 1
    owner := Function.update e.owner e.made i
    isOpen := Function.update e.isOpen e.made true } := by
  refine ⟨fun k hk => Nat.lt_succ_of_lt (h.made k hk), fun k hk hopen => ?_, h.left⟩
  dsimp only at hopen
  rw [Function.update_of_ne (h.made k hk).ne] at hopen
  exact h.snapshot k hk hopen

theorem Inv.close (h : e.Inv) (k : Nat) : Inv { e with
    isOpen := Function.update e.isOpen k false
    left := e.left.filter (· ≠ k) } := by
  refine ⟨h.made, fun k' hk' hopen => ?_, fun hc => by rw [h.left hc]; rfl⟩
  by_cases hne : k' = k
  · subst hne
    simp at hopen
  · dsimp only at hopen
    rw [Function.update_of_ne hne] at hopen
    exact List.mem_filter.2 ⟨h.snapshot k' hk' hopen, by simpa using hne⟩

theorem Inv.begin {ks : List Nat} (hks : ∀ k ∈ ks, k < e.made) (i : Nat) :
    Inv { e with closer := some i, snapshot := ks, left := ks } :=
  ⟨hks, fun _ hk _ => hk, nofun⟩

end Ends

end PoseidonServer.Server.Teardown
