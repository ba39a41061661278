import PoseidonServer.Server.Teardown.Ledger

/-! The steps of the server: what each counts on, and what it leaves to the other goroutines. -/

namespace PoseidonServer.Server.Teardown

open Concurrent

structure Inv (w : State) (g : Multiset Nat) : Prop where
  streams : w.streams.Inv g
  book : w.book.Inv
  ends : w.ends.Inv
  made : ∀ k ∈ w.book.ever, k < w.ends.made
  closer : w.closed = false → w.ends.closer = none

/-- A connection that is open is one of those that `Close` or `Shutdown` still has to close. -/
def Ends.Covered (e : Ends) (k : Nat) : Prop := e.isOpen k = true → k ∈ e.left

structure Ends.Rely (i : Nat) (e e' : Ends) : Prop where
  made : e.made ≤ e'.made
  owner : ∀ k < e.made, e'.owner k = e.owner k
  others : ∀ k, e.made ≤ k → k < e'.made → e'.owner k ≠ i
  covered : ∀ k < e.made, e.Covered k → e'.Covered k
  closer : e'.closer = some i ↔ e.closer = some i
  left : e.closer = some i → ∀ k ∈ e'.left, k ∈ e.left

structure Rely (i : Nat) (w w' : State) : Prop where
  ends : w.ends.Rely i w'.ends
  counters : w.book.counters ≤ w'.book.counters
  fresh : ∀ k < w.ends.made, w.ends.owner k = i → (k ∈ w'.book.ever ↔ k ∈ w.book.ever)
  locked : w.mu = some i → w'.mu = some i ∧
    { w'.book with counters := w.book.counters } = w.book
  calm : w.streams.shutdown = true → w'.streams.shutdown = true ∧
    (w.streams.inFlight = 0 → w'.streams.inFlight = 0)

def Pre (i : Nat) (w : State) : Op β → Prop
  | .unlock | .beginClose _ => w.mu = some i
  | .track k => w.mu = some i ∧ k < w.ends.made ∧ w.ends.owner k = i ∧ k ∉ w.book.ever
  | .fold k st => w.mu = some i ∧ k ∈ w.book.conns ∧ w.book.floor k ≤ st ∧ st ≤ w.book.counters k
  | .report ts n => w.mu = some i ∧ w.book.Adds ts ∧ n = w.book.conns.length
  | .hand s => s < w.streams.admitted
  | .closeDone => w.streams.shutdown = true ∧ w.streams.inFlight = 0
  | _ => True

def Op.reads : Op β → Bool
  | .accept _ | .contextDone | .connCount | .detect | .tlsAdmissible _ | .acceptStream _
  | .activeStreams _ | .isTracked _ | .load _ _ | .totals | .wait => true
  | _ => false

def Op.still : Op β → Bool
  | .newServerConn | .unlock | .track _ | .fold _ _ | .report _ _ | .beginClose _ => false
  | _ => true

def Op.plain : Op β → Bool
  | .add | .finish _ => false
  | _ => true

variable {i j k : Nat} {w w' : State} {g : Multiset Nat}

theorem mem_underMu {x : β × State} {r : List (β × State)} :
    x ∈ Op.underMu w r ↔ w.mu = none ∧ x ∈ r := by
  unfold Op.underMu
  split <;> simp_all

theorem eq_of_reads {o : Op β} {b : β} (ho : o.reads = true) (hb : (b, w') ∈ o.exec i w) : w' = w := by
  cases o <;> simp only [Op.reads, Bool.false_eq_true] at ho <;>
    simp only [Op.exec, mem_underMu, List.mem_cons, List.mem_append, List.mem_map, Prod.mk.injEq,
      List.not_mem_nil, or_false] at hb <;>
    grind

theorem Ends.Rely.refl (i : Nat) (e : Ends) : e.Rely i e :=
  ⟨le_rfl, fun _ _ => rfl, fun _ h h' => absurd h' (not_lt.2 h), fun _ _ h => h, .rfl, fun _ _ h => h⟩

theorem Ends.Rely.trans {e e' e'' : Ends} (h : e.Rely i e') (h' : e'.Rely i e'') : e.Rely i e'' where
  made := h.made.trans h'.made
  owner := fun k hk => (h'.owner k (hk.trans_le h.made)).trans (h.owner k hk)
  others := by
    intro k hk hk'
    by_cases hlt : k < e'.made
    · rw [h'.owner k hlt]
      exact h.others k hk hlt
    · exact h'.others k (not_lt.1 hlt) hk'
  covered := fun k hk hc => h'.covered k (hk.trans_le h.made) (h.covered k hk hc)
  closer := h'.closer.trans h.closer
  left := fun hc k hk => h.left hc k (h'.left (h.closer.2 hc) k hk)

theorem Ends.rely_new {e : Ends} (hj : j ≠ i) : e.Rely j { e with
    made := e.made + 1
    owner := Function.update e.owner e.made i
    isOpen := Function.update e.isOpen e.made true } where
  made := Nat.le_succ _
  owner := fun k hk => Function.update_of_ne hk.ne ..
  others := by
    intro k hk hk'
    have hmade : k = e.made := le_antisymm (Nat.lt_succ_iff.1 hk') hk
    subst hmade
    simpa using hj.symm
  covered := by
    intro k hk hc hopen
    dsimp only at hopen
    rw [Function.update_of_ne hk.ne] at hopen
    exact hc hopen
  closer := .rfl
  left := fun _ _ h => h

theorem Ends.rely_close {e : Ends} (i : Nat) : e.Rely i { e with
    isOpen := Function.update e.isOpen k false
    left := e.left.filter (· ≠ k) } where
  made := le_rfl
  owner := fun _ _ => rfl
  others := fun _ h h' => absurd h' (not_lt.2 h)
  covered := by
    intro k' _ hc hopen
    dsimp only at hopen
    by_cases hne : k' = k
    · subst hne
      simp at hopen
    · rw [Function.update_of_ne hne] at hopen
      exact List.mem_filter.2 ⟨hc hopen, by simpa using hne⟩
  closer := .rfl
  left := fun _ _ h => List.mem_of_mem_filter h

theorem Ends.rely_begin {e : Ends} {ks : List Nat} (he : e.Inv) (hc : e.closer = none) (hj : j ≠ i) :
    e.Rely j { e with closer := some i, snapshot := ks, left := ks } where
  made := le_rfl
  owner := fun _ _ => rfl
  others := fun _ h h' => absurd h' (not_lt.2 h)
  covered := by
    intro k _ hk hopen
    have := hk hopen
    simp [he.left hc] at this
  closer := by simp [hc, hj.symm]
  left := fun hc' => by simp [hc] at hc'

theorem Rely.refl (i : Nat) (w : State) : Rely i w w :=
  ⟨.refl i _, le_rfl, fun _ _ _ => .rfl, fun h => ⟨h, rfl⟩, fun h => ⟨h, id⟩⟩

theorem Rely.trans {w'' : State} (h : Rely i w w') (h' : Rely i w' w'') : Rely i w w'' where
  ends := h.ends.trans h'.ends
  counters := h.counters.trans h'.counters
  fresh := by
    intro k hk ho
    rw [← h.fresh k hk ho]
    exact h'.fresh k (hk.trans_le h.ends.made) ((h.ends.owner k hk).trans ho)
  locked := by
    intro hmu
    obtain ⟨hmu', hbook⟩ := h.locked hmu
    obtain ⟨hmu'', hbook'⟩ := h'.locked hmu'
    refine ⟨hmu'', ?_⟩
    rw [← hbook'] at hbook
    exact hbook
  calm := by
    intro hs
    obtain ⟨hs', hzero⟩ := h.calm hs
    obtain ⟨hs'', hzero'⟩ := h'.calm hs'
    exact ⟨hs'', fun h => hzero' (hzero h)⟩

theorem rely_of_ends (hends : w.ends.Rely j w'.ends) (hmu : w'.mu = w.mu) (hbook : w'.book = w.book)
    (hstreams : w'.streams = w.streams) : Rely j w w' := by
  refine ⟨hends, hbook ▸ le_rfl, fun k _ _ => by rw [hbook], fun h => ⟨hmu.trans h, by rw [hbook]⟩, ?_⟩
  intro hs
  rw [hstreams]
  exact ⟨hs, id⟩

theorem rely_of_streams (hends : w'.ends = w.ends) (hmu : w'.mu = w.mu) (hbook : w'.book = w.book)
    (hcalm : w.streams.shutdown = true → w'.streams.shutdown = true ∧
      (w.streams.inFlight = 0 → w'.streams.inFlight = 0)) : Rely j w w' :=
  ⟨hends ▸ .refl j _, hbook ▸ le_rfl, fun k _ _ => by rw [hbook],
    fun h => ⟨hmu.trans h, by rw [hbook]⟩, hcalm⟩

theorem rely_of_book (hends : w'.ends = w.ends) (hstreams : w'.streams = w.streams)
    (hmu : w.mu ≠ some j) (hcounters : w'.book.counters = w.book.counters)
    (hfresh : ∀ k < w.ends.made, w.ends.owner k = j → (k ∈ w'.book.ever ↔ k ∈ w.book.ever)) :
    Rely j w w' := by
  refine ⟨hends ▸ .refl j _, hcounters.ge, hfresh, fun h => absurd h hmu, ?_⟩
  intro hs
  rw [hstreams]
  exact ⟨hs, id⟩

theorem rely_of_exec {o : Op β} {b : β} (h : Inv w g) (hpre : Pre i w o)
    (hb : (b, w') ∈ o.exec i w) (hj : o.still = true ∨ j ≠ i) : Rely j w w' := by
  by_cases ho : o.reads = true
  · rw [eq_of_reads ho hb]
    exact .refl j w
  have hlocked : w.mu = some i → j ≠ i → w.mu ≠ some j := by
    intro hmu hne hmu'
    rw [hmu] at hmu'
    exact hne (Option.some.inj hmu').symm
  cases o with
  | accept | contextDone | connCount | detect | tlsAdmissible | acceptStream | activeStreams
  | isTracked | load | totals | wait => exact absurd rfl ho
  | listen ln =>
    obtain ⟨-, hb⟩ := mem_underMu.1 hb
    have hb := List.mem_singleton.1 hb
    split at hb <;> cases hb
    · exact .refl j w
    · exact rely_of_ends (.refl j _) rfl rfl rfl
  | unlisten ln =>
    obtain ⟨-, hb⟩ := mem_underMu.1 hb
    cases List.mem_singleton.1 hb
    exact rely_of_ends (.refl j _) rfl rfl rfl
  | newServerConn =>
    have hj := hj.resolve_left nofun
    simp only [Op.exec, List.mem_cons, List.not_mem_nil, or_false] at hb
    rcases hb with hb | hb <;> cases hb
    · exact rely_of_ends (Ends.rely_new hj) rfl rfl rfl
    · exact .refl j w
  | closeConn k =>
    cases List.mem_singleton.1 hb
    exact rely_of_ends (Ends.rely_close j) rfl rfl rfl
  | lock =>
    obtain ⟨hmu, hb⟩ := mem_underMu.1 hb
    cases List.mem_singleton.1 hb
    exact rely_of_book rfl rfl (by simp [hmu]) rfl fun _ _ _ => .rfl
  | unlock =>
    cases List.mem_singleton.1 hb
    exact rely_of_book rfl rfl (hlocked hpre (hj.resolve_left nofun)) rfl fun _ _ _ => .rfl
  | track k =>
    have hother := hj.resolve_left nofun
    obtain ⟨hmu, hmade, howner, -⟩ := hpre
    cases List.mem_singleton.1 hb
    refine rely_of_book rfl rfl (hlocked hmu hother) rfl fun k' _ hk' => ?_
    have hne : k' ≠ k := by
      rintro rfl
      exact hother (hk'.symm.trans howner)
    simp [hne]
  | fold k st =>
    cases List.mem_singleton.1 hb
    exact rely_of_book rfl rfl (hlocked hpre.1 (hj.resolve_left nofun)) rfl fun _ _ _ => .rfl
  | report ts n =>
    cases List.mem_singleton.1 hb
    exact rely_of_book rfl rfl (hlocked hpre.1 (hj.resolve_left nofun)) rfl fun _ _ _ => .rfl
  | add =>
    obtain ⟨-, hb⟩ := mem_underMu.1 hb
    have hb := List.mem_singleton.1 hb
    split at hb
    · cases hb
      exact .refl j w
    · rename_i hs
      cases hb
      refine rely_of_streams rfl rfl rfl fun hs' => ?_
      simp [hs'] at hs
  | hand s =>
    cases List.mem_singleton.1 hb
    exact rely_of_streams rfl rfl rfl fun hs => ⟨hs, id⟩
  | finish s =>
    cases List.mem_singleton.1 hb
    exact rely_of_streams rfl rfl rfl fun hs => ⟨hs, fun hzero => by simp [hzero]⟩
  | beginClose shutdown =>
    have hj := hj.resolve_left nofun
    simp only [Op.exec] at hb
    split at hb
    · cases List.mem_singleton.1 hb
      exact .refl j w
    · rename_i hclosed
      obtain ⟨ks, -, hb⟩ := List.mem_map.1 hb
      cases hb
      have hc := h.closer (by simpa using hclosed)
      refine ⟨Ends.rely_begin h.ends hc hj, le_rfl, fun _ _ _ => .rfl,
        fun hmu => absurd hmu (hlocked hpre hj), fun hs => ?_⟩
      dsimp only
      split
      · exact ⟨rfl, id⟩
      · exact ⟨hs, id⟩
  | closeDone =>
    cases List.mem_singleton.1 hb
    exact rely_of_streams rfl rfl rfl fun hs => ⟨hs, id⟩
  | select =>
    rcases List.mem_append.1 hb with hb | hb
    · split at hb
      · cases List.mem_singleton.1 hb
        exact rely_of_streams rfl rfl rfl fun hs => ⟨hs, id⟩
      · cases hb
    · cases List.mem_singleton.1 hb
      exact .refl j w
  | count k st =>
    cases List.mem_singleton.1 hb
    refine ⟨.refl j _, ?_, fun _ _ _ => .rfl, fun hmu => ⟨hmu, rfl⟩, fun hs => ⟨hs, id⟩⟩
    rw [le_update_iff]
    exact ⟨fun f => le_max_left _ _, fun _ _ => le_rfl⟩

theorem inv_of_exec {o : Op β} {b : β} (h : Inv w g) (hpre : Pre i w o) (ho : o.plain = true)
    (hb : (b, w') ∈ o.exec i w) : Inv w' g := by
  by_cases hread : o.reads = true
  · rw [eq_of_reads hread hb]
    exact h
  cases o with
  | accept | contextDone | connCount | detect | tlsAdmissible | acceptStream | activeStreams
  | isTracked | load | totals | wait => exact absurd rfl hread
  | add | finish => cases ho
  | listen ln =>
    obtain ⟨-, hb⟩ := mem_underMu.1 hb
    have hb := List.mem_singleton.1 hb
    split at hb <;> cases hb
    · exact h
    · exact ⟨h.streams, h.book, h.ends, h.made, h.closer⟩
  | unlisten ln =>
    obtain ⟨-, hb⟩ := mem_underMu.1 hb
    cases List.mem_singleton.1 hb
    exact ⟨h.streams, h.book, h.ends, h.made, h.closer⟩
  | newServerConn =>
    simp only [Op.exec, List.mem_cons, List.not_mem_nil, or_false] at hb
    rcases hb with hb | hb <;> cases hb
    · exact ⟨h.streams, h.book, h.ends.new i, fun k hk => Nat.lt_succ_of_lt (h.made k hk), h.closer⟩
    · exact h
  | closeConn k =>
    cases List.mem_singleton.1 hb
    exact ⟨h.streams, h.book, h.ends.close k, h.made, h.closer⟩
  | lock =>
    obtain ⟨-, hb⟩ := mem_underMu.1 hb
    cases List.mem_singleton.1 hb
    exact ⟨h.streams, h.book.lock, h.ends, h.made, h.closer⟩
  | unlock =>
    cases List.mem_singleton.1 hb
    exact ⟨h.streams, h.book, h.ends, h.made, h.closer⟩
  | track k =>
    cases List.mem_singleton.1 hb
    refine ⟨h.streams, h.book.track hpre.2.2.2, h.ends, fun k' hk' => ?_, h.closer⟩
    rcases List.mem_cons.1 hk' with rfl | hk'
    · exact hpre.2.1
    · exact h.made k' hk'
  | fold k st =>
    cases List.mem_singleton.1 hb
    exact ⟨h.streams, h.book.fold hpre.2.1 hpre.2.2.1 hpre.2.2.2, h.ends, h.made, h.closer⟩
  | report ts n =>
    cases List.mem_singleton.1 hb
    exact ⟨h.streams, h.book.report hpre.2.1 hpre.2.2, h.ends, h.made, h.closer⟩
  | hand s =>
    cases List.mem_singleton.1 hb
    exact ⟨h.streams.hand hpre _, h.book, h.ends, h.made, h.closer⟩
  | beginClose shutdown =>
    simp only [Op.exec] at hb
    split at hb
    · cases List.mem_singleton.1 hb
      exact h
    · obtain ⟨ks, hks, hb⟩ := List.mem_map.1 hb
      cases hb
      have hmade : ∀ k ∈ ks, k < w.ends.made := fun k hk =>
        h.made k (h.book.mem_ever ((List.mem_permutations.1 hks).subset hk))
      refine ⟨?_, h.book, .begin hmade i, h.made, nofun⟩
      dsimp only
      split
      · exact h.streams.flag
      · exact h.streams
  | closeDone =>
    cases List.mem_singleton.1 hb
    exact ⟨h.streams.close hpre.1 hpre.2, h.book, h.ends, h.made, h.closer⟩
  | select =>
    rcases List.mem_append.1 hb with hb | hb
    · split at hb
      · cases List.mem_singleton.1 hb
        exact ⟨h.streams.drain ‹_›, h.book, h.ends, h.made, h.closer⟩
      · cases hb
    · cases List.mem_singleton.1 hb
      exact h
  | count k st =>
    cases List.mem_singleton.1 hb
    exact ⟨h.streams, h.book.count fun f => le_max_left _ _, h.ends, h.made, h.closer⟩

end PoseidonServer.Server.Teardown
