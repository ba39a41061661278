import Mathlib.Data.Set.Card
import Mathlib.Logic.Relation
import PoseidonServer.Conn.StreamTable

/-! The stream table over any sequence of calls: its counters count the live streams, and its two
marks tell which identifiers have been used. -/

namespace PoseidonServer.Conn

namespace StreamTable

def validateClientID (t : StreamTable) (id : UInt32) : Except GoErr Unit :=
  if id % 2 = 0 then .error (.connError .protocolError "client-initiated stream ID must be odd")
  else if id ≤ t.maxClient then
    .error (.connError .protocolError "client stream ID must exceed all previous client streams")
  else .ok ()

def lastPeerID (t : StreamTable) : UInt32 := t.maxClient

/-- `publish` has reported the two windows; what `adjust` reports about an overflow is left out. -/
def applyInitialWindow (t : StreamTable) (oldWin newWin : UInt32)
    (adjust : TableStream → Int → TableStream) : StreamTable :=
  if oldWin = newWin then t
  else { t with streams := fun id =>
    (t.streams id).map fun s => adjust s ((newWin.toNat : Int) - oldWin.toNat) }

/-- A table with the history of its calls: the identifiers that `admitClient` was given, with the
limits, and those that `reservePush` has returned. -/
structure Logged where
  table : StreamTable := {}
  presented : List UInt32 := []
  limits : List Int := []
  reserved : List UInt32 := []

inductive Step : Logged → Logged → Prop
  | present {l : Logged} (id limit initial) (h : l.table.validateClientID id = .ok ()) : Step l
      { l with
        table := (l.table.admitClient id limit initial).2
        presented := id :: l.presented
        limits := limit :: l.limits }
  | reserve {l : Logged} (limit initial) : Step l
      { l with
        table := (l.table.reservePush limit initial).2
        reserved := l.reserved ++ (l.table.reservePush limit initial).1.toList }
  | release {l : Logged} (id) : Step l { l with table := (l.table.release id).2 }
  | drain {l : Logged} : Step l { l with table := l.table.drain }
  | adjust {l : Logged} (oldWin newWin adjust) : Step l
      { l with table := l.table.applyInitialWindow oldWin newWin adjust }

abbrev Run : Logged → Logged → Prop := Relation.ReflTransGen Step

def liveOf (streams : UInt32 → Option TableStream) (odd : Bool) : Set UInt32 :=
  {id | decide (id % 2 = 1) = odd ∧ streams id ≠ none}

def population (t : StreamTable) (odd : Bool) : Int := if odd then t.nClient else t.nPush

section Live

variable {streams : UInt32 → Option TableStream} {id : UInt32} {t t' : StreamTable}

theorem finite_liveOf (odd : Bool) : (liveOf streams odd).Finite := by
  have : Finite UInt32 := Finite.of_injective UInt32.toFin fun _ _ => UInt32.toFin_inj.1
  exact Set.toFinite _

theorem liveOf_update_of_ne {odd : Bool} (h : decide (id % 2 = 1) ≠ odd) (o : Option TableStream) :
    liveOf (Function.update streams id o) odd = liveOf streams odd := by
  ext x
  refine and_congr_right fun hx => ?_
  rw [Function.update_of_ne (by rintro rfl; exact h hx)]

theorem ncard_liveOf_some (hnew : streams id = none) (s : TableStream) (odd : Bool) :
    (liveOf (Function.update streams id (some s)) odd).ncard =
      (liveOf streams odd).ncard + if decide (id % 2 = 1) = odd then 1 else 0 := by
  split
  · rename_i h
    have hset : liveOf (Function.update streams id (some s)) odd = insert id (liveOf streams odd) := by
      ext x
      by_cases hx : x = id
      · simp [liveOf, hx, h]
      · simp [liveOf, hx]
    rw [hset, Set.ncard_insert_of_notMem (fun hmem => hmem.2 hnew) (finite_liveOf odd)]
  · rw [liveOf_update_of_ne ‹_›, Nat.add_zero]

theorem ncard_liveOf_none (hlive : streams id ≠ none) (odd : Bool) :
    (liveOf (Function.update streams id none) odd).ncard +
      (if decide (id % 2 = 1) = odd then 1 else 0) = (liveOf streams odd).ncard := by
  split
  · rename_i h
    have hset : liveOf (Function.update streams id none) odd = liveOf streams odd \ {id} := by
      ext x
      by_cases hx : x = id
      · simp [liveOf, hx]
      · simp [liveOf, hx]
    rw [hset]
    exact Set.ncard_sdiff_singleton_add_one ⟨h, hlive⟩ (finite_liveOf odd)
  · rw [liveOf_update_of_ne ‹_›, Nat.add_zero]

theorem used_mono (hmax : t.maxClient ≤ t'.maxClient) (hnext : t.nextPush ≤ t'.nextPush)
    (h : t.idleLocked id = false) : t'.idleLocked id = false := by
  unfold idleLocked at h ⊢
  split at h
  · rw [if_pos ‹_›, decide_eq_false_iff_not, UInt32.not_lt] at *
    exact UInt32.le_trans h hmax
  · rw [if_neg ‹_›, decide_eq_false_iff_not, UInt32.not_le] at *
    exact UInt32.lt_of_lt_of_le h hnext

theorem even_of_not_odd (h : id % 2 ≠ 1) : id.toNat % 2 = 0 := by
  have hne : id.toNat % 2 ≠ 1 := fun heq => h (UInt32.toNat.inj ((UInt32.toNat_mod ..).trans heq))
  omega

theorem pushID_even (k : Nat) : pushID k % 2 ≠ 1 := by
  intro h
  have hmod := congrArg UInt32.toNat h
  rw [UInt32.toNat_mod, pushID, UInt32.toNat_ofNat'] at hmod
  change (2 + 2 * k) % 2 ^ 32 % 2 = 1 at hmod
  omega

end Live

structure Inv (l : Logged) : Prop where
  counts : ∀ odd, l.table.population odd = (liveOf l.table.streams odd).ncard
  used : ∀ id, l.table.streams id ≠ none → l.table.idleLocked id = false
  presented : ∀ id ∈ l.presented, id ≤ l.table.maxClient
  last : l.table.maxClient = 0 ∧ l.presented = [] ∨ l.table.maxClient ∈ l.presented
  nextPush : l.table.nextPush = pushID l.reserved.length
  reserved : l.reserved = (List.range l.reserved.length).map pushID
  capped : ∀ limit > 0, (∀ n ∈ l.limits, n = limit) → l.table.nClient ≤ limit

variable {l l' : Logged}

theorem Inv.present (h : Inv l) {id : UInt32} (limit : Int) (initial : UInt32)
    (hid : l.table.validateClientID id = .ok ()) :
    Inv { l with
      table := (l.table.admitClient id limit initial).2
      presented := id :: l.presented
      limits := limit :: l.limits } := by
  obtain ⟨heven, hlt⟩ : id % 2 ≠ 0 ∧ l.table.maxClient < id := by
    unfold validateClientID at hid
    split_ifs at hid with h₀ h₁
    exact ⟨h₀, UInt32.not_le.1 h₁⟩
  have hodd : id % 2 = 1 := by
    by_contra hne
    exact heven (UInt32.toNat.inj ((UInt32.toNat_mod ..).trans (even_of_not_odd hne)))
  have hnew : l.table.streams id = none := by
    by_contra hlive
    simpa [idleLocked, hodd, hlt] using h.used id hlive
  have hle := UInt32.le_of_lt hlt
  have hpresented : ∀ x ∈ id :: l.presented, x ≤ id :=
    List.forall_mem_cons.2 ⟨UInt32.le_refl id, fun x hx => UInt32.le_trans (h.presented x hx) hle⟩
  unfold admitClient
  simp only [if_pos hlt]
  split
  · exact
      { counts := h.counts
        used := fun x hx => used_mono hle (UInt32.le_refl _) (h.used x hx)
        presented := hpresented
        last := .inr (List.mem_cons_self ..)
        nextPush := h.nextPush
        reserved := h.reserved
        capped := fun limit' hpos hall => h.capped limit' hpos fun n hn => hall n (.tail _ hn) }
  · rename_i hroom
    refine ⟨fun odd => ?_, fun x hx => ?_, hpresented, .inr (List.mem_cons_self ..), h.nextPush,
      h.reserved, fun limit' hpos hall => ?_⟩
    · have hcount := h.counts odd
      rw [ncard_liveOf_some hnew]
      cases odd <;> simp_all [population]
    · by_cases hx' : x = id
      · simp [idleLocked, hx', hodd]
      · refine used_mono hle (UInt32.le_refl _) (h.used x ?_)
        simpa [hx'] using hx
    · have hlimit := hall limit (List.mem_cons_self ..)
      dsimp only
      omega

theorem Inv.reserve (h : Inv l) (hpush : l.reserved.length < 2 ^ 30) (limit initial : UInt32) :
    Inv { l with
      table := (l.table.reservePush limit initial).2
      reserved := l.reserved ++ (l.table.reservePush limit initial).1.toList } := by
  unfold reservePush
  split
  · simpa using h
  · have heven : l.table.nextPush % 2 ≠ 1 := h.nextPush ▸ pushID_even _
    have hnew : l.table.streams l.table.nextPush = none := by
      by_contra hlive
      simpa [idleLocked, heven] using h.used _ hlive
    have hnext : l.table.nextPush < l.table.nextPush + 2 := by
      rw [h.nextPush, ← pushID_succ]
      exact pushID_lt (Nat.lt_succ_self _) (by omega)
    refine ⟨fun odd => ?_, fun x hx => ?_, h.presented, h.last, ?_, ?_, h.capped⟩
    · have hcount := h.counts odd
      rw [ncard_liveOf_some hnew]
      cases odd <;> simp_all [population]
    · by_cases hx' : x = l.table.nextPush
      · simpa [idleLocked, hx', heven] using hnext
      · refine used_mono (t := l.table) (UInt32.le_refl _) (UInt32.le_of_lt hnext) (h.used x ?_)
        simpa [hx'] using hx
    · simp [h.nextPush, pushID_succ]
    · rw [Option.toList_some, List.length_append, List.length_singleton, List.range_succ,
        List.map_append, ← h.reserved, h.nextPush]
      rfl

theorem Inv.release (h : Inv l) (id : UInt32) : Inv { l with table := (l.table.release id).2 } := by
  unfold StreamTable.release
  split
  · exact h
  · rename_i s hs
    have hlive : l.table.streams id ≠ none := by simp [hs]
    refine ⟨fun odd => ?_, fun x hx => h.used x ?_, h.presented, h.last, h.nextPush, h.reserved,
      fun limit hpos hall => ?_⟩
    · have hcount := h.counts odd
      have hcard := ncard_liveOf_none hlive odd
      by_cases hodd : id % 2 = 1 <;> cases odd <;> simp_all [population] <;> omega
    · by_cases hx' : x = id
      · simp [hx'] at hx
      · simpa [hx'] using hx
    · have hcapped := h.capped limit hpos hall
      dsimp only
      split <;> omega

theorem Inv.drain (h : Inv l) : Inv { l with table := l.table.drain } where
  counts odd := by cases odd <;> simp [StreamTable.drain, population, liveOf]
  used id hid := absurd rfl hid
  presented := h.presented
  last := h.last
  nextPush := h.nextPush
  reserved := h.reserved
  capped _ hpos _ := Int.le_of_lt hpos

theorem Inv.adjust (h : Inv l) (oldWin newWin : UInt32) (adjust : TableStream → Int → TableStream) :
    Inv { l with table := l.table.applyInitialWindow oldWin newWin adjust } := by
  unfold applyInitialWindow
  split
  · exact h
  · refine ⟨fun odd => ?_, fun id hid => h.used id ?_, h.presented, h.last, h.nextPush, h.reserved,
      h.capped⟩
    · simpa [liveOf, population] using h.counts odd
    · simpa using hid

theorem Step.length_reserved (h : Step l l') : l.reserved.length ≤ l'.reserved.length := by
  cases h with
  | reserve => simp
  | _ => exact Nat.le_refl _

theorem Run.length_reserved (h : Run l l') : l.reserved.length ≤ l'.reserved.length := by
  induction h with
  | refl => exact Nat.le_refl _
  | tail _ h ih => exact ih.trans h.length_reserved

theorem Inv.run (h : Inv l) (hrun : Run l l') (hpush : l'.reserved.length < 2 ^ 30) : Inv l' := by
  induction hrun with
  | refl => exact h
  | tail _ hstep ih =>
    have hlen := hstep.length_reserved
    have hinv := ih (hlen.trans_lt hpush)
    cases hstep with
    | present _ _ _ hid => exact hinv.present _ _ hid
    | reserve => exact hinv.reserve (by omega) ..
    | release id => exact hinv.release id
    | drain => exact hinv.drain
    | adjust => exact hinv.adjust ..

theorem inv_new : Inv {} where
  counts odd := by cases odd <;> simp [population, liveOf]
  used _ hid := absurd rfl hid
  presented := by simp
  last := .inl ⟨rfl, rfl⟩
  nextPush := rfl
  reserved := rfl
  capped _ hpos _ := Int.le_of_lt hpos

theorem Run.maxClient_le (h : Run l l') : l.table.maxClient ≤ l'.table.maxClient := by
  induction h with
  | refl => exact UInt32.le_refl _
  | tail _ h ih =>
    refine UInt32.le_trans ih ?_
    cases h with
    | present =>
      unfold admitClient
      dsimp only
      split <;> split <;> first | exact UInt32.le_refl _ | exact UInt32.le_of_lt ‹_›
    | reserve => unfold reservePush; split <;> exact UInt32.le_refl _
    | release => unfold StreamTable.release; split <;> exact UInt32.le_refl _
    | drain => exact UInt32.le_refl _
    | adjust => unfold applyInitialWindow; split <;> exact UInt32.le_refl _

theorem Inv.idle_odd (h : Inv l) {id : UInt32} (hid : id % 2 = 1) :
    l.table.idleLocked id = true ↔ ∀ p ∈ l.presented, p < id := by
  have hpos : 0 < id := UInt32.pos_iff_ne_zero.2 (by rintro rfl; cases hid)
  simp only [idleLocked, hid, if_true, decide_eq_true_eq]
  constructor
  · exact fun hlt p hp => UInt32.lt_of_le_of_lt (h.presented p hp) hlt
  · intro hall
    obtain ⟨hmax, -⟩ | hmax := h.last
    · rwa [hmax]
    · exact hall _ hmax

theorem Inv.idle_even (h : Inv l) (hpush : l.reserved.length < 2 ^ 30) {id : UInt32}
    (hid : id % 2 ≠ 1) : l.table.idleLocked id = true ↔ id ≠ 0 ∧ id ∉ l.reserved := by
  have hmod := even_of_not_odd hid
  rw [idleLocked, if_neg hid, decide_eq_true_iff, UInt32.le_iff_toNat_le, h.nextPush,
    toNat_pushID (by omega)]
  constructor
  · refine fun hle => ⟨?_, fun hmem => ?_⟩
    · rintro rfl
      change 2 + 2 * l.reserved.length ≤ 0 at hle
      omega
    · rw [h.reserved] at hmem
      obtain ⟨k, hk, rfl⟩ := List.mem_map.1 hmem
      rw [List.mem_range] at hk
      rw [toNat_pushID (by omega)] at hle
      omega
  · rintro ⟨hzero, hnot⟩
    by_contra hlt
    have hpos : id.toNat ≠ 0 := fun h => hzero (UInt32.toNat.inj h)
    have heq : pushID ((id.toNat - 2) / 2) = id := by
      apply UInt32.toNat.inj
      rw [toNat_pushID (by omega)]
      omega
    refine hnot ?_
    rw [h.reserved]
    exact List.mem_map.2 ⟨_, List.mem_range.2 (by omega), heq⟩

end StreamTable

open StreamTable

/-- The counters count the live streams of either parity, which all have been used; an odd
identifier is idle exactly if it is above all that were presented, and an even one exactly if it is
not zero and was not reserved. -/
theorem stream_table_invariant (l l' : Logged) (h : Run {} l) (h' : Run l l')
    (hpush : l'.reserved.length < 2 ^ 30) :
    l'.table.nClient = (liveOf l'.table.streams true).ncard ∧
    l'.table.nPush = (liveOf l'.table.streams false).ncard ∧
    (∀ id, l'.table.streams id ≠ none → l'.table.idleLocked id = false) ∧
    (∀ id, id % 2 = 1 → (l'.table.idleLocked id = true ↔ ∀ p ∈ l'.presented, p < id)) ∧
    (∀ id, id % 2 ≠ 1 → (l'.table.idleLocked id = true ↔ id ≠ 0 ∧ id ∉ l'.reserved)) ∧
    l.table.maxClient ≤ l'.table.maxClient ∧ l.table.nextPush ≤ l'.table.nextPush ∧
    (∀ limit > 0, (∀ n ∈ l'.limits, n = limit) → l'.table.nClient ≤ limit) ∧
    (l'.table.lastPeerID = 0 ∧ l'.presented = [] ∨
      l'.table.lastPeerID ∈ l'.presented ∧ ∀ p ∈ l'.presented, p ≤ l'.table.lastPeerID) := by
  have hle := Run.length_reserved h'
  have hinv : Inv l := inv_new.run h (by omega)
  have hinv' : Inv l' := hinv.run h' hpush
  refine ⟨hinv'.counts true, hinv'.counts false, hinv'.used, fun _ => hinv'.idle_odd,
    fun _ => hinv'.idle_even hpush, Run.maxClient_le h', ?_, hinv'.capped, ?_⟩
  · rw [UInt32.le_iff_toNat_le, hinv.nextPush, hinv'.nextPush, toNat_pushID (by omega),
      toNat_pushID (by omega)]
    omega
  · exact hinv'.last.imp_right fun h => ⟨h, hinv'.presented⟩

/-- Stream 5 is the first that the client opens, so 1 and 3 are not idle any more. -/
theorem stream_table_invariant_fifth : ∃ l, Run {} l ∧ l.presented = [5] ∧
    l.reserved.length < 2 ^ 30 ∧ l.table.idleLocked 3 = false ∧
    l.table.nClient = (liveOf l.table.streams true).ncard := by
  have hrun : Run {} _ := .single (.present 5 100 65535 rfl)
  exact ⟨_, hrun, rfl, by decide, rfl, (stream_table_invariant {} _ .refl hrun (by decide)).1⟩

end PoseidonServer.Conn
