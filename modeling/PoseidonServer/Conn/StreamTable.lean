import PoseidonServer.Conn.World

/-! The stream table with the widths of its counters: the identifiers of pushed streams over any
number of reservations. -/

namespace PoseidonServer.Conn

structure TableStream where
  id : UInt32
  sendWindow : Int

structure StreamTable where
  streams : UInt32 → Option TableStream := fun _ => none
  maxClient : UInt32 := 0
  nextPush : UInt32 := 2
  nClient : Int := 0
  nPush : Int := 0

namespace StreamTable

def idleLocked (t : StreamTable) (id : UInt32) : Bool :=
  if id % 2 = 1 then t.maxClient < id else t.nextPush ≤ id

/-- `initial` is what `peerWindow` reports. -/
def admitClient (t : StreamTable) (id : UInt32) (limit : Int) (initial : UInt32) :
    Bool × StreamTable :=
  let t := { t with maxClient := if t.maxClient < id then id else t.maxClient }
  if 0 < limit ∧ limit ≤ t.nClient then (false, t)
  else (true, { t with
    streams := Function.update t.streams id (some ⟨id, int32 initial.toNat⟩)
    nClient := t.nClient + 1 })

def reservePush (t : StreamTable) (limit initial : UInt32) : Option UInt32 × StreamTable :=
  if limit.toNat ≠ noStreamLimit ∧ limit ≤ UInt32.ofNat t.nPush.toNat then (none, t)
  else (some t.nextPush, { t with
    streams := Function.update t.streams t.nextPush (some ⟨t.nextPush, int32 initial.toNat⟩)
    nextPush := t.nextPush + 2
    nPush := t.nPush + 1 })

def release (t : StreamTable) (id : UInt32) : Option TableStream × StreamTable :=
  match t.streams id with
  | none => (none, t)
  | some s => (some s, { t with
      streams := Function.update t.streams id none
      nClient := if id % 2 = 1 then t.nClient - 1 else t.nClient
      nPush := if id % 2 = 1 then t.nPush else t.nPush - 1 })

def drain (t : StreamTable) : StreamTable :=
  { t with streams := fun _ => none, nClient := 0, nPush := 0 }

/-- The tables that calls lead to, with the identifiers that `reservePush` has returned. -/
inductive Reach : StreamTable → List UInt32 → Prop
  | new : Reach {} []
  | admitted {t ids} (id limit initial) : Reach t ids → Reach (t.admitClient id limit initial).2 ids
  | reserved {t ids} (limit initial) : Reach t ids →
      Reach (t.reservePush limit initial).2 (ids ++ (t.reservePush limit initial).1.toList)
  | released {t ids} (id) : Reach t ids → Reach (t.release id).2 ids
  | drained {t ids} : Reach t ids → Reach t.drain ids

variable {t : StreamTable} {ids : List UInt32} {limit initial : UInt32}

def pushID (k : Nat) : UInt32 := UInt32.ofNat (2 + 2 * k)

theorem pushID_succ (k : Nat) : pushID (k + 1) = pushID k + 2 := by
  apply UInt32.toNat.inj
  have htwo : (2 : UInt32).toNat = 2 := rfl
  simp only [pushID, UInt32.toNat_add, UInt32.toNat_ofNat', htwo]
  omega

@[simp] theorem admitClient_nextPush (id : UInt32) (limit : Int) (initial : UInt32) :
    (t.admitClient id limit initial).2.nextPush = t.nextPush := by
  unfold admitClient
  dsimp only
  split <;> rfl

@[simp] theorem release_nextPush (id : UInt32) : (t.release id).2.nextPush = t.nextPush := by
  unfold release
  split <;> rfl

theorem reservePush_cases (t : StreamTable) (limit initial : UInt32) :
    t.reservePush limit initial = (none, t) ∨
      (t.reservePush limit initial).1 = some t.nextPush ∧
        (t.reservePush limit initial).2.nextPush = t.nextPush + 2 := by
  unfold reservePush
  split
  · exact .inl rfl
  · exact .inr ⟨rfl, rfl⟩

theorem ids_of_reach (h : Reach t ids) :
    t.nextPush = pushID ids.length ∧ ids = (List.range ids.length).map pushID := by
  induction h with
  | new => exact ⟨rfl, rfl⟩
  | admitted id limit initial _ ih => simpa using ih
  | released id _ ih => simpa using ih
  | drained _ ih => exact ih
  | @reserved t ids limit initial _ ih =>
    rcases reservePush_cases t limit initial with hr | ⟨hid, hnext⟩
    · simpa [hr] using ih
    · obtain ⟨hnow, hids⟩ := ih
      rw [hid, hnext, hnow, Option.toList_some, List.length_append, List.length_singleton,
        pushID_succ, List.range_succ, List.map_append, ← hids]
      exact ⟨rfl, rfl⟩

def Legal (id : UInt32) : Prop := id % 2 = 0 ∧ 0 < id ∧ id.toNat ≤ 2 ^ 31 - 2

/-- What a reservation may answer after the identifiers `ids`: a legal one above all of them, or
a refusal, which is due when there is none. -/
structure Lawful (ids : List UInt32) (o : Option UInt32) : Prop where
  legal : ∀ id ∈ o, Legal id ∧ ∀ i ∈ ids, i < id
  exhausted : (∀ id, Legal id → ∃ i ∈ ids, id ≤ i) → o = none

theorem toNat_pushID {k : Nat} (hk : k < 2 ^ 31 - 1) : (pushID k).toNat = 2 + 2 * k := by
  rw [pushID, UInt32.toNat_ofNat', Nat.mod_eq_of_lt (by omega)]

theorem legal_pushID {k : Nat} (hk : k < 2 ^ 30 - 1) : Legal (pushID k) := by
  have hn := toNat_pushID (k := k) (by omega)
  refine ⟨?_, ?_, by omega⟩
  · apply UInt32.toNat.inj
    rw [UInt32.toNat_mod, hn]
    change (2 + 2 * k) % 2 = 0
    omega
  · rw [UInt32.lt_iff_toNat_lt, hn]
    change 0 < 2 + 2 * k
    omega

theorem pushID_lt {j k : Nat} (hj : j < k) (hk : k < 2 ^ 31 - 1) : pushID j < pushID k := by
  rw [UInt32.lt_iff_toNat_lt, toNat_pushID (by omega), toNat_pushID hk]
  omega

theorem not_legal_of_exhausted {n : Nat} {id : UInt32} (hn : 2 ^ 30 - 1 ≤ n) (hid : Legal id) :
    ∃ i ∈ (List.range n).map pushID, id ≤ i := by
  refine ⟨pushID (2 ^ 30 - 2), List.mem_map.2 ⟨2 ^ 30 - 2, List.mem_range.2 (by omega), rfl⟩, ?_⟩
  rw [UInt32.le_iff_toNat_le, toNat_pushID (by omega)]
  have := hid.2.2
  omega

theorem exists_reach (n : Nat) : ∃ t ids, Reach t ids ∧ ids.length = n := by
  induction n with
  | zero => exact ⟨_, _, .new, rfl⟩
  | succ n ih =>
    obtain ⟨t, ids, h, hlen⟩ := ih
    have hid : (t.reservePush (UInt32.ofNat noStreamLimit) 65535).1 = some t.nextPush := by
      rw [reservePush, if_neg]
      exact fun h => h.1 rfl
    exact ⟨_, _, .reserved (UInt32.ofNat noStreamLimit) 65535 h, by simp [hid, hlen]⟩

end StreamTable

end PoseidonServer.Conn
