import PoseidonServer.Conn.Table
import PoseidonServer.Conn.TableRuns

/-! The table of a connection's state, whose counters have no width, is in step with the table that
has the widths of the source. -/

namespace PoseidonServer.Conn

open Concurrent StreamTable

structure Tracks (w : World) (t : StreamTable) : Prop where
  maxClient : w.maxClient = t.maxClient.toNat
  nextPush : w.nextPush = t.nextPush.toNat
  nClient : w.nClient = t.nClient
  nPush : w.nPush = t.nPush
  live : ∀ id : UInt32, id.toNat ∈ w.live ↔ (t.streams id).isSome

namespace Tracks

variable {t : StreamTable} {w w' : World} {id : UInt32}

theorem odd_iff (id : UInt32) : id.toNat % 2 = 1 ↔ id % 2 = 1 := by
  rw [← UInt32.toNat_inj, UInt32.toNat_mod]
  rfl

theorem idle (h : Tracks w t) : w.idle id.toNat = t.idleLocked id := by
  simp only [World.idle, idleLocked, odd_iff, h.maxClient, h.nextPush, gt_iff_lt, ge_iff_le,
    UInt32.lt_iff_toNat_lt, UInt32.le_iff_toNat_le]

theorem congr (h : Tracks w t) (hw : w'.tableView = w.tableView) : Tracks w' t := by
  simp only [World.tableView, Prod.mk.injEq] at hw
  obtain ⟨hlive, hmax, hnext, hclient, hpush, -⟩ := hw
  constructor <;> simp only [hlive, hmax, hnext, hclient, hpush]
  exacts [h.maxClient, h.nextPush, h.nClient, h.nPush, h.live]

theorem live_cons {streams : UInt32 → Option TableStream} {live : List Nat} {s : TableStream}
    (h : ∀ id : UInt32, id.toNat ∈ live ↔ (streams id).isSome) (new id : UInt32) :
    id.toNat ∈ new.toNat :: live ↔ (Function.update streams new (some s) id).isSome := by
  rw [List.mem_cons, h, UInt32.toNat_inj]
  by_cases hid : id = new <;> simp [hid]

theorem present (h : Tracks w t) (id : UInt32) (env : Env) (prio : Option Priority)
    (initial : UInt32) :
    Tracks (w.admitClient env id.toNat prio).2
      (t.admitClient id env.cfg.advertisedSettings.maxConcurrentStreams initial).2 := by
  have hmax : max w.maxClient id.toNat =
      (if t.maxClient < id then id else t.maxClient).toNat := by
    rw [h.maxClient]
    split <;> rename_i hlt <;> rw [UInt32.lt_iff_toNat_lt] at hlt <;> omega
  rw [World.admitClient, StreamTable.admitClient]
  dsimp only
  split
  · rename_i hfull
    rw [if_pos (by simpa [h.nClient] using hfull)]
    exact ⟨hmax, h.nextPush, h.nClient, h.nPush, h.live⟩
  · rename_i hroom
    rw [if_neg (by simpa [h.nClient] using hroom)]
    exact ⟨hmax, h.nextPush, congrArg (· + 1) h.nClient, h.nPush, live_cons h.live id⟩

/-- A refusal changes nothing, so what is followed is a reservation without a limit. -/
theorem reserve (h : Tracks w t) (limit : Nat) (hroom : (w.reservePush limit).2.nextPush < 2 ^ 31) :
    Tracks (w.reservePush limit).2 t ∨
      Tracks (w.reservePush limit).2 (t.reservePush 0xffffffff 0).2 := by
  unfold World.reservePush at hroom ⊢
  split
  · exact .inl h
  · rw [if_neg ‹_›] at hroom
    refine .inr ⟨h.maxClient, ?_, h.nClient, congrArg (· + 1) h.nPush, fun id => ?_⟩
    · change w.nextPush + 2 = (t.nextPush + 2).toNat
      change w.nextPush + 2 < 2 ^ 31 at hroom
      rw [UInt32.toNat_add, ← h.nextPush]
      exact (Nat.mod_eq_of_lt (by omega)).symm
    · change id.toNat ∈ w.nextPush :: w.live ↔ _
      rw [h.nextPush]
      exact live_cons h.live _ _

theorem release (h : Tracks w t) (hnodup : w.live.Nodup) (id : UInt32) :
    Tracks (w.release id.toNat).2 (t.release id).2 := by
  rw [World.release, StreamTable.release]
  cases hs : t.streams id with
  | none =>
    rw [if_neg (by simp [h.live, hs])]
    exact h
  | some s =>
    rw [if_pos (by simp [h.live, hs])]
    refine ⟨h.maxClient, h.nextPush, ?_, ?_, fun id' => ?_⟩
    · simp only [odd_iff, h.nClient]
    · simp only [odd_iff, h.nPush]
    · dsimp only
      rw [hnodup.mem_erase_iff, h.live, ne_eq, UInt32.toNat_inj]
      by_cases hid : id' = id <;> simp [hid]

theorem drain (h : Tracks w t) : Tracks w.drain t.drain :=
  ⟨h.maxClient, h.nextPush, rfl, rfl, fun _ => by simp [World.drain, StreamTable.drain]⟩

end Tracks

/-- The calls of the table. -/
inductive TableCall (env : Env) (w : World) : {β : Type} → Op β → World → Prop
  | other {β : Type} {o : Op β} {w' : World} (h : w'.tableView = w.tableView) : TableCall env w o w'
  | present (x prio) : TableCall env w (.admitClient x prio) (w.admitClient env x prio).2
  | reserve (limit) : TableCall env w (.reservePush limit) (w.reservePush limit).2
  | release (x) : TableCall env w (.release x) (w.release x).2
  | drain : TableCall env w .drain w.drain

section Call

variable {env : Env} {G : Guard Op World Call} {i : Nat} {w w' : World} {o : Op β} {b : β}

theorem mem_underTable {r : β × World} (h : (b, w') ∈ Op.underTable w r) : w' = r.2 := by
  unfold Op.underTable at h
  split at h
  · rw [← List.mem_singleton.1 h]
  · cases h

theorem tableCall_of_exec (hb : (b, w') ∈ o.exec env i w) : TableCall env w o w' := by
  by_cases hk : o.kind ∈ [.register, .reserve, .release, .drain]
  case neg => exact .other ((frame_of_exec hb).table hk)
  cases o
  case admitClient x prio => exact mem_underTable hb ▸ .present x prio
  case reservePush limit => exact mem_underTable hb ▸ .reserve limit
  case release x => exact mem_underTable hb ▸ .release x
  case drain =>
    simp only [Op.exec] at hb
    split at hb
    · obtain ⟨l, -, heq⟩ := List.mem_map.1 hb
      cases heq
      exact .drain
    · cases hb
  case advance delta => exact absurd hk (delta.kind_notMem (by simp))
  case write f => exact absurd hk (f.kind_notMem (by simp))
  all_goals exact absurd hk (by simp)

theorem TableCall.marks_le (h : TableCall env w o w') :
    w.maxClient ≤ w'.maxClient ∧ w.nextPush ≤ w'.nextPush := by
  cases h with
  | other h =>
    simp only [World.tableView, Prod.mk.injEq] at h
    exact ⟨h.2.1.ge, h.2.2.1.ge⟩
  | present => unfold World.admitClient; dsimp only; split <;> exact ⟨le_max_left .., le_refl _⟩
  | reserve => unfold World.reservePush; split <;> exact ⟨le_refl _, by simp⟩
  | release => unfold World.release; split <;> exact ⟨le_refl _, le_refl _⟩
  | drain => exact ⟨le_refl _, le_refl _⟩

theorem TableCall.tracked (h : TableCall env w o w') (hok : (tabled env G).opOk i w o)
    (hmax : w'.maxClient < 2 ^ 31) (hnext : w'.nextPush < 2 ^ 31) {l : Logged} (hl : Run {} l)
    (ht : Tracks w l.table) : ∃ l', Run {} l' ∧ Tracks w' l'.table := by
  have htable := tabled_table hok
  have hmarks := h.marks_le
  have hid {x : Nat} (hx : x < 2 ^ 31) : (UInt32.ofNat x).toNat = x :=
    UInt32.toNat_ofNat_of_lt' (by simpa using hx.trans (by decide))
  cases h with
  | other h => exact ⟨l, hl, ht.congr h⟩
  | present x prio =>
    obtain ⟨held, -, -, hodd⟩ := tabled_held hok
    have hidle : w.idle x = true := tabled_asks hok
    have hx : x < 2 ^ 31 := by
      unfold World.admitClient at hmax
      dsimp only at hmax
      split at hmax <;> exact (le_max_right ..).trans_lt hmax
    rw [← hid hx] at hodd hidle
    have hvalid : l.table.validateClientID (.ofNat x) = .ok () := by
      rw [ht.idle, idleLocked, if_pos (Tracks.odd_iff _ |>.1 hodd), decide_eq_true_iff] at hidle
      rw [validateClientID, if_neg, if_neg (UInt32.not_le.2 hidle)]
      rw [Tracks.odd_iff] at hodd
      rw [hodd]
      decide
    refine ⟨_, hl.tail (.present _ env.cfg.advertisedSettings.maxConcurrentStreams
      (.ofNat w.initialWindow) hvalid), ?_⟩
    have := ht.present (.ofNat x) env prio (.ofNat w.initialWindow)
    rwa [hid hx] at this
  | reserve limit =>
    obtain ht | ht := ht.reserve limit hnext
    · exact ⟨l, hl, ht⟩
    · exact ⟨_, hl.tail (.reserve 0xffffffff 0), ht⟩
  | release x =>
    by_cases hx : x ∈ w.live
    · have hused := htable.used x (htable.live x hx)
      have hlt : x < 2 ^ 31 := by
        unfold World.idle at hused
        split at hused <;> simp only [decide_eq_false_iff_not] at hused <;> omega
      have := ht.release htable.nodup (.ofNat x)
      rw [hid hlt] at this
      exact ⟨_, hl.tail (.release (.ofNat x)), this⟩
    · rw [World.release, if_neg hx]
      exact ⟨l, hl, ht⟩
  | drain => exact ⟨_, hl.tail .drain, ht.drain⟩

end Call

/-- In any interleaving, as long as the identifiers have 31 bits, the table of the connection is one
that calls of the source's table lead to. -/
theorem table_refined (env : Env) (hup : env.cfg.upgradedRequest = none) (c : Config Op World)
    (hc : Reach env anyCall c) (hmax : c.shared.maxClient < 2 ^ 31)
    (hnext : c.shared.nextPush < 2 ^ 31) :
    ∃ l, Run {} l ∧ Tracks c.shared l.table ∧
      ∀ id : UInt32, c.shared.idle id.toNat = l.table.idleLocked id := by
  replace hc := reach_tabled ⟨fun _ _ h => h, .inl hup⟩ hc
  suffices h : ∃ l, Run {} l ∧ Tracks c.shared l.table by
    obtain ⟨l, hl, ht⟩ := h
    exact ⟨l, hl, ht, fun _ => ht.idle⟩
  induction hc with
  | init => exact ⟨{}, .refl, rfl, rfl, rfl, rfl, fun _ => by simp [World.init]⟩
  | next _ he hn ih =>
    obtain heq | ⟨i, β, o, b, hok, hb⟩ := he.exec hn
    · rw [heq] at hmax hnext ⊢
      exact ih hmax hnext
    · have hcall := tableCall_of_exec hb
      obtain ⟨hmax', hnext'⟩ := hcall.marks_le
      obtain ⟨l, hl, ht⟩ := ih (hmax'.trans_lt hmax) (hnext'.trans_lt hnext)
      exact hcall.tracked hok hmax hnext hl ht

theorem table_refined_of_request : ∃ c, Reach getRequests anyCall c ∧ c.shared.live = [1] ∧
    ∃ l, Run {} l ∧ Tracks c.shared l.table := by
  obtain ⟨c, hc, h⟩ := exists_reach_of_run getRequests (Config.inTurn 0 acceptedRequest)
    (p := fun c => c.shared.live = [1] ∧ c.shared.maxClient < 2 ^ 31 ∧ c.shared.nextPush < 2 ^ 31)
    (by decide +kernel)
  obtain ⟨hlive, hmax, hnext⟩ := of_decide_eq_true h
  obtain ⟨l, hl, ht, -⟩ := table_refined getRequests rfl c hc hmax hnext
  exact ⟨c, hc, hlive, l, hl, ht⟩

end PoseidonServer.Conn
