import PoseidonServer.Conn.SendCredit.Spec

/-! A SETTINGS frame changes the initial window of every live stream, or overflows one of them. -/

namespace PoseidonServer.Conn

open Concurrent

namespace SendCredit

variable {env : Env} {G : Guard Op World Call} {i j x : Nat} {w w' : World} {r r' : Share}
  {s s' : Stream}

structure Published (i : Nat) (old new : Int) (w : World) : Prop where
  reader : w.reader = some i
  table : w.tmu = some i
  initial : (w.initialWindow : Int) = new
  noStale : w.NoStale
  base : ∀ x ∈ w.live, ∀ s, w.str x = some s → s.base = old

theorem Published.rely {old new : Int} (h : Published i old new w) (hw : Rely i w w') :
    Published i old new w' := by
  obtain ⟨ht, hl, hp, hs⟩ := hw.table h.table
  refine ⟨(hw.reader h.reader).1, ht, ?_, (hw.reader h.reader).2 h.noStale, fun x hx s' hs' => ?_⟩
  · rw [World.initialWindow, hp]
    exact h.initial
  · obtain ⟨s, hx', hv⟩ := exists_of_map_eq (hs x) hs'
    simp only [Stream.levelView, Prod.mk.injEq] at hv
    rw [hv.1, h.base x (hl ▸ hx) s hx']

structure Adjusting (i : Nat) (old new : Int) (xs : List Nat) (w : World) : Prop where
  reader : w.reader = some i
  table : w.tmu = some i
  initial : (w.initialWindow : Int) = new
  nodup : xs.Nodup
  todo : ∀ x ∈ xs, x ∈ w.live ∧ ∀ s, w.str x = some s → s.stale = false ∧ s.base = old
  done : ∀ x ∈ w.live, x ∉ xs → ∀ s, w.str x = some s → Level new s

theorem Adjusting.rely {old new : Int} {xs : List Nat} (h : Adjusting i old new xs w)
    (hw : Rely i w w') : Adjusting i old new xs w' := by
  obtain ⟨ht, hl, hp, hs⟩ := hw.table h.table
  refine ⟨(hw.reader h.reader).1, ht, ?_, h.nodup, fun x hx => ?_, fun x hx hxs s' hs' => ?_⟩
  · rw [World.initialWindow, hp]
    exact h.initial
  · refine ⟨hl ▸ (h.todo x hx).1, fun s' hs' => ?_⟩
    obtain ⟨s, hx', hv⟩ := exists_of_map_eq (hs x) hs'
    have := (h.todo x hx).2 s hx'
    simp only [Stream.levelView, Prod.mk.injEq] at hv
    rwa [hv.1, hv.2]
  · obtain ⟨s, hx', hv⟩ := exists_of_map_eq (hs x) hs'
    exact (h.done x (hl ▸ hx) hxs s hx').congr hv

theorem rely_of_owner (hr : w.reader = some i) (ht : w.tmu = some i ∨ w.tmu = none) (hj : j ≠ i) :
    Rely j w w' := by
  refine ⟨fun h => ?_, fun h => ?_⟩
  · rw [hr] at h
    exact absurd (Option.some.inj h).symm hj
  · obtain ht | ht := ht <;> rw [ht] at h
    · exact absurd (Option.some.inj h).symm hj
    · cases h

theorem lockTable_safe {k : Unit → M α} {Q : α → Share → World → Prop} (h : Kept i w)
    (hk : ∀ w, Published i w.initialWindow w.initialWindow w → (spec env G).Safe i (k ()) 0 Q w) :
    (spec env G).Safe i (.op .lockTable k) 0 Q w := by
  intro w₁ hw ⟨r, hinv⟩ _
  have h₁ := h.rely hw
  refine ⟨trivial, fun _ w₂ hb => ?_⟩
  obtain ⟨hfree, rfl⟩ := mem_whenFree hb
  refine ⟨0, fun r hr => ?_, fun j hj => rely_of_owner h₁.1 (.inr hfree) hj, hk _ ?_⟩
  · exact { hr with conn := hr.conn.congr rfl, level := fun ht => by cases ht }
  · refine ⟨h₁.1, rfl, rfl, h₁.2, fun x hx s hs => ?_⟩
    have := hinv.level hfree x hx s hs
    rwa [Level, h₁.2 x s hs] at this

theorem publishSettings_safe {old : Int} {p : SettingsParams} {k : Nat × Nat → M α}
    {Q : α → Share → World → Prop} (h : Published i old old w)
    (hk : ∀ (old' new : Nat) w, (old' : Int) = old → Published i old new w →
      (spec env G).Safe i (k (old', new)) 0 Q w) :
    (spec env G).Safe i (.op (.publishSettings p) k) 0 Q w := by
  intro w₁ hw _ hok
  have h₁ := h.rely hw
  obtain ⟨held, -, -, -, hvalid⟩ := tabled_held hok
  refine ⟨trivial, fun _ w₂ hb => ?_⟩
  cases List.mem_singleton.1 hb
  refine ⟨0, fun r hr => ?_, fun j hj => rely_of_owner h₁.reader (.inl h₁.table) hj, ?_⟩
  · refine { hr with conn := hr.conn.congr rfl, initial := ?_, level := fun ht => ?_ }
    · exact settingValue_setPeerSettings (P := fun v => (v : Int) ≤ maxWindow) hr.initial
        fun q hq hid => (validatePeerSettings_ok hvalid q hq).2 hid
    · exact absurd (h₁.table.symm.trans ht) (by simp)
  · exact hk _ _ _ h₁.initial ⟨h₁.reader, h₁.table, rfl, h₁.noStale, h₁.base⟩

theorem unlockTable_safe {old new : Int} {C : Prop} {k : Unit → M α} {Q : α → Share → World → Prop}
    (h : Adjusting i old new [] w) (hC : C → w.NoStale)
    (hk : ∀ w, w.reader = some i → (C → w.NoStale) → (spec env G).Safe i (k ()) 0 Q w) :
    (spec env G).Safe i (.op .unlockTable k) 0 Q w := by
  intro w₁ hw _ _
  have h₁ := h.rely hw
  refine ⟨trivial, fun _ w₂ hb => ?_⟩
  cases List.mem_singleton.1 hb
  refine ⟨0, fun r hr => ?_, fun j hj => rely_of_owner h₁.reader (.inl h₁.table) hj, ?_⟩
  · refine { hr with conn := hr.conn.congr rfl, level := fun _ x hx s hs => ?_ }
    have := h₁.done x hx (by simp) s hs
    rwa [← h₁.initial] at this
  · exact hk _ h₁.reader fun hc => (hw.reader h.reader).2 (hC hc)

theorem Adjusting.next {old new : Int} {xs : List Nat} (h : Adjusting i old new (x :: xs) w)
    (hstr : w'.str = Function.update w.str x (some s')) (hg : w'.ground = w.ground)
    (hlevel : Level new s') : Adjusting i old new xs w' := by
  obtain ⟨hreader, -, htmu, hlive, -, hinit, -⟩ := ground_eq hg
  obtain ⟨hx, hnodup⟩ := List.nodup_cons.1 h.nodup
  refine ⟨hreader.trans h.reader, htmu.trans h.table, by rw [hinit, h.initial], hnodup, ?_, ?_⟩
  · intro y hy
    obtain ⟨hlive', hy'⟩ := h.todo y (List.mem_cons_of_mem _ hy)
    refine ⟨hlive ▸ hlive', fun t hyt => ?_⟩
    obtain ⟨rfl, -⟩ | ⟨-, hyt⟩ := str_update hstr hyt
    · exact absurd hy hx
    · exact hy' t hyt
  · intro y hy hxs t hyt
    obtain ⟨rfl, rfl⟩ | ⟨hne, hyt⟩ := str_update hstr hyt
    · exact hlevel
    · exact h.done y (hlive ▸ hy) (by simp [hne, hxs]) t hyt

theorem adjustWindow {old new : Int} {xs : List Nat} {ok : Bool}
    (h : Adjusting i old new (x :: xs) w)
    (hb : (ok, w') ∈ Op.exec env i w (.adjustWindow x (new - old))) :
    (∀ r, Inv w r → Inv w' r) ∧ ((∃ r, Inv w r) → Adjusting i old new xs w') ∧
      (ok = true → w.NoStale → w'.NoStale) := by
  have hheld : w.tmu ≠ none ∧ w.reader ≠ none := by simp [h.table, h.reader]
  simp only [Op.exec, World.adjustWindow, List.mem_singleton] at hb
  split at hb
  · rename_i hnone
    cases hb
    obtain ⟨hx, hnodup⟩ := List.nodup_cons.1 h.nodup
    refine ⟨fun _ h => h, fun _ => ⟨h.reader, h.table, h.initial, hnodup, ?_, ?_⟩, fun _ h => h⟩
    · exact fun y hy => h.todo y (List.mem_cons_of_mem _ hy)
    · intro y hy hxs t hyt
      refine h.done y hy (fun hmem => ?_) t hyt
      obtain rfl | hmem := List.mem_cons.1 hmem
      · simp [hnone] at hyt
      · exact hxs hmem
  · rename_i s hs
    obtain ⟨hstale, hbase⟩ := (h.todo x (List.mem_cons_self ..)).2 s hs
    split at hb <;> cases hb
    · rename_i hover
      refine ⟨fun r hr => ?_, fun hex => h.next rfl rfl ?_, fun hok => by cases hok⟩
      · have hw := hr.window x s hs
        exact hr.set hs rfl rfl (fun ht => absurd ht hheld.1) (fun hr => absurd hr hheld.2)
          ⟨hw.counts, hw.upper, hw.lower, hw.base⟩ (hr.conn.congr rfl) (fun _ _ => rfl)
          (by simpa [hs] using hr.sentOn x) hr.sent
      · obtain ⟨r, hr⟩ := hex
        have := (hr.window x s hs).upper
        simp only [Level, if_true]
        omega
    · rename_i hfit
      refine ⟨fun r hr => ?_, fun _ => h.next rfl rfl ?_, fun _ hno y t hyt => ?_⟩
      · have hw := hr.window x s hs
        have hnew : 0 ≤ new ∧ new ≤ maxWindow := h.initial ▸ initial_range hr
        have hint : int32 (s.sendWindow + (new - old)) = s.sendWindow + (new - old) :=
          int32_of_window (by have := hw.lower; omega) (by omega)
        refine hr.set hs rfl rfl (fun ht => absurd ht hheld.1) (fun hr => absurd hr hheld.2) ?_
          (hr.conn.congr rfl) (fun _ _ => rfl) (by simpa [hs] using hr.sentOn x) hr.sent
        obtain ⟨⟨hle, heq⟩, hu, hl, hb⟩ := hw
        exact ⟨⟨by dsimp only; omega, fun hsat => by have := heq hsat; dsimp only; omega⟩,
          by dsimp only; omega, by dsimp only; omega, by dsimp only; omega⟩
      · simp only [Level, hstale, Bool.false_eq_true, if_false]
        omega
      · obtain ⟨-, rfl⟩ | ⟨-, hyt⟩ := str_update rfl hyt
        · exact hstale
        · exact hno y t hyt

theorem adjustAll_safe {old new : Int} {C : Prop} {xs : List Nat} (h : Adjusting i old new xs w)
    (hC : C → w.NoStale) : (spec env G).Safe i (adjustAll (new - old) xs) 0
      (fun bad g w => g = 0 ∧ Adjusting i old new [] w ∧ (C → bad = none → w.NoStale)) w := by
  induction xs generalizing w C with
  | nil =>
    exact fun w' hw => ⟨rfl, h.rely hw, fun hc _ => (hw.reader h.reader).2 (hC hc)⟩
  | cons x xs ih =>
    simp only [adjustAll, Prog.bind_eq, Prog.lift_bind, Prog.pure_eq]
    intro w₁ hw hr hok
    have h₁ := h.rely hw
    obtain ⟨hlive, htodo⟩ := h₁.todo x (List.mem_cons_self ..)
    refine ⟨⟨hlive, fun s hs => by rw [(htodo s hs).2, h₁.initial]; omega⟩, fun ok w₂ hb => ?_⟩
    change (ok, w₂) ∈ Op.exec env i w₁ (.adjustWindow x (new - old)) at hb
    obtain ⟨hinv, hadj, hstale⟩ := adjustWindow h₁ hb
    have h₂ := hadj (hr.elim fun _ h => ⟨_, h⟩)
    refine ⟨0, fun r hr => hinv _ hr, fun j hj => rely_of_owner h₁.reader (.inl h₁.table) hj, ?_⟩
    cases ok with
    | true =>
      refine Spec.Safe.bind ((ih h₂ fun hc => hstale rfl ((hw.reader h.reader).2 (hC hc))).mono
        fun bad g w₃ => ?_)
      rintro ⟨rfl, h₃, hbad⟩
      exact fun w₄ hw => ⟨rfl, h₃.rely hw, fun hc hnone =>
        (hw.reader h₃.reader).2 (hbad hc hnone)⟩
    | false =>
      refine Spec.Safe.bind ((ih (C := False) h₂ False.elim).mono fun bad g w₃ => ?_)
      rintro ⟨rfl, h₃, -⟩
      exact fun w₄ hw => ⟨rfl, h₃.rely hw, fun _ hnone => by cases hnone⟩

theorem applyInitialWindow_safe {p : SettingsParams} (h : Kept i w) :
    (spec env G).Safe i (applyInitialWindow p) 0
      (fun r g w => g = 0 ∧ w.reader = some i ∧ (r.2 = none → w.NoStale)) w := by
  simp only [applyInitialWindow, Prog.bind_eq, Prog.lift_bind, Prog.pure_eq]
  refine lockTable_safe h fun w₁ h₁ => publishSettings_safe h₁ fun old new w₂ hold h₂ => ?_
  split
  · rename_i heq
    obtain rfl : old = new := heq
    have hadj : Adjusting i w₁.initialWindow old [] w₂ := by
      refine ⟨h₂.reader, h₂.table, h₂.initial, .nil, by simp, fun x hx _ s hs => ?_⟩
      simp [Level, h₂.noStale x s hs, h₂.base x hx s hs, hold]
    exact unlockTable_safe (C := True) hadj (fun _ => h₂.noStale) fun w₃ hr hno w₄ hw =>
      ⟨rfl, (hw.reader hr).1, fun _ => (hw.reader hr).2 (hno trivial)⟩
  · refine (harmless (by decide)).safe_op fun w₃ xs w₄ _ _ hok hb hw => ?_
    obtain ⟨xs, hxs, hb⟩ := List.mem_map.1 hb
    cases hb
    have h₃ := h₂.rely hw
    have hperm := List.mem_permutations.1 hxs
    have hadj : Adjusting i w₁.initialWindow new xs w₃ := by
      refine ⟨h₃.reader, h₃.table, h₃.initial, hperm.nodup_iff.2 (tabled_table hok).nodup, ?_, ?_⟩
      · exact fun x hx => ⟨hperm.mem_iff.1 hx, fun s hs =>
          ⟨h₃.noStale x s hs, h₃.base x (hperm.mem_iff.1 hx) s hs⟩⟩
      · exact fun x hx hxs => absurd (hperm.mem_iff.2 hx) hxs
    rw [hold]
    refine Spec.Safe.bind ((adjustAll_safe (C := True) hadj fun _ => h₃.noStale).mono ?_)
    rintro bad g w₅ ⟨rfl, h₅, hbad⟩
    refine unlockTable_safe h₅ (hbad trivial) fun w₆ hr hno w₇ hw => ?_
    exact ⟨rfl, (hw.reader hr).1, fun h => (hw.reader hr).2 (hno h)⟩

theorem applyPeerSettings_safe (p : SettingsParams) (h : Kept i w) :
    (spec env G).Safe i (applyPeerSettings p) 0
      (Handled (Kept i) fun w => w.reader = some i) w := by
  have hret (r : Except GoErr Unit) (w : World) (h : Kept i w) : (spec env G).Safe i (.ret r) 0
      (Handled (Kept i) fun w => w.reader = some i) w := fun w' hw => ⟨rfl, .inl (h.rely hw)⟩
  unfold applyPeerSettings
  split
  · exact hret _ w h
  simp only [Prog.bind_eq, Prog.lift_bind, Prog.pure_eq]
  refine (harmless (by decide)).safe_op fun _ _ w₁ _ _ _ _ hw => ?_
  refine Spec.Safe.bind ((kept_safe (resizeEncoder_uses p) (by decide) (h.rely hw)).mono ?_)
  rintro _ g w₂ ⟨rfl, h₂⟩
  refine (harmless (by decide)).safe_op fun _ _ w₃ _ _ _ _ hw => ?_
  refine Spec.Safe.bind ((applyInitialWindow_safe (h₂.rely hw)).mono ?_)
  rintro ⟨changed, bad⟩ g w₄ ⟨rfl, hreader, hno⟩
  cases bad with
  | some x =>
    cases changed <;> exact fun w₅ hw => ⟨rfl, .inr ⟨_, rfl, rfl, (hw.reader hreader).1⟩⟩
  | none =>
    have h₄ : Kept i w₄ := ⟨hreader, hno rfl⟩
    cases changed with
    | false => exact hret _ w₄ h₄
    | true =>
      refine (harmless (by decide)).safe_op fun _ _ w₅ _ _ _ _ hw₅ =>
        (harmless (by decide)).safe_op fun _ _ w₆ _ _ _ _ hw₆ =>
          (harmless (by decide)).safe_op fun _ _ w₇ _ _ _ _ hw₇ => ?_
      exact hret _ w₇ (((h₄.rely hw₅).rely hw₆).rely hw₇)

theorem onSettings_safe (ack : Bool) (p : SettingsParams) (h : Kept i w) :
    (spec env G).Safe i (onSettings ack p) 0 (Handled (Kept i) fun w => w.reader = some i) w := by
  simp only [onSettings, guardHeaderBlock, Prog.bind_eq, Prog.lift_bind, Prog.pure_eq]
  refine (harmless (by decide)).safe_op fun _ _ w₁ _ _ _ _ hw => ?_
  have h₁ := h.rely hw
  split
  · exact fun w' hw => ⟨rfl, .inl (h₁.rely hw)⟩
  split
  · exact fun w' hw => ⟨rfl, .inl (h₁.rely hw)⟩
  refine Spec.Safe.bind ((applyPeerSettings_safe p h₁).mono ?_)
  rintro r g w₂ ⟨rfl, h₂⟩
  cases r with
  | error e =>
    refine fun w' hw => ⟨rfl, h₂.imp (fun h => h.rely hw) ?_⟩
    rintro ⟨e', he, hcode, hr⟩
    exact ⟨e', he, hcode, (hw.reader hr).1⟩
  | ok _ =>
    obtain h₂ | ⟨_, he, _⟩ := h₂
    case inr => cases he
    refine (kept_safe (writeUnlessClosed_uses (t := .settingsAck) rfl) (by decide) h₂).mono ?_
    exact fun _ _ _ h => ⟨h.1, .inl h.2⟩

theorem recorderSettings_safe (ack : Bool) (p : SettingsParams) (h : Kept i w) :
    (spec env G).Safe i (recorderSettings ack p) 0
      (Handled (Kept i) fun w => w.reader = some i) w := by
  simp only [recorderSettings, Prog.bind_eq, Prog.lift_bind, Prog.pure_eq]
  refine (harmless (by decide)).safe_op fun _ _ w₁ _ _ _ _ hw => ?_
  have h₁ := h.rely hw
  split
  · refine (harmless (by simp [ownSteps])).safe_op fun _ _ w₂ _ _ _ _ hw₂ w' hw => ?_
    exact ⟨rfl, .inl ((h₁.rely hw₂).rely hw)⟩
  refine (harmless (by simp [ownSteps])).safe_op fun _ _ w₂ _ _ _ _ hw₂ => ?_
  refine Spec.Safe.bind ((applyPeerSettings_safe _ (h₁.rely hw₂)).mono ?_)
  rintro r g w₃ ⟨rfl, h₃⟩
  cases r with
  | error e =>
    refine fun w' hw => ⟨rfl, h₃.imp (fun h => h.rely hw) ?_⟩
    rintro ⟨e', he, hcode, hr⟩
    exact ⟨e', he, hcode, (hw.reader hr).1⟩
  | ok _ =>
    obtain h₃ | ⟨_, he, _⟩ := h₃
    case inr => cases he
    exact (harmless (by decide)).safe_op fun _ _ w₄ _ _ _ _ hw₄ w' hw =>
      ⟨rfl, .inl ((h₃.rely hw₄).rely hw)⟩

end SendCredit

end PoseidonServer.Conn
