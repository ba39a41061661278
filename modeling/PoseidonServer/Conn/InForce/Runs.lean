import PoseidonServer.Conn.InForce.Spec

/-! The reader records SETTINGS and then acknowledges them, so that what has been acknowledged is
what is recorded. -/

namespace PoseidonServer.Conn

open Concurrent

namespace InForce

variable {env : Env} {G : Guard Op World Call} {i j : Nat} {w w' : World}

section Reader

variable {e : Bool} {t : Option Nat} {prev rec : List SettingsParams} {p s : SettingsParams}

structure Kept (i : Nat) (w : World) : Prop where
  reader : w.reader = some i
  acked : w.Acked
  recorded : Recorded w.settingsRead w

structure Begun (i : Nat) (e : Bool) (prev : List SettingsParams) (p : SettingsParams)
    (rec : List SettingsParams) (t : Option Nat) (w : World) : Prop where
  reader : w.reader = some i
  established : w.established = e
  table : w.tmu = t
  read : w.settingsRead = prev ++ [p]
  acks : w.acks = prev.length
  values : Records w.peerSettings prev
  recorded : Recorded rec w

structure Published (i : Nat) (e : Bool) (t : Option Nat) (w : World) : Prop where
  reader : w.reader = some i
  established : w.established = e
  table : w.tmu = t
  acks : w.acks + 1 = w.settingsRead.length
  values : Records w.peerSettings w.settingsRead
  recorded : Recorded w.settingsRead w

theorem Kept.congr (h : Kept i w) (hr : w'.reader = some i)
    (hv : w'.settingsView = w.settingsView) : Kept i w' := by
  obtain ⟨hread, hacks, -, -, hrec, hest, -⟩ := view_eq hv
  refine ⟨hr, by rw [World.Acked, hread, hacks]; exact h.acked, fun he => ?_⟩
  rw [hrec, hread]
  exact h.recorded (hest ▸ he)

theorem Begun.congr (h : Begun i e prev p rec t w) (hr : w'.reader = some i)
    (hv : w'.settingsView = w.settingsView) : Begun i e prev p rec t w' := by
  obtain ⟨hread, hacks, -, hps, hrec, hest, htmu⟩ := view_eq hv
  refine ⟨hr, hest.trans h.established, htmu.trans h.table, hread.trans h.read, hacks.trans h.acks,
    hps ▸ h.values, fun he => ?_⟩
  rw [hrec]
  exact h.recorded (hest ▸ he)

theorem Published.congr (h : Published i e t w) (hr : w'.reader = some i)
    (hv : w'.settingsView = w.settingsView) : Published i e t w' := by
  obtain ⟨hread, hacks, -, hps, hrec, hest, htmu⟩ := view_eq hv
  refine ⟨hr, hest.trans h.established, htmu.trans h.table, by rw [hacks, hread, h.acks], ?_,
    fun he => ?_⟩
  · rw [hps, hread]
    exact h.values
  · rw [hrec, hread]
    exact h.recorded (hest ▸ he)

theorem keeper_kept (i : Nat) : Keeper i (Kept i) := keeper_reader (·.reader) fun h => h.congr

theorem keeper_begun : Keeper i (Begun i e prev p rec t) :=
  keeper_reader (·.reader) fun h => h.congr

theorem keeper_published : Keeper i (Published i e t) :=
  keeper_reader (·.reader) fun h => h.congr

theorem keeper_broken (i : Nat) : Keeper i fun w => w.reader = some i :=
  keeper_reader id fun _ hr _ => hr

theorem rely_of_reader (hr : w.reader = some i) (hwmu : w'.wmu = w.wmu)
    (hlimit : w.wmu ≠ some i → w.established = true → w.frameLimit ≤ w'.frameLimit)
    (he : w.established = true → w'.established = true) (hj : j ≠ i) : Rely j w w' where
  reader h := absurd (Option.some.inj (h.symm.trans hr)) hj
  lock h := ⟨hwmu.trans h, hlimit (by simpa [h] using hj)⟩
  established := he

theorem Begun.unacked (h : Begun i e prev p rec t w) : ¬w.Acked := by
  rw [World.Acked, h.read, h.acks]
  simp

theorem Begun.acknowledged (h : Begun i e prev p rec t w) : w.acknowledged = prev := by
  rw [World.acknowledged, h.read, h.acks, List.take_left]

theorem Published.unacked (h : Published i e t w) : ¬w.Acked := by
  have := h.acks
  rw [World.Acked]
  omega

theorem lockTable_safe {k : Unit → M α} {Q : α → PUnit → World → Prop}
    (h : Begun i e prev p rec none w)
    (hk : ∀ w, Begun i e prev p rec (some i) w → (spec env G).Safe i (k ()) 0 Q w) :
    (spec env G).Safe i (.op .lockTable k) 0 Q w := by
  intro w₁ hw _ _
  have h₁ := keeper_begun.rely hw h
  refine ⟨trivial, fun _ w₂ hb => ?_⟩
  obtain ⟨hfree, rfl⟩ := mem_whenFree hb
  refine ⟨0, fun _ hr => ?_, fun j hj => ?_, hk _ ?_⟩
  · exact { settled := fun ha => absurd ha h₁.unacked, idle := hr.idle,
            canonical := hr.canonical, limit := hr.limit }
  · exact rely_of_reader h₁.reader rfl (fun _ _ => le_rfl) id hj
  · exact ⟨h₁.reader, h₁.established, rfl, h₁.read, h₁.acks, h₁.values, h₁.recorded⟩

theorem publishSettings_safe {k : Nat × Nat → M α} {Q : α → PUnit → World → Prop}
    (h : Begun i e prev p (prev ++ [p]) t w)
    (hs : ∀ id, id.known = true → (lastValue id s).or (lastValue id prev.flatten) =
      lastValue id (prev ++ [p]).flatten)
    (hk : ∀ r w, Published i e t w → (spec env G).Safe i (k r) 0 Q w) :
    (spec env G).Safe i (.op (.publishSettings s) k) 0 Q w := by
  intro w₁ hw ⟨_, (hinv : Inv w₁)⟩ hok
  have h₁ := keeper_begun.rely hw h
  obtain ⟨-, held, -, -, -, hvalid⟩ := hok
  have hvalues := settingValue_published hinv.canonical h₁.values hs
  have hagrees : w₁.Agrees := fun id d => by
    rw [World.ackedValue, h₁.acknowledged]
    exact h₁.values id d
  refine ⟨hagrees, fun _ w₂ hb => ?_⟩
  cases List.mem_singleton.1 hb
  have h₂ : Published i e t (w₁.publishSettings s).2 := by
    refine ⟨h₁.reader, h₁.established, h₁.table, ?_, ?_, ?_⟩
    · change w₁.acks + 1 = w₁.settingsRead.length
      rw [h₁.acks, h₁.read]
      simp
    · intro id d
      change _ = if id.known then (lastValue id w₁.settingsRead.flatten).getD d else d
      rw [h₁.read]
      exact hvalues id d
    · intro he
      change w₁.recorder.peer = setPeerSettings [] w₁.settingsRead.flatten
      rw [h₁.read]
      exact h₁.recorded he
  refine ⟨0, fun _ hr => ?_, fun j hj => ?_, hk _ _ h₂⟩
  · refine ⟨fun ha => absurd ha h₂.unacked, hr.idle, hr.canonical.setPeerSettings s, ?_⟩
    exact settingValue_setPeerSettings (P := fun v => 16384 ≤ v) hr.limit
      fun q hq hid => (validatePeerSettings_ok hvalid q hq).1 hid
  · refine rely_of_reader h₁.reader rfl (fun _ _ => ?_) id hj
    have hsame : w₁.peerMaxFrame = w₁.ackedValue .maxFrameSize 16384 := hagrees .maxFrameSize 16384
    rw [World.frameLimit, hsame, max_self]
    exact le_max_left ..

theorem unlockTable_safe {k : Unit → M α} {Q : α → PUnit → World → Prop} (h : Published i e t w)
    (hk : ∀ w, Published i e none w → (spec env G).Safe i (k ()) 0 Q w) :
    (spec env G).Safe i (.op .unlockTable k) 0 Q w := by
  intro w₁ hw _ _
  have h₁ := keeper_published.rely hw h
  refine ⟨trivial, fun _ w₂ hb => ?_⟩
  cases List.mem_singleton.1 hb
  refine ⟨0, fun _ hr => ?_, fun j hj => ?_, hk _ ?_⟩
  · exact { settled := fun ha => absurd ha h₁.unacked, idle := hr.idle,
            canonical := hr.canonical, limit := hr.limit }
  · exact rely_of_reader h₁.reader rfl (fun _ _ => le_rfl) id hj
  · exact ⟨h₁.reader, h₁.established, rfl, h₁.acks, h₁.values, h₁.recorded⟩

def Ends (P : World → Prop) (_ : α) (g : PUnit) (w : World) : Prop := g = 0 ∧ P w

theorem applyInitialWindow_safe (h : Begun i e prev p (prev ++ [p]) none w)
    (hs : ∀ id, id.known = true → (lastValue id s).or (lastValue id prev.flatten) =
      lastValue id (prev ++ [p]).flatten) :
    (spec env G).Safe i (applyInitialWindow s) 0 (Ends (Published i e none)) w := by
  simp only [applyInitialWindow, Prog.bind_eq, Prog.lift_bind, Prog.pure_eq]
  refine lockTable_safe h fun w₁ h₁ => publishSettings_safe h₁ hs fun r w₂ h₂ => ?_
  have hret (r : Bool × Option Nat) : (spec env G).Keeps i (Published i e none) (.ret r) :=
    keepsRet keeper_published r
  split
  · exact unlockTable_safe h₂ fun w₃ h₃ => hret _ w₃ h₃
  · refine easyOp keeper_published (by decide) h₂ fun xs w₃ h₃ => ?_
    refine Spec.Safe.bind ((uses keeper_published (adjustAll_uses _ xs) (by decide) w₃ h₃).mono ?_)
    rintro bad g w₄ ⟨rfl, h₄⟩
    exact unlockTable_safe h₄ fun w₅ h₅ => hret _ w₅ h₅

theorem streamCode_of_validate {err : GoErr} (h : validatePeerSettings s = .error err) :
    err.streamCode = none := by
  fun_induction validatePeerSettings s with
  | case1 => cases h
  | case2 | case4 | case6 => cases h; rfl
  | case3 _ _ _ ih | case5 _ _ _ ih | case7 _ _ _ ih | case8 _ _ _ _ _ ih => exact ih h

def Applied (i : Nat) (e : Bool) (r : Except GoErr Unit) (g : PUnit) (w : World) : Prop :=
  g = 0 ∧ w.reader = some i ∧ (r = .ok () → Published i e none w) ∧
    ∀ err, r = .error err → err.streamCode = none

theorem applyPeerSettings_safe (h : Begun i e prev p (prev ++ [p]) none w)
    (hs : ∀ id, id.known = true → (lastValue id s).or (lastValue id prev.flatten) =
      lastValue id (prev ++ [p]).flatten) :
    (spec env G).Safe i (applyPeerSettings s) 0 (Applied i e) w := by
  unfold applyPeerSettings
  split
  · rename_i err herr
    refine fun w' hw => ⟨rfl, (hw.reader h.reader).1, fun h => (by cases h), ?_⟩
    rintro _ ⟨⟩
    exact streamCode_of_validate herr
  simp only [Prog.bind_eq, Prog.lift_bind, Prog.pure_eq]
  have hok (w) (h : Published i e none w) : (spec env G).Safe i (.ret (.ok ())) 0 (Applied i e) w :=
    fun w' hw => ⟨rfl, (hw.reader h.reader).1, fun _ => keeper_published.rely hw h,
      fun _ h => by cases h⟩
  refine easyOp keeper_begun (by decide) h fun _ w₁ h₁ => ?_
  refine Spec.Safe.bind ((uses keeper_begun (resizeEncoder_uses s) (by decide) w₁ h₁).mono ?_)
  rintro _ g w₂ ⟨rfl, h₂⟩
  refine easyOp keeper_begun (by decide) h₂ fun _ w₃ h₃ => ?_
  refine Spec.Safe.bind ((applyInitialWindow_safe h₃ hs).mono ?_)
  rintro ⟨changed, bad⟩ g w₄ ⟨rfl, h₄⟩
  cases bad with
  | some x =>
    have hbad (m : String) : (spec env G).Safe i (.ret (.error (.connError .flowControlError m))) 0
        (Applied i e) w₄ := by
      refine fun w' hw => ⟨rfl, (hw.reader h₄.reader).1, fun h => (by cases h), ?_⟩
      rintro _ ⟨⟩
      rfl
    cases changed <;> exact hbad _
  | none =>
    cases changed with
    | false => exact hok w₄ h₄
    | true =>
      exact easyOp keeper_published (by decide) h₄ fun _ w₅ h₅ =>
        easyOp keeper_published (by decide) h₅ fun _ w₆ h₆ =>
          easyOp keeper_published (by decide) h₆ fun _ w₇ h₇ => hok w₇ h₇

theorem acks_ack (h : w'.wire = w.wire ++ [.settingsAck]) : w'.acks = w.acks + 1 := by
  simp [World.acks, h]

theorem ack_safe {k : Bool → M α} {Q : α → PUnit → World → Prop} (h : Published i e none w)
    (hlock : w.wmu = some i ∨ e = false)
    (hk : ∀ ok w, (if ok then Kept i w else w.reader = some i) →
      (spec env G).Safe i (k ok) 0 Q w) :
    (spec env G).Safe i (.op (.write .settingsAck) k) 0 Q w := by
  intro w₁ hw ⟨_, (hinv : Inv w₁)⟩ _
  have h₁ := keeper_published.rely hw h
  have hlock : w₁.wmu = some i ∨ w₁.established = false :=
    hlock.imp (fun h => (hw.lock h).1) fun he => h₁.established.trans he
  refine ⟨⟨.inr (within_of_small (by decide) (limit_le hinv)), fun _ =>
    ⟨hlock, h₁.table, h₁.acks, h₁.values⟩⟩, fun ok w₂ hb => ?_⟩
  change (ok, w₂) ∈ Op.exec env i w₁ (.write .settingsAck) at hb
  have hf := frame_of_exec hb
  have hturn := hf.turn (by simp)
  simp only [World.turnView, Prod.mk.injEq] at hturn
  have hps := hf.settings (by simp)
  have hest := (still_of_exec hb).established (by simp)
  have hrec := (still_of_exec hb).recorder (by simp)
  have hread : w₂.settingsRead = w₁.settingsRead := by
    rw [World.settingsRead, hturn.2.2, World.settingsRead]
  have hother (j : Nat) (hj : j ≠ i) : Rely j w₁ w₂ := by
    refine rely_of_reader h₁.reader (hf.wmu (by simp)) (fun hne he => ?_) (fun h => hest.trans h) hj
    obtain h | h := hlock
    · exact absurd h hne
    · simp [he] at h
  obtain ⟨rfl, -, rfl⟩ | ⟨rfl, -, hwire⟩ := write_exec hb
  · exact ⟨0, fun _ h => h, hother, hk _ _ h₁.reader⟩
  · have hacked : w₂.Acked := by rw [World.Acked, acks_ack hwire, hread, h₁.acks]
    have hrecorded : Recorded w₂.settingsRead w₂ := fun he => by
      rw [hrec, hread]
      exact h₁.recorded (hest ▸ he)
    refine ⟨0, fun _ hr => ⟨fun _ => ⟨(hf.tmu (by simp)).trans h₁.table, fun id d => ?_⟩,
      fun _ _ => ⟨hacked, hrecorded⟩, hps ▸ hr.canonical, ?_⟩, hother,
        hk _ _ ⟨hturn.1.trans h₁.reader, hacked, hrecorded⟩⟩
    · rw [World.ackedValue, World.acknowledged, hacked, List.take_length, hread, hps]
      exact h₁.values id d
    · rw [World.peerMaxFrame, hps]
      exact hr.limit

theorem handled_of_error {err : GoErr} (herr : err.streamCode = none) (hr : w.reader = some i) :
    (spec env G).Safe i (.ret (.error err)) 0 (Handled (Kept i) fun w => w.reader = some i) w :=
  fun _ hw => ⟨rfl, .inr ⟨err, rfl, herr, (hw.reader hr).1⟩⟩

theorem handled_of_ack (ok : Bool) (h : if ok then Kept i w else w.reader = some i) :
    (spec env G).Safe i (.ret (if ok then .ok () else .error .io)) 0
      (Handled (Kept i) fun w => w.reader = some i) w := by
  cases ok with
  | true => exact fun _ hw => ⟨rfl, .inl ((keeper_kept i).rely hw h)⟩
  | false => exact handled_of_error rfl h

theorem writeSettingsAck_safe (h : Published i e none w) :
    (spec env G).Safe i writeSettingsAck 0 (Handled (Kept i) fun w => w.reader = some i) w := by
  simp only [writeSettingsAck, writeUnlessClosed, writeLocked, Prog.bind_eq, Prog.lift_bind,
    Prog.pure_eq]
  refine easyOp keeper_published (by decide) h fun closed w₁ h₁ => ?_
  split
  · exact handled_of_error rfl h₁.reader
  refine (under keeper_published (by decide)).1.safe_op (fun hw h => keeper_published.rely hw h) h₁
    fun w₂ _ w₃ _ _ _ hb h₃ => ?_
  obtain ⟨rfl, -⟩ := lockW_exec hb
  refine ack_safe h₃ (.inl rfl) fun ok w₄ h₄ => ?_
  cases ok with
  | true =>
    exact easyOp (keeper_kept i) (by decide) h₄ fun _ w₅ h₅ => handled_of_ack true h₅
  | false =>
    exact easyOp (keeper_broken i) (by decide) h₄ fun _ w₅ h₅ => handled_of_ack false h₅

theorem onSettings_safe (h : Begun i e prev p (prev ++ [p]) none w) :
    (spec env G).Safe i (onSettings false p) 0
      (Handled (Kept i) fun w => w.reader = some i) w := by
  simp only [onSettings, guardHeaderBlock, Prog.bind_eq, Prog.lift_bind, Prog.pure_eq]
  refine easyOp keeper_begun (by decide) h fun hd w₁ h₁ => ?_
  split
  · exact handled_of_error rfl h₁.reader
  rw [if_neg Bool.false_ne_true]
  refine Spec.Safe.bind ((applyPeerSettings_safe h₁ fun id _ => ?_).mono ?_)
  · rw [List.flatten_append, lastValue_append]
    simp
  rintro r g w₂ ⟨rfl, hr, hok, herr⟩
  cases r with
  | error e => exact handled_of_error (herr e rfl) hr
  | ok _ => exact writeSettingsAck_safe (hok rfl)

theorem storeRecorder_safe {k : Unit → M α} {Q : α → PUnit → World → Prop} {rcd : SettingsRecorder}
    (h : Begun i e prev p rec t w) (hpeer : rcd.peer = setPeerSettings [] (prev ++ [p]).flatten)
    (hk : ∀ w, Begun i e prev p (prev ++ [p]) t w → (spec env G).Safe i (k ()) 0 Q w) :
    (spec env G).Safe i (.op (.storeRecorder rcd) k) 0 Q w := by
  intro w₁ hw _ _
  have h₁ := keeper_begun.rely hw h
  refine ⟨trivial, fun _ w₂ hb => ?_⟩
  cases List.mem_singleton.1 hb
  refine ⟨0, fun _ hr => ?_, fun j hj => rely_of_reader h₁.reader rfl (fun _ _ => le_rfl) id hj,
    hk _ ⟨h₁.reader, h₁.established, h₁.table, h₁.read, h₁.acks, h₁.values, fun _ => hpeer⟩⟩
  exact { settled := hr.settled, canonical := hr.canonical, limit := hr.limit,
          idle := fun hnone => by simp [h₁.reader] at hnone }

theorem recorderSettings_safe (h : Begun i false prev p prev none w) :
    (spec env G).Safe i (recorderSettings false p) 0
      (Handled (Kept i) fun w => w.reader = some i) w := by
  simp only [recorderSettings, Prog.bind_eq, Prog.lift_bind, Prog.pure_eq]
  refine (harmless (by decide)).safe_op fun w₁ rcd w₂ _ _ _ hb hw => ?_
  change (rcd, w₂) ∈ Op.exec env i w₁ .loadRecorder at hb
  cases List.mem_singleton.1 hb
  have h₁ := keeper_begun.rely hw h
  have hpeer : setPeerSettings w₁.recorder.peer p = setPeerSettings [] (prev ++ [p]).flatten := by
    rw [h₁.recorded h₁.established]
    simp [setPeerSettings]
  rw [if_neg Bool.false_ne_true]
  refine storeRecorder_safe h₁ hpeer fun w₃ h₃ => ?_
  rw [hpeer]
  refine Spec.Safe.bind ((applyPeerSettings_safe h₃ fun id hk => ?_).mono ?_)
  · rw [lastValue_setPeerSettings hk, List.flatten_append, lastValue_append]
    cases lastValue id [p].flatten <;> simp
  rintro r g w₄ ⟨rfl, hr, hok, herr⟩
  cases r with
  | error err => exact handled_of_error (herr err rfl) hr
  | ok _ => exact ack_safe (hok rfl) (.inr rfl) fun ok w₅ h₅ => handled_of_ack ok h₅

end Reader

theorem turn_exec {o : Op β} {b : β} (ho : o.tag ∈ [.readFrame, .frameDone, .stopReader])
    (hb : (b, w') ∈ o.exec env i w) : w'.wmu = w.wmu ∧ w'.peerSettings = w.peerSettings ∧
      w'.recorder = w.recorder ∧ w'.established = w.established ∧ w'.acks = w.acks ∧
        w'.tmu = w.tmu := by
  have hsteps : ∀ t ∈ [Tag.readFrame, .frameDone, .stopReader], t.kind = .reader ∧
      t ≠ .storeRecorder ∧ t ≠ .establish := by decide
  obtain ⟨hk, hrec, hest⟩ := hsteps _ ho
  have hf := frame_of_tag hb
  have hst := still_of_exec hb
  rw [hk] at hf
  have hwire : w'.wire = w.wire := hf.wire (by simp)
  exact ⟨hf.wmu (by simp), hf.settings (by simp), hst.recorder hrec, hst.established hest,
    by rw [World.acks, hwire, World.acks], hf.tmu (by simp)⟩

theorem frameDone_safe (h : Kept i w) :
    (spec env G).Safe i (.lift .frameDone) 0 ((spec env G).Done i) w := by
  intro w₁ hw _ _
  have h₁ := (keeper_kept i).rely hw h
  refine ⟨trivial, fun b w₂ hb => ?_⟩
  cases List.mem_singleton.1 hb
  refine ⟨0, fun _ hr => ?_, fun j hj => rely_of_reader h₁.reader rfl (fun _ _ => le_rfl) id hj,
    fun _ _ => ⟨rfl, trivial⟩⟩
  exact { settled := hr.settled, canonical := hr.canonical, limit := hr.limit,
          idle := fun _ _ => ⟨h₁.acked, h₁.recorded⟩ }

theorem stopReader_safe (h : w.reader = some i) :
    (spec env G).Safe i (.lift .stopReader) 0 ((spec env G).Done i) w := by
  intro w₁ hw _ _
  have h₁ := (hw.reader h).1
  refine ⟨trivial, fun b w₂ hb => ?_⟩
  cases List.mem_singleton.1 hb
  refine ⟨0, fun _ hr => ?_, fun j hj => rely_of_reader h₁ rfl (fun _ _ => le_rfl) id hj,
    fun _ _ => ⟨rfl, trivial⟩⟩
  exact { settled := hr.settled, canonical := hr.canonical, limit := hr.limit,
          idle := fun _ hd => by cases hd }

theorem establish_safe {k : Unit → M α} {Q : α → PUnit → World → Prop} (h : Kept i w)
    (hk : ∀ w, Kept i w → (spec env G).Safe i (k ()) 0 Q w) :
    (spec env G).Safe i (.op .establish k) 0 Q w := by
  intro w₁ hw _ _
  have h₁ := (keeper_kept i).rely hw h
  refine ⟨trivial, fun _ w₂ hb => ?_⟩
  cases List.mem_singleton.1 hb
  refine ⟨0, fun _ hr => ?_, fun j hj =>
    rely_of_reader h₁.reader rfl (fun _ _ => le_rfl) (fun _ => rfl) hj,
      hk _ ⟨h₁.reader, h₁.acked, fun he => by cases he⟩⟩
  exact { settled := hr.settled, canonical := hr.canonical, limit := hr.limit,
          idle := fun hnone => by simp [h₁.reader] at hnone }

theorem lookSteps_easy : ∀ t ∈ lookSteps, t ∉ ownSteps ++ sizedSteps := by decide

theorem turn {f : Inbound} : Turn (spec env G) i f (Kept i) fun w => w.reader = some i where
  look ho := harmless (lookSteps_easy _ ho)
  kept_rely hw h := (keeper_kept i).rely hw h
  broken_rely hw h := (keeper_broken i).rely hw h
  broken h := h.reader
  answer code h _ := uses (keeper_kept i) (writeRSTStreamID_uses _ code) (by decide) _ h
  frameDone := frameDone_safe
  announce code h := uses (keeper_broken i) (sendGoAway_uses code) (by decide) _ h
  closeTransport h := uses (l := [.closeTransport]) (keeper_broken i) (by simp) (by decide) _ h
  shutdown h := uses (keeper_broken i) shutdownStreams_uses (by decide) _ h
  stop := stopReader_safe

theorem finishHandshake_safe (h : Kept i w) :
    (spec env G).Safe i (finishHandshake env) 0 ((spec env G).Done i) w := by
  have hinitial : (spec env G).Keeps i (Kept i) sendInitialConnWindowUpdate :=
    uses (keeper_kept i) sendInitialConnWindowUpdate_uses (by decide)
  refine Spec.Safe.bind ((hinitial w h).mono ?_)
  rintro r g w₁ ⟨rfl, h₁⟩
  cases r with
  | error _ => exact (turn (f := .goAway)).abortHandshakeSafe h₁.reader
  | ok _ =>
    refine Spec.Safe.bind ((uses (keeper_kept i) (seed_uses env) (by decide) w₁ h₁).mono ?_)
    rintro _ g w₂ ⟨rfl, h₂⟩
    exact establish_safe h₂ fun w₃ h₃ => frameDone_safe h₃

def Start (i : Nat) (f : Inbound) (w : World) : Prop :=
  match f.params with
  | some p => ∃ prev, Begun i w.established prev p prev none w
  | none => Kept i w

theorem dispatch_safe (f : Inbound) (hf : ∀ ack p, f = .settings ack p → w.established = true)
    (h : Start i f w) : (spec env G).Safe i (dispatch env f) 0
      (Handled (Kept i) fun w => w.reader = some i) w := by
  have hkept {p : M (Except GoErr Unit)} (hp : (spec env G).Keeps i (Kept i) p) (h : Kept i w) :
      (spec env G).Safe i p 0 (Handled (Kept i) fun w => w.reader = some i) w :=
    (hp w h).mono fun _ _ _ h => ⟨h.1, .inl h.2⟩
  have huses {p : M (Except GoErr Unit)} {l : List Tag} (hp : Uses l p)
      (hl : ∀ t ∈ l, t ∉ hardSteps) := hkept (uses (keeper_kept i) hp hl)
  have hblocks : Blocks env (spec env G) i (Kept i) :=
    .of_under (keeper_kept i).rely (under (keeper_kept i)) (by decide)
      fun x => sendHeaders_keeps (keeper_kept i) x _ _ _
  cases f with
  | settings ack p =>
    have he := hf ack p rfl
    cases ack with
    | true =>
      exact hkept (keepsOp (keeper_kept i) (by decide) fun hd => by
        dsimp only [Prog.ret_bind]
        split <;> exact keepsRet (keeper_kept i) _) h
    | false =>
      obtain ⟨prev, h⟩ := h
      exact onSettings_safe { h with recorded := fun h' => by simp [he] at h' }
  | headers => exact hkept (hblocks.onHeaders _ _ _ _ _) h
  | continuation => exact hkept (hblocks.onContinuation _ _ _) h
  | data => exact huses (onData_uses ..) (by decide) h
  | rstStream => exact huses (onRSTStream_uses ..) (by decide) h
  | ping => exact huses (onPing_uses ..) (by decide) h
  | windowUpdate x n =>
    exact huses (l := .loadHandler :: onWindowUpdateSteps) (guardHeaderBlock_uses (by simp)
      ((onWindowUpdate_uses x n).mono (List.subset_cons_self ..))) (by decide) h
  | goAway =>
    exact huses (l := [.loadHandler, .notePeerGoAway]) (guardHeaderBlock_uses (by simp) (by simp))
      (by decide) h
  | priority | altSvc | origin =>
    exact huses (l := [.loadHandler]) (guardHeaderBlock_uses (by simp) (by simp)) (by decide) h
  | pushPromise | unknown | rejected => exact huses (l := []) (uses_ret _) (by simp) h

theorem Start.rely {f : Inbound} (hw : Rely i w w') (h : Start i f w) : Start i f w' := by
  unfold Start at h ⊢
  split at h
  · obtain ⟨prev, h⟩ := h
    refine ⟨prev, ?_⟩
    rw [(view_eq (hw.reader h.reader).2).2.2.2.2.2.1]
    exact keeper_begun.rely hw h
  · exact (keeper_kept i).rely hw h

theorem settingsRead_of_read {f : Inbound} {u : Unit}
    (hb : (u, w') ∈ Op.exec env i w (.readFrame f)) :
    w'.settingsRead = w.settingsRead ++ f.params.toList := by
  obtain ⟨-, -, hview⟩ := readFrame_exec hb
  simp only [World.readerView, Prod.mk.injEq] at hview
  rw [World.settingsRead, hview.2.2.2.2, List.filterMap_append, World.settingsRead]
  cases hp : f.params <;> simp [hp]

theorem acknowledged_of_read {f : Inbound} {u : Unit} (h : Inv w)
    (hb : (u, w') ∈ Op.exec env i w (.readFrame f)) : w'.acknowledged = w.acknowledged := by
  obtain ⟨hfree, hdone, -⟩ := readFrame_exec hb
  obtain ⟨-, -, -, -, hacks, -⟩ := turn_exec (by simp) hb
  rw [World.acknowledged, settingsRead_of_read hb, hacks,
    List.take_append_of_le_length (h.idle hfree hdone).1.le, World.acknowledged]

theorem start_of_read {f : Inbound} {u : Unit} (h : Inv w)
    (hb : (u, w') ∈ Op.exec env i w (.readFrame f)) :
    Inv w' ∧ (∀ j, Rely j w w') ∧ Start i f w' := by
  obtain ⟨hfree, hdone, hview⟩ := readFrame_exec hb
  simp only [World.readerView, Prod.mk.injEq] at hview
  obtain ⟨hwmu, hps, hrec, hest, hacks, htmu⟩ := turn_exec (by simp) hb
  obtain ⟨hacked, hrecorded⟩ := h.idle hfree hdone
  obtain ⟨hnone, hagrees⟩ := h.settled hacked
  have hread := settingsRead_of_read hb
  have hack := acknowledged_of_read h hb
  have hall : w.acknowledged = w.settingsRead := by
    rw [World.acknowledged, hacked, List.take_length]
  refine ⟨⟨fun ha => ⟨htmu.trans hnone, fun id d => ?_⟩, fun hn => by simp [hview.1] at hn,
    hps ▸ h.canonical, ?_⟩, fun j => ⟨fun hj => by simp [hfree] at hj, fun hj => ?_,
      fun he => hest.trans he⟩, ?_⟩
  · rw [World.ackedValue, hack, hps]
    exact hagrees id d
  · rw [World.peerMaxFrame, hps]
    exact h.limit
  · refine ⟨hwmu.trans hj, fun _ => ?_⟩
    simp only [World.frameLimit, World.ackedValue, World.peerMaxFrame, hack, hps, le_refl]
  · unfold Start
    cases hp : f.params with
    | some p =>
      rw [hp] at hread
      refine ⟨w.settingsRead, hview.1, rfl, htmu.trans hnone, hread, hacks.trans hacked, ?_, ?_⟩
      · intro id d
        rw [hps, hagrees id d, World.ackedValue, hall]
      · intro he
        rw [hrec]
        exact hrecorded (hest ▸ he)
    | none =>
      simp only [hp, Option.toList_none, List.append_nil] at hread
      refine ⟨hview.1, by rw [World.Acked, hacks, hread, hacked], fun he => ?_⟩
      rw [hrec, hread]
      exact hrecorded (hest ▸ he)

theorem recorderAck_safe (p : SettingsParams) (h : Kept i w) :
    (spec env G).Safe i (recorderSettings true p) 0
      (Handled (Kept i) fun w => w.reader = some i) w := by
  simp only [recorderSettings, Prog.bind_eq, Prog.lift_bind, Prog.pure_eq]
  refine (harmless (by decide)).safe_op fun w₁ rcd w₂ _ _ _ hb hw => ?_
  change (rcd, w₂) ∈ Op.exec env i w₁ .loadRecorder at hb
  cases List.mem_singleton.1 hb
  have h₁ := (keeper_kept i).rely hw h
  rw [if_pos trivial]
  intro w₃ hw₃ _ _
  have h₃ := (keeper_kept i).rely hw₃ h₁
  obtain ⟨hread, -, -, -, -, hest, -⟩ := view_eq (hw₃.reader h₁.reader).2
  refine ⟨trivial, fun _ w₄ hb => ?_⟩
  cases List.mem_singleton.1 hb
  have h₄ : Kept i { w₃ with recorder := { w₁.recorder with ackSeen := true } } := by
    refine ⟨h₃.reader, h₃.acked, fun he => ?_⟩
    change w₁.recorder.peer = setPeerSettings [] w₃.settingsRead.flatten
    rw [hread]
    exact h₁.recorded (hest ▸ he)
  refine ⟨0, fun _ hr => ?_, fun j hj => rely_of_reader h₃.reader rfl (fun _ _ => le_rfl) id hj,
    fun w₅ hw₅ => ⟨rfl, .inl ((keeper_kept i).rely hw₅ h₄)⟩⟩
  exact { settled := hr.settled, canonical := hr.canonical, limit := hr.limit,
          idle := fun hnone => by simp [h₃.reader] at hnone }

theorem serveFrame_safe (f : Inbound) :
    (spec env G).Safe i (serveFrame env f) 0 ((spec env G).Done i) w := by
  intro w₁ _ ⟨_, hinv⟩ _
  refine ⟨trivial, fun b w₂ hb => ?_⟩
  change (b, w₂) ∈ Op.exec env i w₁ (.readFrame f) at hb
  obtain ⟨h₂, hrely, hstart⟩ := start_of_read hinv hb
  refine ⟨0, fun _ _ => h₂, fun j _ => hrely j, ?_⟩
  refine turn.serveSafe (Start i f) (fun hw h => h.rely hw) (fun _ h => finishHandshake_safe h)
    (fun w hf h => dispatch_safe f hf h) (fun w ack p hf he h => ?_) hstart
  subst hf
  cases ack with
  | true => exact recorderAck_safe p h
  | false =>
    obtain ⟨prev, h⟩ := h
    rw [he] at h
    exact recorderSettings_safe h

theorem verifies (hcall : ∀ w q, G.callOk w q → q.available w) :
    (spec env G).Verifies (Call.body env) := by
  intro q i w hq _ _
  have hq := hcall w q hq
  have hdone {p : M Unit} (he : w.established = true)
      (hp : (spec env G).Keeps i (fun w => w.established = true) p) :
      (spec env G).Safe i p 0 ((spec env G).Done i) w :=
    (hp w he).mono fun _ _ _ h => ⟨h.1, trivial⟩
  have hcalled {p : M Unit} {l : List Tag} (he : w.established = true) (hp : Uses l p)
      (hl : ∀ t ∈ l, t ∉ hardSteps) := hdone he (uses (keeper_established i) hp hl)
  have hheld {x : Nat} (h : w.held x = true) : w.established = true := by
    simp only [World.held, Bool.and_eq_true] at h
    exact h.1
  cases q with
  | frame f => exact serveFrame_safe f
  | cancelRequest n =>
    exact (harmless (by simp +decide)).safe_op fun _ _ _ _ _ _ _ _ _ _ => ⟨rfl, trivial⟩
  | failTransport =>
    exact (harmless (by decide)).safe_op fun _ _ _ _ _ _ _ _ _ _ => ⟨rfl, trivial⟩
  | sendHeaders x fields endStream prio =>
    exact hdone (hheld hq) ((sendHeaders_keeps (keeper_established i) x fields endStream prio).bind
      fun _ => keepsRet (keeper_established i) _)
  | push x fields prio =>
    exact hdone (hheld hq) ((pushWithPriority_keeps (keeper_established i) x fields prio).bind
      fun _ => keepsRet (keeper_established i) _)
  | recv x ctx =>
    refine hcalled (hheld hq) (Call.body_uses env (by simp)) ?_
    rw [Call.steps, Outbound.tag_windowUpdate]
    split <;> decide
  | sendData | close =>
    exact hcalled (hheld hq) (Call.body_uses env (by simp)) (by simp only [Call.steps]; decide)
  | accept | closeConn | goAwayGraceful | goAway =>
    exact hcalled hq (Call.body_uses env (by simp)) (by simp only [Call.steps]; decide)

theorem init_inv (env : Env) : Inv (World.init env) where
  settled _ := ⟨rfl, fun id d => by
    simp [World.init, World.ackedValue, World.acknowledged, World.settingsRead, settingValue,
      lastValue]⟩
  idle _ _ := ⟨by simp [World.Acked, World.acks, World.settingsRead, World.init], fun _ => rfl⟩
  canonical := canonical_nil
  limit := by simp [World.peerMaxFrame, World.init, settingValue]

end InForce

end PoseidonServer.Conn
