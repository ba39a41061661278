import Mathlib.Data.List.Dedup
import PoseidonServer.Concurrent.Sequential
import PoseidonServer.Conn.Quiet
import PoseidonServer.Conn.Server

/-! The two ways SETTINGS come in: the recorder of the handshake, which merges a frame into what
came before and applies the whole, and `OnSettings`, which applies the frame. -/

namespace PoseidonServer.Conn

open Concurrent

def lastValue (id : SettingID) (s : SettingsParams) : Option Nat :=
  (s.filter (·.1 = id)).getLast?.map (·.2)

def appeared (s : SettingsParams) : List SettingID := ((s.map (·.1)).filter (·.known)).eraseDups

def refusal : SettingID × Nat → Option ErrCode
  | (.enablePush, v) => if v > 1 then some .protocolError else none
  | (.initialWindowSize, v) => if (v : Int) > maxWindow then some .flowControlError else none
  | (.maxFrameSize, v) => if v < 16384 || v > 16777215 then some .protocolError else none
  | _ => none

/-- The last value of each identifier in the frame `s`, in the order in which the identifiers
first came in on the connection. -/
def settled (prev : List SettingsParams) (s : SettingsParams) : SettingsParams :=
  (appeared (prev.flatten ++ s)).filterMap fun id => (lastValue id s).map (id, ·)

def outcomeCode (r : Except GoErr Unit) : Except (Option ErrCode) Unit := r.mapError GoErr.code

def refusedWith : Option ErrCode → Except (Option ErrCode) Unit
  | none => .ok ()
  | some code => .error (some code)

def World.overflows (w : World) (initial : Nat) : Bool :=
  initial ≠ w.initialWindow && w.live.any fun x =>
    (w.str x).any fun s => s.sendWindow + ((initial : Int) - w.initialWindow) > maxWindow

section Recorded

variable {ps s : SettingsParams} {id : SettingID} {v d : Nat}

theorem lastValue_concat (s : SettingsParams) (p : SettingID × Nat) (id : SettingID) :
    lastValue id (s ++ [p]) = if p.1 = id then some p.2 else lastValue id s := by
  by_cases h : p.1 = id <;> simp [lastValue, h]

theorem appeared_concat (s : SettingsParams) (p : SettingID × Nat) : appeared (s ++ [p]) =
    if p.1.known ∧ p.1 ∉ appeared s then appeared s ++ [p.1] else appeared s := by
  by_cases hk : p.1.known = true
  · by_cases hmem : p.1 ∈ (s.map (·.1)).filter (·.known)
    · simp_all [appeared, List.eraseDups_append, List.removeAll]
    · simp_all [appeared, List.eraseDups_append, List.removeAll, List.eraseDups_cons]
  · simp [appeared, hk]

theorem mem_appeared : id ∈ appeared s ↔ id.known = true ∧ id ∈ s.map (·.1) := by
  rw [appeared, List.mem_eraseDups, List.mem_filter, and_comm]

theorem lastValue_eq_none : lastValue id s = none ↔ id ∉ s.map (·.1) := by
  simp only [lastValue, Option.map_eq_none_iff, List.getLast?_eq_none_iff, List.filter_eq_nil_iff,
    decide_eq_true_eq, List.mem_map, not_exists, not_and]

structure Canonical (ps : SettingsParams) : Prop where
  nodup : (ps.map (·.1)).Nodup
  known : ∀ p ∈ ps, p.1.known = true

theorem Canonical.length_lt (h : Canonical ps) : ps.length < 16 := by
  have hsub : ps.map (·.1) ⊆ [.headerTableSize, .enablePush, .maxConcurrentStreams,
      .initialWindowSize, .maxFrameSize, .maxHeaderListSize] := by
    intro id hid
    obtain ⟨p, hp, rfl⟩ := List.mem_map.1 hid
    have hk := h.known p hp
    revert hk
    cases p.1 <;> simp [SettingID.known]
  have hlen := (List.subperm_of_subset h.nodup hsub).length_le
  simp only [List.length_map, List.length_cons, List.length_nil] at hlen
  omega

theorem map_replace (ps : SettingsParams) (id : SettingID) (v : Nat) :
    (setPeerSetting.replace id v ps).map (·.1) = ps.map (·.1) := by
  induction ps with
  | nil => rfl
  | cons p ps ih =>
    rw [setPeerSetting.replace]
    split
    · simp_all
    · simp [ih]

theorem settingValue_replace_eq (h : id ∈ ps.map (·.1)) (id' : SettingID) :
    settingValue (setPeerSetting.replace id v ps) id' d =
      if id = id' then v else settingValue ps id' d := by
  induction ps with
  | nil => cases h
  | cons p ps ih =>
    by_cases hp : p.1 = id
    · by_cases hid : id = id' <;> simp [setPeerSetting.replace, settingValue, hp, hid]
    · have hmem : id ∈ ps.map (·.1) := by simpa [Ne.symm hp] using h
      by_cases hid : p.1 = id'
      · have hne : id ≠ id' := fun h => hp (hid.trans h.symm)
        rw [setPeerSetting.replace, if_neg hp]
        simp [settingValue, hid, hne]
      · simpa [setPeerSetting.replace, settingValue, hp, hid] using ih hmem

theorem any_id (ps : SettingsParams) (id : SettingID) :
    ps.any (fun p => decide (p.1 = id)) = decide (id ∈ ps.map (·.1)) := by
  rw [Bool.eq_iff_iff, List.any_eq_true, decide_eq_true_iff, List.mem_map]
  simp

theorem map_setPeerSetting (h : Canonical ps) (id : SettingID) (v : Nat) :
    (setPeerSetting ps id v).map (·.1) =
      if id.known ∧ id ∉ ps.map (·.1) then ps.map (·.1) ++ [id] else ps.map (·.1) := by
  unfold setPeerSetting
  by_cases hk : id.known = true
  · by_cases hmem : id ∈ ps.map (·.1)
    · simp only [hk, any_id, hmem]
      simp [map_replace]
    · simp only [hk, any_id, hmem, h.length_lt]
      simp
  · simp [hk]

theorem settingValue_setPeerSetting_eq (h : Canonical ps) (id id' : SettingID) (v d : Nat) :
    settingValue (setPeerSetting ps id v) id' d =
      if id.known ∧ id = id' then v else settingValue ps id' d := by
  unfold setPeerSetting
  by_cases hk : id.known = true
  · by_cases hmem : id ∈ ps.map (·.1)
    · simp only [hk, any_id, hmem]
      simp [settingValue_replace_eq hmem]
    · simp only [hk, any_id, hmem, h.length_lt, decide_false, Bool.not_true, Bool.false_eq_true,
        if_false, if_true, true_and]
      split
      · rename_i hid
        subst hid
        have hfind : ps.find? (fun p => decide (p.1 = id)) = none := by
          rw [List.find?_eq_none]
          intro p hp hpid
          exact hmem (List.mem_map.2 ⟨p, hp, of_decide_eq_true hpid⟩)
        simp [settingValue, List.find?_append, hfind]
      · rename_i hid
        simp [settingValue, List.find?_append, hid]
  · simp [hk]

theorem Canonical.setPeerSetting (h : Canonical ps) (id : SettingID) (v : Nat) :
    Canonical (setPeerSetting ps id v) := by
  have hids := map_setPeerSetting h id v
  constructor
  · rw [hids]
    split
    · rename_i hnew
      rw [← List.concat_eq_append]
      exact h.nodup.concat hnew.2
    · exact h.nodup
  · intro p hp
    have hp := List.mem_map_of_mem (f := (·.1)) hp
    rw [hids] at hp
    have hold : ∀ id' ∈ ps.map (·.1), id'.known = true := by
      intro id' hid'
      obtain ⟨q, hq, rfl⟩ := List.mem_map.1 hid'
      exact h.known q hq
    split at hp
    · rename_i hnew
      obtain hp | hp := List.mem_append.1 hp
      · exact hold _ hp
      · rw [List.mem_singleton.1 hp]
        exact hnew.1
    · exact hold _ hp

theorem setPeerSettings_concat (ps s : SettingsParams) (p : SettingID × Nat) :
    setPeerSettings ps (s ++ [p]) = setPeerSetting (setPeerSettings ps s) p.1 p.2 := by
  simp [setPeerSettings]

theorem Canonical.setPeerSettings (h : Canonical ps) (s : SettingsParams) :
    Canonical (setPeerSettings ps s) := by
  induction s using List.reverseRecOn with
  | nil => exact h
  | append_singleton s p ih =>
    rw [setPeerSettings_concat]
    exact ih.setPeerSetting ..

theorem settingValue_setPeerSettings_eq (h : Canonical ps) (s : SettingsParams) (id : SettingID)
    (d : Nat) : settingValue (setPeerSettings ps s) id d =
      if id.known then (lastValue id s).getD (settingValue ps id d) else settingValue ps id d := by
  induction s using List.reverseRecOn with
  | nil => simp [setPeerSettings, lastValue]
  | append_singleton s p ih =>
    rw [setPeerSettings_concat, settingValue_setPeerSetting_eq (h.setPeerSettings s), ih,
      lastValue_concat]
    by_cases hid : p.1 = id
    · subst hid
      by_cases hk : p.1.known = true <;> simp [hk]
    · simp [hid]

theorem canonical_nil : Canonical [] := ⟨by simp, by simp⟩

theorem map_setPeerSettings (s : SettingsParams) :
    (setPeerSettings [] s).map (·.1) = appeared s := by
  induction s using List.reverseRecOn with
  | nil => rfl
  | append_singleton s p ih =>
    rw [setPeerSettings_concat, map_setPeerSetting (canonical_nil.setPeerSettings s), ih,
      appeared_concat]

theorem Canonical.eq_map (h : Canonical ps) :
    ps = (ps.map (·.1)).map fun id => (id, settingValue ps id 0) := by
  rw [List.map_map]
  refine (List.map_id ps).symm.trans (List.map_congr_left fun p hp => ?_)
  have hfind : ps.find? (fun q => decide (q.1 = p.1)) = some p := by
    rw [List.find?_eq_some_iff_append]
    obtain ⟨l₁, l₂, rfl⟩ := List.append_of_mem hp
    refine ⟨by simp, l₁, l₂, rfl, fun q hq => ?_⟩
    have hnd := h.nodup
    rw [List.map_append, List.map_cons, List.nodup_append] at hnd
    have hne := hnd.2.2 q.1 (List.mem_map_of_mem hq) p.1 (by simp)
    simpa using hne
  simp [settingValue, hfind]

end Recorded

section Range

variable {ps s : SettingsParams}

theorem refusedWith_inj {c c' : Option ErrCode} : refusedWith c = refusedWith c' ↔ c = c' := by
  cases c <;> cases c' <;> simp [refusedWith]

theorem outcomeCode_validate (s : SettingsParams) :
    outcomeCode (validatePeerSettings s) = refusedWith (s.findSome? refusal) := by
  fun_induction validatePeerSettings s with
  | case1 => rfl
  | case2 v s hv | case4 v s hv | case6 v s hv =>
    simp_all [outcomeCode, refusedWith, Except.mapError, GoErr.code, refusal]
  | case3 v s hv ih | case5 v s hv ih | case7 v s hv ih => simp_all [refusal]
  | case8 p s h₁ h₂ h₃ ih =>
    have hp : refusal p = none := by
      obtain ⟨id, v⟩ := p
      cases id <;> first | rfl | simp_all
    simp [ih, hp]

theorem validate_eq_ok (h : s.findSome? refusal = none) : validatePeerSettings s = .ok () := by
  have hcode := outcomeCode_validate s
  rw [h] at hcode
  cases hv : validatePeerSettings s with
  | ok => rfl
  | error e =>
    rw [hv] at hcode
    cases hcode

theorem findSome?_filterMap_congr {l : List α} {f : α → Option γ} {g : α → Option β}
    {h : β → Option γ} (hf : ∀ a ∈ l, f a = (g a).bind h) :
    l.findSome? f = (l.filterMap g).findSome? h := by
  induction l with
  | nil => rfl
  | cons a l ih =>
    have ih := ih fun b hb => hf b (by simp [hb])
    rw [List.findSome?_cons, hf a (by simp), ih]
    cases hg : g a <;> simp [hg]
    split <;> simp_all

theorem refusal_setPeerSettings {prev : List SettingsParams}
    (h : (setPeerSettings [] prev.flatten).findSome? refusal = none) (s : SettingsParams) :
    (setPeerSettings (setPeerSettings [] prev.flatten) s).findSome? refusal =
      (settled prev s).findSome? refusal := by
  have hacc : Canonical (setPeerSettings [] prev.flatten) := canonical_nil.setPeerSettings _
  have hids : (setPeerSettings (setPeerSettings [] prev.flatten) s).map (·.1) =
      appeared (prev.flatten ++ s) := by
    rw [← map_setPeerSettings]
    simp [setPeerSettings]
  rw [(hacc.setPeerSettings s).eq_map, hids, List.findSome?_map]
  refine findSome?_filterMap_congr fun id hid => ?_
  obtain ⟨hk, hmem⟩ := mem_appeared.1 hid
  simp only [Function.comp, settingValue_setPeerSettings_eq hacc, hk, if_true]
  cases hlast : lastValue id s with
  | some v => rfl
  | none =>
    -- the identifier was recorded before, with a value that was in range
    have hold : id ∈ appeared prev.flatten := by
      refine mem_appeared.2 ⟨hk, ?_⟩
      simpa [lastValue_eq_none.1 hlast] using hmem
    rw [hacc.eq_map, List.findSome?_map, List.findSome?_eq_none_iff] at h
    exact h id (map_setPeerSettings _ ▸ hold)

end Range

namespace World

variable (w : World)

def sendWindow (x : Nat) : Option Int := (w.str x).map (·.sendWindow)

/-- What the steps of a SETTINGS change leave alone, and the settings themselves. -/
def applyView :=
  (w.tmu, w.wmu, w.fcOutMu, w.closed, w.down, w.handler, w.live, w.recorder, w.peerSettings)

end World

def adjusted (delta win : Int) : Int := if win + delta > maxWindow then win else int32 (win + delta)

def World.retuned (w : World) (initial : Nat) (x : Nat) : Option Int :=
  if initial ≠ w.initialWindow ∧ x ∈ w.live then
    (w.sendWindow x).map (adjusted ((initial : Int) - w.initialWindow))
  else w.sendWindow x

section Apply

variable {env : Env} {i : Nat} {w w' : World} {s : SettingsParams}

theorem adjustWindow_fst (w : World) (i x : Nat) (delta : Int) : (w.adjustWindow i x delta).1 =
    !(w.sendWindow x).any fun v => v + delta > maxWindow := by
  unfold World.adjustWindow World.sendWindow
  split
  · simp_all
  · split <;> simp_all

theorem adjustWindow_window (w : World) (i x y : Nat) (delta : Int) :
    (w.adjustWindow i x delta).2.sendWindow y =
      if y = x then (w.sendWindow x).map (adjusted delta) else w.sendWindow y := by
  unfold World.adjustWindow
  split
  · split <;> simp_all [World.sendWindow]
  · split <;> by_cases hy : y = x <;>
      simp_all [World.sendWindow, World.setStr, World.owe, adjusted]

theorem adjustWindow_view (w : World) (i x : Nat) (delta : Int) :
    (w.adjustWindow i x delta).2.applyView = w.applyView := by
  unfold World.adjustWindow
  split
  · rfl
  · split <;> rfl

theorem adjustAll_yields (delta : Int) {xs : List Nat} (hxs : xs.Nodup) (w : World) :
    Yields (machine env) i (adjustAll delta xs) w fun bad w' =>
      (bad.isSome = xs.any fun x => (w.sendWindow x).any fun v => v + delta > maxWindow) ∧
      (∀ x, w'.sendWindow x =
        if x ∈ xs then (w.sendWindow x).map (adjusted delta) else w.sendWindow x) ∧
      w'.applyView = w.applyView := by
  induction xs generalizing w with
  | nil => simp [adjustAll]
  | cons x xs ih =>
    obtain ⟨hx, hxs⟩ := List.nodup_cons.1 hxs
    simp only [adjustAll, Prog.bind_eq, Prog.lift_bind, Prog.pure_eq]
    have hexec : (machine env).exec i (.adjustWindow x delta) w = [w.adjustWindow i x delta] := rfl
    refine (yields_op_of_eq hexec).2 ((ih hxs _).bind fun bad w' h => ?_)
    obtain ⟨hbad, hwin, hview⟩ := h
    have hlater : ∀ y ∈ xs, (w.adjustWindow i x delta).2.sendWindow y = w.sendWindow y := by
      intro y hy
      rw [adjustWindow_window, if_neg]
      rintro rfl
      exact hx hy
    rw [yields_ret]
    refine ⟨?_, fun y => ?_, hview.trans (adjustWindow_view w i x delta)⟩
    · have hany : (xs.any fun y => ((w.adjustWindow i x delta).2.sendWindow y).any
          fun v => v + delta > maxWindow) = xs.any fun y => (w.sendWindow y).any
          fun v => v + delta > maxWindow := by
        rw [Bool.eq_iff_iff, List.any_eq_true, List.any_eq_true]
        refine exists_congr fun y => and_congr_right fun hy => ?_
        rw [hlater y hy]
      rw [hany] at hbad
      rw [adjustWindow_fst, List.any_cons]
      cases (w.sendWindow x).any fun v => v + delta > maxWindow <;> simp [hbad]
    · rw [hwin, adjustWindow_window]
      by_cases hy : y = x
      · subst hy
        simp [hx]
      · by_cases hmem : y ∈ xs <;> simp [hy, hmem]

theorem resizeEncoder_yields (s : SettingsParams) (w : World) :
    Yields (machine env) i (resizeEncoder s) w fun _ w' => w' = w := by
  fun_induction resizeEncoder s with
  | case1 => simp
  | case2 v s ih =>
    simp only [Prog.bind_eq, Prog.lift_bind]
    exact (yields_op_of_eq (r := ((), w)) rfl).2 ih
  | case3 p s _ ih => exact ih

structure Idle (w : World) : Prop where
  tmu : w.tmu = none
  wmu : w.wmu = none
  fcOutMu : w.fcOutMu = none
  closed : w.closed = false
  down : w.down = false
  pending : w.handler.pendingStreamID = 0
  live : w.live.Nodup

theorem Idle.of_view (h : Idle w) (hview : w'.tmu = w.tmu ∧ w'.wmu = w.wmu ∧
    w'.fcOutMu = w.fcOutMu ∧ w'.closed = w.closed ∧ w'.down = w.down ∧ w'.handler = w.handler ∧
    w'.live = w.live) : Idle w' := by
  obtain ⟨h₁, h₂, h₃, h₄, h₅, h₆, h₇⟩ := hview
  obtain ⟨k₁, k₂, k₃, k₄, k₅, k₆, k₇⟩ := h
  exact ⟨h₁.trans k₁, h₂.trans k₂, h₃.trans k₃, h₄.trans k₄, h₅.trans k₅, h₆ ▸ k₆, h₇ ▸ k₇⟩

def World.published (w : World) (s : SettingsParams) : World :=
  { w with peerSettings := setPeerSettings w.peerSettings s }

theorem fcWakeAll_view (w : World) : w.fcWakeAll.applyView = w.applyView ∧
    ∀ x, w.fcWakeAll.sendWindow x = w.sendWindow x := by
  have hwake (w : World) (j : Nat) : (w.fcWake j).applyView = w.applyView ∧
      ∀ x, (w.fcWake j).sendWindow x = w.sendWindow x := by
    unfold World.fcWake World.fcUnpark
    dsimp only
    split
    · exact ⟨rfl, fun _ => rfl⟩
    · rw [World.upd_eq]
      refine ⟨rfl, fun x => ?_⟩
      by_cases hx : x = (w.waiter j).ss
      · subst hx
        cases h : w.str (w.waiter j).ss <;> simp [World.sendWindow, World.setWaiter, h]
      · simp [World.sendWindow, World.setWaiter, hx]
  unfold World.fcWakeAll
  generalize w.fcHead = l
  induction l generalizing w with
  | nil => exact ⟨rfl, fun _ => rfl⟩
  | cons j l ih =>
    obtain ⟨hv, hw⟩ := hwake w j
    obtain ⟨ihv, ihw⟩ := ih (w.fcWake j)
    exact ⟨ihv.trans hv, fun x => (ihw x).trans (hw x)⟩

theorem applyInitialWindow_yields (hw : Idle w) (s : SettingsParams) :
    Yields (machine env) i (applyInitialWindow s) w fun r w' =>
      r.1 = decide (w.initialWindow ≠ (w.published s).initialWindow) ∧
      r.2.isSome = w.overflows (w.published s).initialWindow ∧
      (∀ x, w'.sendWindow x = w.retuned (w.published s).initialWindow x) ∧
      w'.applyView = (w.published s).applyView := by
  have htmu : w.tmu = none := hw.tmu
  simp only [applyInitialWindow, Prog.bind_eq, Prog.lift_bind, Prog.pure_eq]
  refine (yields_op_of_eq (r := ((), { w with tmu := some i })) ?_).2 ?_
  · simp [Op.exec, Op.whenFree, htmu]
  refine (yields_op_of_eq rfl).2 ?_
  change Yields _ _ (if w.initialWindow = (w.published s).initialWindow then _ else _) _ _
  split
  · rename_i heq
    refine (yields_op_of_eq rfl).2 ?_
    rw [yields_ret]
    refine ⟨by simp [heq], by simp [World.overflows, heq], fun x => ?_, ?_⟩
    · simp only [World.retuned, heq, ne_eq, not_true_eq_false, false_and, if_false]
      rfl
    · cases w
      cases htmu
      rfl
  · rename_i hne
    refine yields_op ?_ fun r hr => ?_
    · exact List.ne_nil_of_mem (List.mem_map_of_mem (List.mem_permutations.2 (.refl _)))
    obtain ⟨l, hl, rfl⟩ := List.mem_map.1 hr
    have hl : l.Perm w.live := List.mem_permutations.1 hl
    refine (adjustAll_yields _ (hl.nodup_iff.2 hw.live) _).bind fun bad w' h => ?_
    obtain ⟨hbad, hwin, hview⟩ := h
    refine (yields_op_of_eq rfl).2 ?_
    rw [yields_ret]
    refine ⟨by simp [hne], ?_, fun x => ?_, ?_⟩
    · rw [hbad, hl.any_eq]
      simp only [World.overflows, World.sendWindow, ne_eq, Ne.symm hne, not_false_eq_true,
        decide_true, Bool.true_and, Option.any_map]
      rfl
    · refine (hwin x).trans ?_
      simp only [World.retuned, hl.mem_iff, ne_eq, Ne.symm hne, not_false_eq_true, true_and]
      rfl
    · simp only [World.applyView, Prod.mk.injEq] at hview ⊢
      obtain ⟨-, h⟩ := hview
      exact ⟨htmu.symm, h⟩

theorem applyPeerSettings_yields (hw : Idle w) (hs : s.findSome? refusal = none) :
    Yields (machine env) i (applyPeerSettings s) w fun r w' =>
      outcomeCode r = refusedWith (if w.overflows (w.published s).initialWindow then
        some .flowControlError else none) ∧
      (∀ x, w'.sendWindow x = w.retuned (w.published s).initialWindow x) ∧
      w'.applyView = (w.published s).applyView := by
  simp only [applyPeerSettings, validate_eq_ok hs, Prog.bind_eq, Prog.lift_bind, Prog.pure_eq]
  refine (yields_op_of_eq (r := ((), { w with wmu := some i })) ?_).2 ?_
  · simp [Op.exec, Op.whenFree, hw.wmu]
  refine (resizeEncoder_yields s _).bind fun _ w₁ h₁ => ?_
  subst h₁
  refine (yields_op_of_eq (r := ((), w)) ?_).2 ?_
  · have := hw.wmu
    cases w
    cases this
    rfl
  refine (applyInitialWindow_yields hw s).bind fun r w₂ h => ?_
  obtain ⟨hchanged, hbad, hwin, hview⟩ := h
  obtain ⟨changed, bad⟩ := r
  cases bad with
  | some x =>
    rw [yields_ret]
    refine ⟨?_, hwin, hview⟩
    rw [← hbad]
    rfl
  | none =>
    have hover : w.overflows (w.published s).initialWindow = false := by
      rw [← hbad]
      rfl
    have hfc : w₂.fcOutMu = none := by
      simp only [World.applyView, Prod.mk.injEq] at hview
      exact hview.2.2.1.trans hw.fcOutMu
    cases changed with
    | false =>
      rw [yields_ret, hover]
      exact ⟨rfl, hwin, hview⟩
    | true =>
      refine (yields_op_of_eq (r := ((), { w₂ with fcOutMu := some i })) ?_).2 ?_
      · simp [Op.exec, Op.whenFree, hfc]
      refine (yields_op_of_eq rfl).2 ((yields_op_of_eq rfl).2 ?_)
      rw [yields_ret, hover]
      obtain ⟨hv, hx⟩ := fcWakeAll_view { w₂ with fcOutMu := some i }
      refine ⟨rfl, fun x => (hx x).trans (hwin x), ?_⟩
      simp only [World.applyView, Prod.mk.injEq] at hv hview ⊢
      obtain ⟨h₁, h₂, -, h₄, h₅, h₆, h₇, h₈, h₉⟩ := hv
      obtain ⟨k₁, k₂, -, k₄, k₅, k₆, k₇, k₈, k₉⟩ := hview
      exact ⟨h₁.trans k₁, h₂.trans k₂, hw.fcOutMu.symm, h₄.trans k₄, h₅.trans k₅, h₆.trans k₆,
        h₇.trans k₇, h₈.trans k₈, h₉.trans k₉⟩

theorem applyPeerSettings_refused {c : ErrCode} (hs : s.findSome? refusal = some c) (w : World) :
    Yields (machine env) i (applyPeerSettings s) w fun r w' =>
      outcomeCode r = refusedWith (some c) ∧ w' = w := by
  have hcode := outcomeCode_validate s
  rw [hs] at hcode
  unfold applyPeerSettings
  cases hv : validatePeerSettings s with
  | ok =>
    rw [hv] at hcode
    cases hcode
  | error e =>
    rw [hv] at hcode
    simp only [Prog.pure_eq, yields_ret]
    exact ⟨hcode, trivial⟩

def World.refusesWith (w : World) (s : SettingsParams) : Option ErrCode :=
  (s.findSome? refusal).or
    (if w.overflows (w.published s).initialWindow then some .flowControlError else none)

theorem onSettings_yields (hw : Idle w) (s : SettingsParams) :
    Yields (machine env) i (onSettings false s) w fun r w' =>
      outcomeCode r = refusedWith (w.refusesWith s) ∧ (w.refusesWith s = none →
        (∀ x, w'.sendWindow x = w.retuned (w.published s).initialWindow x) ∧
        w'.applyView = (w.published s).applyView) := by
  simp only [onSettings, guardHeaderBlock, Prog.bind_eq, Prog.lift_bind, Prog.pure_eq]
  refine (yields_op_of_eq rfl).2 ?_
  simp only [hw.pending, ne_eq, not_true_eq_false, if_false, Bool.false_eq_true]
  cases hs : s.findSome? refusal with
  | some c =>
    refine (applyPeerSettings_refused hs w).bind fun r w' h => ?_
    obtain ⟨hr, -⟩ := h
    cases r with
    | ok => cases hr
    | error e =>
      rw [yields_ret]
      simpa [World.refusesWith, hs] using hr
  | none =>
    refine (applyPeerSettings_yields hw hs).bind fun r w' h => ?_
    obtain ⟨hr, hwin, hview⟩ := h
    have hcode : w.refusesWith s = if w.overflows (w.published s).initialWindow then
        some .flowControlError else none := by
      simp [World.refusesWith, hs]
    rw [← hcode] at hr
    cases r with
    | error e =>
      rw [yields_ret]
      refine ⟨hr, fun h => ?_⟩
      rw [h] at hr
      cases hr
    | ok =>
      have hview' := hview
      simp only [World.applyView, Prod.mk.injEq] at hview'
      obtain ⟨h₁, h₂, h₃, h₄, h₅, h₆, h₇, h₈, h₉⟩ := hview'
      have h₂ : w'.wmu = none := h₂.trans hw.wmu
      have h₄ : w'.closed = false := h₄.trans hw.closed
      have h₅ : w'.down = false := h₅.trans hw.down
      simp only [writeSettingsAck, writeUnlessClosed, writeLocked, Prog.bind_eq, Prog.lift_bind,
        Prog.pure_eq]
      refine (yields_op_of_eq (r := (false, w')) ?_).2 ?_
      · simp [Op.exec, h₄]
      refine (yields_op_of_eq (r := ((), { w' with wmu := some i })) ?_).2 ?_
      · simp [Op.exec, Op.whenFree, h₂]
      refine (yields_op_of_eq (r := (true,
        { w' with wmu := some i, wire := w'.wire ++ [.settingsAck] })) ?_).2 ?_
      · simp [Op.exec, h₅]
      refine (yields_op_of_eq rfl).2 ?_
      rw [yields_ret]
      refine ⟨hr, fun _ => ⟨hwin, ?_⟩⟩
      rw [← hview]
      simp only [World.applyView, h₂]

def World.recorded (w : World) (s : SettingsParams) : World :=
  { w with recorder := { w.recorder with peer := setPeerSettings w.recorder.peer s, peerSeen := true } }

theorem recorderSettings_yields (hw : Idle w) (s : SettingsParams) :
    Yields (machine env) i (recorderSettings false s) w fun r w' =>
      let peer := setPeerSettings w.recorder.peer s
      outcomeCode r = refusedWith (w.refusesWith peer) ∧ (w.refusesWith peer = none →
        (∀ x, w'.sendWindow x = w.retuned (w.published peer).initialWindow x) ∧
        w'.applyView = ((w.recorded s).published peer).applyView) := by
  simp only [recorderSettings, Prog.bind_eq, Prog.lift_bind, Prog.pure_eq, Bool.false_eq_true,
    if_false]
  refine (yields_op_of_eq rfl).2 ((yields_op_of_eq rfl).2 ?_)
  have hw₁ : Idle (w.recorded s) := hw.of_view ⟨rfl, rfl, rfl, rfl, rfl, rfl, rfl⟩
  change Yields _ _ _ (w.recorded s) _
  generalize hpeer : setPeerSettings w.recorder.peer s = peer
  cases hs : peer.findSome? refusal with
  | some c =>
    refine (applyPeerSettings_refused hs _).bind fun r w' h => ?_
    obtain ⟨hr, -⟩ := h
    cases r with
    | ok => cases hr
    | error e =>
      rw [yields_ret]
      simpa [World.refusesWith, hs] using hr
  | none =>
    refine (applyPeerSettings_yields hw₁ hs).bind fun r w' h => ?_
    obtain ⟨hr, hwin, hview⟩ := h
    have hcode : w.refusesWith peer = if (w.recorded s).overflows
        ((w.recorded s).published peer).initialWindow then some .flowControlError else none := by
      simp only [World.refusesWith, hs, Option.none_or]
      rfl
    rw [← hcode] at hr
    cases r with
    | error e =>
      rw [yields_ret]
      refine ⟨hr, fun h => ?_⟩
      rw [h] at hr
      cases hr
    | ok =>
      have hdown : w'.down = false := by
        simp only [World.applyView, Prod.mk.injEq] at hview
        exact hview.2.2.2.2.1.trans hw.down
      refine (yields_op_of_eq (r := (true, { w' with wire := w'.wire ++ [.settingsAck] })) ?_).2 ?_
      · simp [Op.exec, hdown]
      rw [yields_ret]
      exact ⟨hr, fun _ => ⟨hwin, hview⟩⟩

end Apply

/-- The frames `ss` come in one after the other and `serve` takes them all. -/
inductive Accepts (env : Env) (i : Nat) (serve : SettingsParams → M (Except GoErr Unit))
    (w : World) : List SettingsParams → World → Prop
  | none : Accepts env i serve w [] w
  | next : Accepts env i serve w ss w₁ → (.ok (), w₂) ∈ (serve s).outcomes (machine env) i w₁ →
      Accepts env i serve w (ss ++ [s]) w₂

/-- Two results of a frame that a peer cannot tell apart: the same refusal, or the same settings
and send windows. -/
structure SameOutcome (o₁ o₂ : Except GoErr Unit × World) : Prop where
  code : outcomeCode o₁.1 = outcomeCode o₂.1
  settings : o₁.1 = .ok () → ∀ id d,
    settingValue o₁.2.peerSettings id d = settingValue o₂.2.peerSettings id d
  windows : o₁.1 = .ok () → ∀ x, o₁.2.sendWindow x = o₂.2.sendWindow x

structure World.Fresh (w : World) : Prop extends Idle w where
  settings : w.peerSettings = []
  recorder : w.recorder.peer = []

section Agree

variable {env : Env} {i : Nat} {w w₁ w₂ : World} {prev : List SettingsParams} {s : SettingsParams}

structure Alike (prev : List SettingsParams) (w₁ w₂ : World) : Prop where
  idle₁ : Idle w₁
  idle₂ : Idle w₂
  recorder : w₁.recorder.peer = setPeerSettings [] prev.flatten
  range : w₁.recorder.peer.findSome? refusal = none
  canonical₁ : Canonical w₁.peerSettings
  canonical₂ : Canonical w₂.peerSettings
  settings₁ : ∀ id d, settingValue w₁.peerSettings id d =
    if id.known then (lastValue id prev.flatten).getD d else d
  settings₂ : ∀ id d, settingValue w₂.peerSettings id d =
    if id.known then (lastValue id prev.flatten).getD d else d
  live : w₁.live = w₂.live
  windows : ∀ x, w₁.sendWindow x = w₂.sendWindow x

theorem World.Fresh.alike (h : w.Fresh) : Alike [] w w where
  idle₁ := h.toIdle
  idle₂ := h.toIdle
  recorder := h.recorder
  range := by simp [h.recorder]
  canonical₁ := h.settings ▸ canonical_nil
  canonical₂ := h.settings ▸ canonical_nil
  settings₁ id d := by simp [h.settings, settingValue, lastValue]
  settings₂ id d := by simp [h.settings, settingValue, lastValue]
  live := rfl
  windows _ := rfl

theorem lastValue_append (s t : SettingsParams) (id : SettingID) :
    lastValue id (s ++ t) = (lastValue id t).or (lastValue id s) := by
  induction t using List.reverseRecOn with
  | nil => simp [lastValue]
  | append_singleton t p ih =>
    rw [← List.append_assoc, lastValue_concat, lastValue_concat, ih]
    split <;> simp

theorem settingValue_published {acc : SettingsParams} (hc : Canonical w.peerSettings)
    (h : ∀ id d, settingValue w.peerSettings id d =
      if id.known then (lastValue id prev.flatten).getD d else d)
    (hacc : ∀ id, id.known = true → (lastValue id acc).or (lastValue id prev.flatten) =
      lastValue id (prev ++ [s]).flatten) (id : SettingID) (d : Nat) :
    settingValue (w.published acc).peerSettings id d =
      if id.known then (lastValue id (prev ++ [s]).flatten).getD d else d := by
  simp only [World.published, settingValue_setPeerSettings_eq hc, h]
  split
  · rename_i hk
    rw [← hacc id hk]
    cases lastValue id acc <;> simp
  · rfl

theorem eq_of_getD {a b : Option Nat} (h : ∀ d, a.getD d = b.getD d) : a = b := by
  cases a with
  | none =>
    cases b with
    | none => rfl
    | some v => exact absurd (h (v + 1)) (by simp)
  | some v =>
    cases b with
    | none => exact absurd (h (v + 1)) (by simp)
    | some v' => simpa using h 0

theorem Canonical.settingValue_eq {ps : SettingsParams} (h : Canonical ps) (id : SettingID)
    (d : Nat) : settingValue ps id d = (lastValue id ps).getD d := by
  induction ps with
  | nil => rfl
  | cons p ps ih =>
    obtain ⟨hnodup, hknown⟩ := h
    rw [List.map_cons, List.nodup_cons] at hnodup
    have ih := ih ⟨hnodup.2, fun q hq => hknown q (by simp [hq])⟩
    by_cases hp : p.1 = id
    · have hnone : lastValue id ps = none := lastValue_eq_none.2 (hp ▸ hnodup.1)
      rw [← List.singleton_append, lastValue_append, hnone]
      simp [settingValue, lastValue, hp]
    · rw [← List.singleton_append, lastValue_append]
      simpa [settingValue, lastValue, hp] using ih

theorem lastValue_setPeerSettings {id : SettingID} (hk : id.known = true) (t : SettingsParams) :
    lastValue id (setPeerSettings [] t) = lastValue id t := by
  refine eq_of_getD fun d => ?_
  rw [← (canonical_nil.setPeerSettings t).settingValue_eq, settingValue_setPeerSettings_eq canonical_nil,
    if_pos hk]
  rfl

variable {w₁' w₂' : World}

theorem Alike.peer (h : Alike prev w₁ w₂) (s : SettingsParams) :
    setPeerSettings w₁.recorder.peer s = setPeerSettings [] (prev ++ [s]).flatten := by
  rw [h.recorder]
  simp [setPeerSettings]

theorem Alike.settings_published₁ (h : Alike prev w₁ w₂) (s : SettingsParams) (id : SettingID)
    (d : Nat) :
    settingValue (w₁.published (setPeerSettings w₁.recorder.peer s)).peerSettings id d =
      if id.known then (lastValue id (prev ++ [s]).flatten).getD d else d := by
  refine settingValue_published h.canonical₁ h.settings₁ (fun id hk => ?_) id d
  rw [h.peer, lastValue_setPeerSettings hk, List.flatten_append, lastValue_append]
  cases lastValue id [s].flatten <;> simp

theorem Alike.settings_published₂ (h : Alike prev w₁ w₂) (s : SettingsParams) (id : SettingID)
    (d : Nat) : settingValue (w₂.published s).peerSettings id d =
      if id.known then (lastValue id (prev ++ [s]).flatten).getD d else d := by
  refine settingValue_published h.canonical₂ h.settings₂ (fun id _ => ?_) id d
  rw [List.flatten_append, lastValue_append]
  simp

theorem Alike.initialWindow (h : Alike prev w₁ w₂) : w₁.initialWindow = w₂.initialWindow := by
  rw [World.initialWindow, h.settings₁, World.initialWindow, h.settings₂]

theorem Alike.published_initialWindow (h : Alike prev w₁ w₂) (s : SettingsParams) :
    (w₁.published (setPeerSettings w₁.recorder.peer s)).initialWindow =
      (w₂.published s).initialWindow := by
  rw [World.initialWindow, h.settings_published₁, World.initialWindow, h.settings_published₂]

theorem Alike.overflows (h : Alike prev w₁ w₂) (n : Nat) : w₁.overflows n = w₂.overflows n := by
  have hwin (w : World) (x : Nat) (delta : Int) :
      ((w.str x).any fun s => s.sendWindow + delta > maxWindow) =
        (w.sendWindow x).any fun v => v + delta > maxWindow := by
    simp [World.sendWindow, Option.any_map]
  simp only [World.overflows, hwin, h.windows, h.live, h.initialWindow]

theorem Alike.retuned (h : Alike prev w₁ w₂) (n x : Nat) : w₁.retuned n x = w₂.retuned n x := by
  simp only [World.retuned, h.windows, h.live, h.initialWindow]

/-- A frame that both paths take leaves them alike. -/
theorem Alike.next (h : Alike prev w₁ w₂)
    (h₁ : (.ok (), w₁') ∈ (recorderSettings false s).outcomes (machine env) i w₁)
    (h₂ : (.ok (), w₂') ∈ (onSettings false s).outcomes (machine env) i w₂) :
    Alike (prev ++ [s]) w₁' w₂' := by
  obtain ⟨hc₁, h₁⟩ := (recorderSettings_yields h.idle₁ s).2 _ h₁
  obtain ⟨hc₂, h₂⟩ := (onSettings_yields h.idle₂ s).2 _ h₂
  have hc₁ : w₁.refusesWith (setPeerSettings w₁.recorder.peer s) = none :=
    refusedWith_inj.1 (hc₁.symm.trans (rfl : _ = refusedWith none))
  have hc₂ : w₂.refusesWith s = none :=
    refusedWith_inj.1 (hc₂.symm.trans (rfl : _ = refusedWith none))
  obtain ⟨hwin₁, hview₁⟩ := h₁ hc₁
  obtain ⟨hwin₂, hview₂⟩ := h₂ hc₂
  simp only [World.applyView, Prod.mk.injEq] at hview₁ hview₂
  obtain ⟨a₁, a₂, a₃, a₄, a₅, a₆, a₇, a₈, a₉⟩ := hview₁
  obtain ⟨b₁, b₂, b₃, b₄, b₅, b₆, b₇, b₈, b₉⟩ := hview₂
  refine {
    idle₁ := h.idle₁.of_view ⟨a₁, a₂, a₃, a₄, a₅, a₆, a₇⟩
    idle₂ := h.idle₂.of_view ⟨b₁, b₂, b₃, b₄, b₅, b₆, b₇⟩
    recorder := ?_
    range := ?_
    canonical₁ := a₉ ▸ h.canonical₁.setPeerSettings _
    canonical₂ := b₉ ▸ h.canonical₂.setPeerSettings _
    settings₁ := fun id d => ?_
    settings₂ := fun id d => ?_
    live := a₇.trans (h.live.trans b₇.symm)
    windows := fun x => ?_ }
  · rw [a₈]
    exact h.peer s
  · rw [a₈]
    exact (Option.or_eq_none_iff.1 hc₁).1
  · rw [a₉]
    exact h.settings_published₁ s id d
  · rw [b₉]
    exact h.settings_published₂ s id d
  · rw [hwin₁, hwin₂, h.published_initialWindow, h.retuned]

theorem World.Fresh.accepts (hw : w.Fresh)
    (h₁ : Accepts env i (recorderSettings false) w prev w₁)
    (h₂ : Accepts env i (onSettings false) w prev w₂) : Alike prev w₁ w₂ := by
  induction h₁ generalizing w₂ with
  | none =>
    generalize hnil : ([] : List SettingsParams) = l at h₂
    cases h₂ with
    | none => exact hw.alike
    | next => simp at hnil
  | next _ ho₁ ih =>
    generalize hl : _ ++ [_] = l at h₂
    cases h₂ with
    | none => simp at hl
    | next h₂ ho₂ =>
      obtain ⟨rfl, rfl⟩ := List.append_singleton_inj.1 hl
      exact (ih h₂).next ho₁ ho₂

theorem settled_subset (prev : List SettingsParams) (s : SettingsParams) : settled prev s ⊆ s := by
  intro p hp
  obtain ⟨id, -, hp⟩ := List.mem_filterMap.1 hp
  obtain ⟨v, hv, rfl⟩ := Option.map_eq_some_iff.1 hp
  obtain ⟨q, hq, rfl⟩ := Option.map_eq_some_iff.1 hv
  have hq := List.mem_of_getLast? hq
  obtain ⟨hq, hid⟩ := List.mem_filter.1 hq
  have hid : q.1 = id := of_decide_eq_true hid
  exact hid ▸ hq

theorem Alike.refusesWith_iff (h : Alike prev w₁ w₂) (s : SettingsParams) :
    w₁.refusesWith (setPeerSettings w₁.recorder.peer s) = w₂.refusesWith s ↔
      ∀ c, s.findSome? refusal = some c → ((settled prev s).findSome? refusal).or
        (if w₂.overflows ((lastValue .initialWindowSize s).getD w₂.initialWindow) then
          some .flowControlError else none) = some c := by
  have hinit : (w₂.published s).initialWindow =
      (lastValue .initialWindowSize s).getD w₂.initialWindow := by
    simp only [World.published, World.initialWindow,
      settingValue_setPeerSettings_eq h.canonical₂]
    rfl
  have hrange := h.range
  rw [h.recorder] at hrange
  unfold World.refusesWith
  rw [h.published_initialWindow, h.overflows, hinit, h.recorder, refusal_setPeerSettings hrange]
  cases hs : s.findSome? refusal with
  | some c => simp
  | none =>
    have hset : (settled prev s).findSome? refusal = none := by
      rw [List.findSome?_eq_none_iff] at hs ⊢
      exact fun p hp => hs p (settled_subset prev s hp)
    simp [hset]

end Agree

/-- After frames that both paths have taken, both hold the last value of each of the six known
identifiers and the same windows; and both do the same with the next frame if its first value
out of range, when it has one, is refused with the code that the first such value among those it
leaves behind has, or with the code of an overflow. -/
theorem settings_paths_agree (env : Env) (i : Nat) {w w₁ w₂ : World} (hw : w.Fresh)
    {prev : List SettingsParams} (h₁ : Accepts env i (recorderSettings false) w prev w₁)
    (h₂ : Accepts env i (onSettings false) w prev w₂) :
    (∀ id d, settingValue w₁.peerSettings id d = settingValue w₂.peerSettings id d ∧
      settingValue w₁.peerSettings id d =
        if id.known then (lastValue id prev.flatten).getD d else d) ∧
    (∀ x, w₁.sendWindow x = w₂.sendWindow x) ∧
    ∀ s, (recorderSettings false s).outcomes (machine env) i w₁ ≠ [] ∧
      (onSettings false s).outcomes (machine env) i w₂ ≠ [] ∧
      ((∀ o₁ ∈ (recorderSettings false s).outcomes (machine env) i w₁,
        ∀ o₂ ∈ (onSettings false s).outcomes (machine env) i w₂, SameOutcome o₁ o₂) ↔
      ∀ c, s.findSome? refusal = some c → ((settled prev s).findSome? refusal).or
        (if w₂.overflows ((lastValue .initialWindowSize s).getD w₂.initialWindow) then
          some .flowControlError else none) = some c) := by
  have h := hw.accepts h₁ h₂
  refine ⟨fun id d => ⟨(h.settings₁ id d).trans (h.settings₂ id d).symm, h.settings₁ id d⟩,
    h.windows, fun s => ?_⟩
  have hy₁ : Yields (machine env) i (recorderSettings false s) w₁ _ :=
    recorderSettings_yields h.idle₁ s
  have hy₂ : Yields (machine env) i (onSettings false s) w₂ _ := onSettings_yields h.idle₂ s
  refine ⟨hy₁.1, hy₂.1, ?_⟩
  rw [← h.refusesWith_iff]
  constructor
  · intro hsame
    obtain ⟨o₁, ho₁⟩ := List.exists_mem_of_ne_nil _ hy₁.1
    obtain ⟨o₂, ho₂⟩ := List.exists_mem_of_ne_nil _ hy₂.1
    have hcode := (hsame o₁ ho₁ o₂ ho₂).code
    rw [(hy₁.2 o₁ ho₁).1, (hy₂.2 o₂ ho₂).1] at hcode
    exact refusedWith_inj.1 hcode
  · intro heq o₁ ho₁ o₂ ho₂
    obtain ⟨hc₁, hk₁⟩ := hy₁.2 o₁ ho₁
    obtain ⟨hc₂, hk₂⟩ := hy₂.2 o₂ ho₂
    have htaken : o₁.1 = .ok () → w₁.refusesWith (setPeerSettings w₁.recorder.peer s) = none := by
      intro hok
      rw [hok] at hc₁
      exact refusedWith_inj.1 (hc₁.symm.trans (rfl : _ = refusedWith none))
    refine ⟨by rw [hc₁, hc₂, heq], fun hok id d => ?_, fun hok x => ?_⟩
    · obtain ⟨-, hv₁⟩ := hk₁ (htaken hok)
      obtain ⟨-, hv₂⟩ := hk₂ (heq ▸ htaken hok)
      simp only [World.applyView, Prod.mk.injEq] at hv₁ hv₂
      rw [hv₁.2.2.2.2.2.2.2.2, hv₂.2.2.2.2.2.2.2.2]
      exact (h.settings_published₁ s id d).trans (h.settings_published₂ s id d).symm
    · obtain ⟨hx₁, -⟩ := hk₁ (htaken hok)
      obtain ⟨hx₂, -⟩ := hk₂ (heq ▸ htaken hok)
      rw [hx₁, hx₂, h.published_initialWindow, h.retuned]

theorem fresh_init (env : Env) : (World.init env).Fresh :=
  ⟨⟨rfl, rfl, rfl, rfl, rfl, rfl, .nil⟩, rfl, rfl⟩

theorem settings_paths_agree_first :
    (World.init getRequests).Fresh ∧
    ∀ o₁ ∈ (recorderSettings false [(.enablePush, 0)]).outcomes (machine getRequests) 0
        (World.init getRequests),
      ∀ o₂ ∈ (onSettings false [(.enablePush, 0)]).outcomes (machine getRequests) 0
        (World.init getRequests), SameOutcome o₁ o₂ :=
  ⟨fresh_init _, ((settings_paths_agree getRequests 0 (fresh_init _) .none .none).2.2 _).2.2.2
    (fun _ h => nomatch h)⟩

/-- A value out of range that the same frame overwrites passes in the handshake, and closes the
connection later on. -/
theorem overwritten_setting_passes_in_handshake :
    ((recorderSettings false [(.enablePush, 2), (.enablePush, 0)]).outcomes (machine getRequests) 0
      (World.init getRequests)).map (fun o => outcomeCode o.1) = [.ok ()] ∧
    ((onSettings false [(.enablePush, 2), (.enablePush, 0)]).outcomes (machine getRequests) 0
      (World.init getRequests)).map (fun o => outcomeCode o.1) = [.error (some .protocolError)] :=
  ⟨rfl, rfl⟩

end PoseidonServer.Conn
