import Mathlib.Algebra.Group.Pi.Basic
import Mathlib.Algebra.Group.Prod
import PoseidonServer.Conn.Quiet
import PoseidonServer.Conn.Table

/-! Outbound flow control: what every send window counts, what goroutines have in hand, and the
steps that leave both alone. -/

namespace PoseidonServer.Conn

open Concurrent

structure Counts (saturated : Bool) (window value : Int) : Prop where
  le : window ≤ value
  eq : saturated = false → window = value

def Outbound.octetsOn (x : Nat) : Outbound → Nat
  | .data y _ p => if y = x then p.length else 0
  | _ => 0

def Outbound.octets : Outbound → Nat
  | .data _ _ p => p.length
  | _ => 0

namespace World

variable (w : World)

def sentOn (x : Nat) : Nat := (w.wire.map (Outbound.octetsOn x)).sum

def sent : Nat := (w.wire.map Outbound.octets).sum

def NoStale : Prop := ∀ x s, w.str x = some s → s.stale = false

def ground := (w.reader, w.readerDone, w.tmu, w.live, w.peerSettings, w.wire)

end World

def Stream.levelView (s : Stream) := (s.base, s.stale)

theorem exists_of_map_eq {V : Stream → α} {o o' : Option Stream} {s' : Stream}
    (h : o'.map V = o.map V) (hs : o' = some s') : ∃ s, o = some s ∧ V s' = V s := by
  subst hs
  cases o with
  | none => cases h
  | some s => exact ⟨s, rfl, Option.some.inj h⟩

theorem map_eq_of_map_eq {V : Stream → α} {U : Stream → β} {o o' : Option Stream}
    (h : o'.map V = o.map V) (hU : ∀ s s', V s' = V s → U s' = U s) : o'.map U = o.map U := by
  cases o' with
  | none =>
    cases o with
    | none => rfl
    | some s => cases h
  | some s' =>
    obtain ⟨s, rfl, hs⟩ := exists_of_map_eq h rfl
    exact congrArg some (hU s s' hs)

namespace SendCredit

/-- What a goroutine has taken and neither written nor given back: on each stream, and on the
connection. -/
abbrev Share := (Nat → Nat) × Nat

structure Window (s : Stream) : Prop where
  counts : Counts s.saturated s.sendWindow (s.base + s.granted - s.debited)
  upper : s.sendWindow ≤ maxWindow
  lower : s.base - maxWindow ≤ s.sendWindow
  base : 0 ≤ s.base ∧ s.base ≤ maxWindow

structure ConnWindow (w : World) : Prop where
  counts : Counts w.connSaturated w.peerConnSendWindow
    (connInitialRecvWindow + w.connGranted - w.connDebited)
  range : 0 ≤ w.peerConnSendWindow ∧ w.peerConnSendWindow ≤ maxWindow

def Level (v : Int) (s : Stream) : Prop := if s.stale then s.base ≤ v else s.base = v

structure Inv (w : World) (r : Share) : Prop where
  initial : (w.initialWindow : Int) ≤ maxWindow
  window : ∀ x s, w.str x = some s → Window s
  conn : ConnWindow w
  level : w.tmu = none → ∀ x ∈ w.live, ∀ s, w.str x = some s → Level w.initialWindow s
  noStale : w.reader = none → w.readerDone = false → w.NoStale
  sentOn : ∀ x, (w.sentOn x + r.1 x : Int) ≤ ((w.str x).map (·.debited)).getD 0
  sent : (w.sent + r.2 : Int) ≤ w.connDebited

/-- What the others leave to the goroutine that reads, and to the one that changes SETTINGS. -/
structure Rely (i : Nat) (w w' : World) : Prop where
  reader : w.reader = some i → w'.reader = some i ∧ (w.NoStale → w'.NoStale)
  table : w.tmu = some i → w'.tmu = some i ∧ w'.live = w.live ∧ w'.peerSettings = w.peerSettings ∧
    ∀ x, (w'.str x).map (·.levelView) = (w.str x).map (·.levelView)

theorem Rely.refl (i : Nat) (w : World) : Rely i w w :=
  ⟨fun h => ⟨h, id⟩, fun h => ⟨h, rfl, rfl, fun _ => rfl⟩⟩

theorem Rely.trans {i : Nat} {w₁ w₂ w₃ : World} (h₁ : Rely i w₁ w₂) (h₂ : Rely i w₂ w₃) :
    Rely i w₁ w₃ := by
  refine ⟨fun h => ?_, fun h => ?_⟩
  · obtain ⟨hr₁, hn₁⟩ := h₁.reader h
    obtain ⟨hr₂, hn₂⟩ := h₂.reader hr₁
    exact ⟨hr₂, fun h => hn₂ (hn₁ h)⟩
  · obtain ⟨ht₁, hl₁, hp₁, hs₁⟩ := h₁.table h
    obtain ⟨ht₂, hl₂, hp₂, hs₂⟩ := h₂.table ht₁
    exact ⟨ht₂, hl₂.trans hl₁, hp₂.trans hp₁, fun x => (hs₂ x).trans (hs₁ x)⟩

def Asks (w : World) : Op β → Prop
  | .adjustWindow x delta => x ∈ w.live ∧ ∀ s, w.str x = some s → s.base + delta ≤ w.initialWindow
  | _ => True

def spec (env : Env) (G : Guard Op World Call) : Spec (machine env) (tabled env G) Share where
  inv := Inv
  rely := Rely
  rely_refl := .refl
  rely_trans := .trans
  pre _ w _ o := Asks w o

variable {env : Env} {G : Guard Op World Call} {i j x : Nat} {w w' : World} {r r' : Share}
  {s s' : Stream}

theorem Window.congr (h : Window s) (hs : s'.sendView = s.sendView) : Window s' := by
  simp only [Stream.sendView, Prod.mk.injEq] at hs
  obtain ⟨h₁, h₂, h₃, h₄, h₅, -⟩ := hs
  obtain ⟨hc, hu, hl, hb⟩ := h
  refine ⟨?_, by rwa [h₁], by rwa [h₁, h₂], by rwa [h₂]⟩
  rw [h₁, h₂, h₃, h₄, h₅]
  exact hc

theorem ConnWindow.congr (h : ConnWindow w) (hw : w'.connSendView = w.connSendView) :
    ConnWindow w' := by
  simp only [World.connSendView, Prod.mk.injEq] at hw
  obtain ⟨h₁, h₂, h₃, h₄⟩ := hw
  obtain ⟨hc, hr⟩ := h
  refine ⟨?_, by rwa [h₁]⟩
  rw [h₁, h₂, h₃, h₄]
  exact hc

theorem Level.congr {v : Int} (h : Level v s) (hs : s'.levelView = s.levelView) : Level v s' := by
  simp only [Stream.levelView, Prod.mk.injEq] at hs
  unfold Level at h ⊢
  rwa [hs.1, hs.2]

theorem level_of_send (h : s'.sendView = s.sendView) : s'.levelView = s.levelView := by
  simp only [Stream.sendView, Stream.levelView, Prod.mk.injEq] at h ⊢
  exact ⟨h.2.1, h.2.2.2.2.2⟩

structure Calm (w w' : World) : Prop where
  turn : w'.reader = w.reader ∧ w'.readerDone = w.readerDone
  tmu : w'.tmu = w.tmu
  settings : w'.peerSettings = w.peerSettings
  live : (∀ x ∈ w'.live, x ∈ w.live) ∧ (w.tmu ≠ none → w'.live = w.live)
  sentOn : ∀ x, w'.sentOn x = w.sentOn x
  sent : w'.sent = w.sent
  conn : w'.connSendView = w.connSendView
  str : ∀ x, (w'.str x).map (·.sendView) = (w.str x).map (·.sendView)

theorem Calm.inv (hw : Calm w w') (h : Inv w r) : Inv w' r := by
  have hinit : w'.initialWindow = w.initialWindow := by
    rw [World.initialWindow, World.initialWindow, hw.settings]
  constructor
  case initial => rw [hinit]; exact h.initial
  case window =>
    intro x s' hs'
    obtain ⟨s, hs, hv⟩ := exists_of_map_eq (hw.str x) hs'
    exact (h.window x s hs).congr hv
  case conn => exact h.conn.congr hw.conn
  case level =>
    intro ht x hx s' hs'
    obtain ⟨s, hs, hv⟩ := exists_of_map_eq (hw.str x) hs'
    rw [hinit]
    exact (h.level (hw.tmu ▸ ht) x (hw.live.1 x hx) s hs).congr (level_of_send hv)
  case noStale =>
    intro hr hd x s' hs'
    obtain ⟨s, hs, hv⟩ := exists_of_map_eq (hw.str x) hs'
    have hstale := h.noStale (hw.turn.1 ▸ hr) (hw.turn.2 ▸ hd) x s hs
    simp only [Stream.sendView, Prod.mk.injEq] at hv
    rw [hv.2.2.2.2.2, hstale]
  case sentOn =>
    intro x
    have hdebited : (w'.str x).map (·.debited) = (w.str x).map (·.debited) :=
      map_eq_of_map_eq (hw.str x) fun _ _ h => by
        simp only [Stream.sendView, Prod.mk.injEq] at h
        exact h.2.2.2.1
    rw [hw.sentOn, hdebited]
    exact h.sentOn x
  case sent =>
    have := hw.conn
    simp only [World.connSendView, Prod.mk.injEq] at this
    rw [hw.sent, this.2.2.1]
    exact h.sent

theorem Calm.rely (hw : Calm w w') (j : Nat) : Rely j w w' where
  reader hr := by
    refine ⟨hw.turn.1.trans hr, fun h x s' hs' => ?_⟩
    obtain ⟨s, hs, hv⟩ := exists_of_map_eq (hw.str x) hs'
    simp only [Stream.sendView, Prod.mk.injEq] at hv
    rw [hv.2.2.2.2.2, h x s hs]
  table ht := by
    exact ⟨hw.tmu.trans ht, hw.live.2 (by simp [ht]), hw.settings, fun x =>
      map_eq_of_map_eq (hw.str x) fun _ _ => level_of_send⟩

theorem ground_eq (h : w'.ground = w.ground) : w'.reader = w.reader ∧ w'.readerDone = w.readerDone ∧
    w'.tmu = w.tmu ∧ w'.live = w.live ∧ w'.peerSettings = w.peerSettings ∧
      w'.initialWindow = w.initialWindow ∧ (∀ x, w'.sentOn x = w.sentOn x) ∧ w'.sent = w.sent := by
  simp only [World.ground, Prod.mk.injEq] at h
  obtain ⟨h₁, h₂, h₃, h₄, h₅, h₆⟩ := h
  refine ⟨h₁, h₂, h₃, h₄, h₅, ?_, fun x => ?_, ?_⟩
  · rw [World.initialWindow, World.initialWindow, h₅]
  · rw [World.sentOn, World.sentOn, h₆]
  · rw [World.sent, World.sent, h₆]

theorem str_update {t : Stream} {y : Nat} (hstr : w'.str = Function.update w.str x (some s'))
    (h : w'.str y = some t) : y = x ∧ t = s' ∨ y ≠ x ∧ w.str y = some t := by
  rw [hstr] at h
  by_cases hy : y = x
  · subst hy
    exact .inl ⟨rfl, Option.some.inj (h.symm.trans (Function.update_self ..))⟩
  · exact .inr ⟨hy, (Function.update_of_ne hy ..).symm.trans h⟩

theorem Inv.set (h : Inv w r) (hs : w.str x = some s)
    (hstr : w'.str = Function.update w.str x (some s')) (hg : w'.ground = w.ground)
    (hlevel : w.tmu = none → s'.levelView = s.levelView)
    (hstale : w.reader = none → s'.stale = s.stale) (hwin : Window s') (hconn : ConnWindow w')
    (hr : ∀ y, y ≠ x → r'.1 y = r.1 y) (hx : (w.sentOn x + r'.1 x : Int) ≤ s'.debited)
    (hsent : (w.sent + r'.2 : Int) ≤ w'.connDebited) : Inv w' r' := by
  obtain ⟨hreader, hdone, htmu, hlive, -, hinit, hon, hall⟩ := ground_eq hg
  constructor
  case initial => rw [hinit]; exact h.initial
  case window =>
    intro y t hyt
    obtain ⟨rfl, rfl⟩ | ⟨-, hyt⟩ := str_update hstr hyt
    · exact hwin
    · exact h.window y t hyt
  case conn => exact hconn
  case level =>
    intro ht y hy t hyt
    rw [htmu] at ht
    rw [hlive] at hy
    rw [hinit]
    obtain ⟨rfl, rfl⟩ | ⟨-, hyt⟩ := str_update hstr hyt
    · exact (h.level ht y hy s hs).congr (hlevel ht)
    · exact h.level ht y hy t hyt
  case noStale =>
    intro hfree hd y t hyt
    rw [hreader] at hfree
    rw [hdone] at hd
    obtain ⟨rfl, rfl⟩ | ⟨-, hyt⟩ := str_update hstr hyt
    · rw [hstale hfree]
      exact h.noStale hfree hd y s hs
    · exact h.noStale hfree hd y t hyt
  case sentOn =>
    intro y
    rw [hon, hstr]
    by_cases hyx : y = x
    · subst hyx
      simpa using hx
    · rw [Function.update_of_ne hyx, hr y hyx]
      exact h.sentOn y
  case sent => rw [hall]; exact hsent

theorem rely_set (hs : w.str x = some s) (hstr : w'.str = Function.update w.str x (some s'))
    (hg : w'.ground = w.ground) (hlevel : s'.levelView = s.levelView) (j : Nat) : Rely j w w' := by
  obtain ⟨hreader, -, htmu, hlive, hps, -⟩ := ground_eq hg
  have hview (y : Nat) : (w'.str y).map (·.levelView) = (w.str y).map (·.levelView) := by
    rw [hstr]
    by_cases hy : y = x
    · subst hy
      simp [hs, hlevel]
    · rw [Function.update_of_ne hy]
  refine ⟨fun hr => ⟨hreader.trans hr, fun h y t ht => ?_⟩,
    fun ht => ⟨htmu.trans ht, hlive, hps, hview⟩⟩
  obtain ⟨t', ht', hv⟩ := exists_of_map_eq (hview y) ht
  simp only [Stream.levelView, Prod.mk.injEq] at hv
  rw [hv.2, h y t' ht']

theorem Inv.create {x : Nat} (h : Inv w r) (hnew : w.str x = none) (ht : w.tmu = none)
    (hstr : w'.str = Function.update w.str x (some s'))
    (hturn : w'.reader = w.reader ∧ w'.readerDone = w.readerDone)
    (hps : w'.peerSettings = w.peerSettings) (hwire : w'.wire = w.wire)
    (hconn : w'.connSendView = w.connSendView) (hlive : ∀ y ∈ w'.live, y ∈ w.live ∨ y = x)
    (hbase : x ∈ w'.live → s'.base = w.initialWindow) (hwin : Window s')
    (hstale : s'.stale = false) (hdebited : s'.debited = 0) : Inv w' r := by
  have hinit : w'.initialWindow = w.initialWindow := by
    rw [World.initialWindow, World.initialWindow, hps]
  constructor
  case initial => rw [hinit]; exact h.initial
  case window =>
    intro y t hyt
    obtain ⟨rfl, rfl⟩ | ⟨-, hyt⟩ := str_update hstr hyt
    · exact hwin
    · exact h.window y t hyt
  case conn => exact h.conn.congr hconn
  case level =>
    intro _ y hy t hyt
    rw [hinit]
    obtain ⟨rfl, rfl⟩ | ⟨hne, hyt⟩ := str_update hstr hyt
    · simp [Level, hstale, hbase hy]
    · exact h.level ht y ((hlive y hy).resolve_right hne) t hyt
  case noStale =>
    intro hr hd y t hyt
    obtain ⟨rfl, rfl⟩ | ⟨-, hyt⟩ := str_update hstr hyt
    · exact hstale
    · exact h.noStale (hturn.1 ▸ hr) (hturn.2 ▸ hd) y t hyt
  case sentOn =>
    intro y
    have hon := h.sentOn y
    rw [hstr, World.sentOn, hwire, ← World.sentOn]
    by_cases hy : y = x
    · subst hy
      simpa [hnew, hdebited] using hon
    · rwa [Function.update_of_ne hy]
  case sent =>
    simp only [World.connSendView, Prod.mk.injEq] at hconn
    rw [World.sent, hwire, ← World.sent, hconn.2.2.1]
    exact h.sent

def ownSteps : List Tag :=
  [.readFrame, .frameDone, .stopReader, .lockTable, .unlockTable, .publishSettings, .adjustWindow,
    .takeSendCredits, .refundConn, .refundStream, .write .data]

theorem Outbound.octets_of_tag {f : Outbound} (h : f.tag ≠ .data) :
    f.octets = 0 ∧ ∀ x, f.octetsOn x = 0 := by
  cases f <;> simp_all [Outbound.octets, Outbound.octetsOn]

theorem calm_of_exec {o : Op β} {b : β}
    (ho : o.tag ∉ [.admitClient, .reservePush, .growStream, .growConn] ++ ownSteps)
    (hb : (b, w') ∈ o.exec env i w) : Calm w w' := by
  have hf := frame_of_tag hb
  have hst := still_of_exec hb
  have hwire : (∀ x, w'.sentOn x = w.sentOn x) ∧ w'.sent = w.sent := by
    obtain hw | ⟨f, ht, hw⟩ := wire_exec hb
    · simp [World.sentOn, World.sent, hw]
    · have hdata : f.tag ≠ .data := fun h => ho (by rw [ht, h]; decide)
      simp [World.sentOn, World.sent, hw, Outbound.octets_of_tag hdata]
  have htable := tableStep_of_exec hb
  have hlive : (∀ x ∈ w'.live, x ∈ w.live) ∧ (w.tmu ≠ none → w'.live = w.live) := by
    cases htable with
    | same hlive => simp [hlive]
    | register | reserve => exact absurd (by simp) ho
    | release hfree _ hlive =>
      exact ⟨fun x hx => List.mem_of_mem_erase (hlive ▸ hx), fun h => absurd hfree h⟩
    | drain hfree hlive => exact ⟨by simp [hlive], fun h => absurd hfree h⟩
  generalize o.tag = t at ho hf hst
  have hturn := hf.turn fun hk => ho (by
    obtain rfl | rfl | rfl := Tag.kind_reader.1 hk <;> decide)
  simp only [World.turnView, Prod.mk.injEq] at hturn
  exact
    { turn := ⟨hturn.1, hturn.2.1⟩
      tmu := hf.tmu fun hk => ho (by obtain rfl | rfl := Tag.kind_lockTable.1 hk <;> decide)
      settings := hf.settings fun hk => ho (by
        obtain rfl | rfl := Tag.kind_settings.1 hk <;> decide)
      live := hlive
      sentOn := hwire.1
      sent := hwire.2
      conn := hst.connSend fun ht => ho (by simp_all [ownSteps])
      str := hst.send fun ht => ho (by simp_all [ownSteps, sendWindowSteps]) }

theorem int32_of_window {v : Int} (h₁ : -maxWindow ≤ v) (h₂ : v ≤ maxWindow) : int32 v = v := by
  unfold maxWindow at h₁ h₂
  exact int32_of_range (by omega) (by omega)

theorem window_new {s : Stream} {v : Int} (hv : 0 ≤ v ∧ v ≤ maxWindow) (hwin : s.sendWindow = v)
    (hbase : s.base = v) (hgranted : s.granted = 0) (hdebited : s.debited = 0) : Window s := by
  refine ⟨⟨by omega, fun _ => by omega⟩, by omega, by omega, by omega⟩

theorem initial_range (h : Inv w r) :
    0 ≤ (w.initialWindow : Int) ∧ (w.initialWindow : Int) ≤ maxWindow :=
  ⟨by omega, h.initial⟩

theorem int32_initial (h : Inv w r) : int32 w.initialWindow = w.initialWindow :=
  int32_of_window (by unfold maxWindow; omega) h.initial

theorem str_of_idle (h : Table w) (hx : w.idle x = true) : w.str x = none ∧ x ∉ w.live := by
  have hnew : ¬w.created x := fun hc => by simp [h.used x hc] at hx
  exact ⟨by simpa [World.created] using hnew, fun hlive => hnew (h.live x hlive)⟩

theorem rely_create (hnew : w.str x = none) (ht : w.tmu = none)
    (hstr : w'.str = Function.update w.str x (some s')) (hreader : w'.reader = w.reader)
    (hstale : s'.stale = false) (j : Nat) : Rely j w w' := by
  refine ⟨fun hr => ⟨hreader.trans hr, fun h y t hyt => ?_⟩, fun htable => ?_⟩
  · obtain ⟨rfl, rfl⟩ | ⟨-, hyt⟩ := str_update hstr hyt
    · exact hstale
    · exact h y t hyt
  · simp [ht] at htable

theorem admitClient {prio : Option Priority} {b : Bool} (h : Inv w r) (hidle : w.idle x = true)
    (htable : Table w) (hb : (b, w') ∈ Op.exec env i w (.admitClient x prio)) :
    Inv w' r ∧ ∀ j, Rely j w w' := by
  obtain ⟨hnew, hlive⟩ := str_of_idle htable hidle
  have hint := int32_initial h
  simp only [Op.exec, Op.underTable, World.admitClient] at hb
  split at hb
  · rename_i hfree
    split at hb <;> cases List.mem_singleton.1 hb
    · refine ⟨h.create hnew hfree rfl ⟨rfl, rfl⟩ rfl rfl rfl (fun _ => .inl)
        (fun hx => absurd hx hlive) ?_
        rfl rfl, rely_create hnew hfree rfl rfl rfl⟩
      exact window_new (v := 0) ⟨le_rfl, by simp [maxWindow]⟩ rfl rfl rfl rfl
    · refine ⟨h.create hnew hfree rfl ⟨rfl, rfl⟩ rfl rfl rfl (fun y hy => ?_) (fun _ => rfl) ?_
        rfl rfl, rely_create hnew hfree rfl rfl rfl⟩
      · exact (List.mem_cons.1 hy).symm
      · exact window_new (initial_range h) hint rfl rfl rfl
  · cases hb

theorem reservePush {limit : Nat} {b : Option Nat} (h : Inv w r) (htable : Table w)
    (hb : (b, w') ∈ Op.exec env i w (.reservePush limit)) : Inv w' r ∧ ∀ j, Rely j w w' := by
  have hidle : w.idle w.nextPush = true := by simp [World.idle, htable.nextPush]
  obtain ⟨hnew, hlive⟩ := str_of_idle htable hidle
  have hint := int32_initial h
  simp only [Op.exec, Op.underTable, World.reservePush] at hb
  split at hb
  · rename_i hfree
    split at hb <;> cases List.mem_singleton.1 hb
    · exact ⟨h, fun j => .refl j w⟩
    · refine ⟨h.create hnew hfree rfl ⟨rfl, rfl⟩ rfl rfl rfl (fun y hy => ?_) (fun _ => rfl) ?_
        rfl rfl, rely_create hnew hfree rfl rfl rfl⟩
      · exact (List.mem_cons.1 hy).symm
      · exact window_new (initial_range h) hint rfl rfl rfl
  · cases hb

theorem growStream {n : Nat} {b : Bool} (h : Inv w r)
    (hb : (b, w') ∈ Op.exec env i w (.growStream x n)) : Inv w' r ∧ ∀ j, Rely j w w' := by
  simp only [Op.exec, World.growStream, List.mem_singleton] at hb
  split at hb
  · cases hb
    exact ⟨h, fun j => .refl j w⟩
  · rename_i s hs
    split at hb <;> cases hb
    · exact ⟨h, fun j => .refl j w⟩
    · have hw := h.window x s hs
      have hint : int32 (s.sendWindow + n) = s.sendWindow + n :=
        int32_of_window (by have := hw.lower; have := hw.base; omega) (by omega)
      refine ⟨h.set hs rfl rfl (fun _ => rfl) (fun _ => rfl) ?_ (h.conn.congr rfl)
        (fun _ _ => rfl) ?_ h.sent,
        rely_set hs rfl rfl rfl⟩
      · obtain ⟨⟨hle, heq⟩, hu, hl, hbase⟩ := hw
        exact ⟨⟨by dsimp only; omega, fun hsat => by have := heq hsat; dsimp only; omega⟩,
          by dsimp only; omega, by dsimp only; omega, hbase⟩
      · simpa [hs] using h.sentOn x

theorem growConn {n : Nat} {b : Bool} (h : Inv w r)
    (hb : (b, w') ∈ Op.exec env i w (.growConn n)) : Inv w' r ∧ ∀ j, Rely j w w' := by
  simp only [Op.exec, World.growConn, List.mem_singleton] at hb
  split at hb <;> cases hb
  · exact ⟨h, fun j => .refl j w⟩
  · have hint : int32 (w.peerConnSendWindow + n) = w.peerConnSendWindow + n :=
      int32_of_window (by have := h.conn.range; unfold maxWindow; omega) (by omega)
    refine ⟨{ h with conn := ?_ }, fun j =>
      ⟨fun hr => ⟨hr, id⟩, fun ht => ⟨ht, rfl, rfl, fun _ => rfl⟩⟩⟩
    obtain ⟨⟨hle, heq⟩, hr⟩ := h.conn
    exact ⟨⟨by dsimp only; omega, fun hsat => by have := heq hsat; dsimp only; omega⟩,
      by dsimp only; omega⟩

theorem asks {o : Op β} (ho : o.tag ≠ .adjustWindow) : Asks w o := by
  cases o <;> trivial

theorem harmless {o : Op β} (ho : o.tag ∉ ownSteps) : (spec env G).Harmless o := by
  intro i w r h hok
  refine ⟨asks fun ht => ho (by rw [ht]; decide), fun b w' hb => ?_⟩
  change (b, w') ∈ o.exec env i w at hb
  have htable := tabled_table hok
  have hask := tabled_asks hok
  by_cases hnew : o.tag ∈ [.admitClient, .reservePush, .growStream, .growConn]
  · cases o <;> simp only [Op.tag, List.mem_cons, List.not_mem_nil, reduceCtorEq, or_self] at hnew
    case admitClient => exact admitClient h hask htable hb
    case reservePush => exact reservePush h htable hb
    case growStream => exact growStream h hb
    case growConn => exact growConn h hb
  · have hcalm : Calm w w' := calm_of_exec (fun ht => (List.mem_append.1 ht).elim hnew ho) hb
    exact ⟨hcalm.inv h, hcalm.rely⟩

def Kept (i : Nat) (w : World) : Prop := w.reader = some i ∧ w.NoStale

theorem Kept.rely (h : Kept i w) (hw : Rely i w w') : Kept i w' :=
  ⟨(hw.reader h.1).1, (hw.reader h.1).2 h.2⟩

theorem uses_safe {p : M α} {l : List Tag} {Q : α → Share → World → Prop} (hp : Uses l p)
    (hl : ∀ t ∈ l, t ∉ ownSteps) (hQ : ∀ a w', Rely i w w' → Q a 0 w') :
    (spec env G).Safe i p 0 Q w := hp.safe harmless hl hQ

theorem kept_safe {p : M α} {l : List Tag} (hp : Uses l p) (hl : ∀ t ∈ l, t ∉ ownSteps)
    (h : Kept i w) : (spec env G).Safe i p 0 (fun _ g w => g = 0 ∧ Kept i w) w :=
  uses_safe hp hl fun _ _ hw => ⟨rfl, h.rely hw⟩

end SendCredit

end PoseidonServer.Conn
