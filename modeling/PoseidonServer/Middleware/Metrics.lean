import Mathlib.Logic.Function.Basic
import PoseidonServer.Assoc
import PoseidonServer.HttpFields

/-! The middleware `Metrics`, for requests that are served one after the other. Instants and
durations are in nanoseconds. -/

namespace PoseidonServer.Middleware

def defaultDurationBuckets : List Int :=
  [5, 10, 25, 50, 100, 250, 500, 1000, 2500, 5000, 10000].map (· * 10 ^ 6)

structure Histogram where
  counts : List Int := List.replicate defaultDurationBuckets.length 0
  infCount : Int := 0
  sumNanos : Int := 0
  count : Int := 0
  deriving DecidableEq

def Histogram.observe (h : Histogram) (d : Int) : Histogram :=
  let i := defaultDurationBuckets.findIdx (d ≤ ·)
  let h := if i < defaultDurationBuckets.length then { h with counts := h.counts.modify i (· + 1) }
    else { h with infCount := h.infCount + 1 }
  { h with sumNanos := h.sumNanos + d, count := h.count + 1 }

inductive Metric
  | counters | durations | reqBytes | histograms
  deriving DecidableEq

def Metric.Value : Metric → Type
  | .histograms => Histogram
  | _ => Int

def Metric.zero : (m : Metric) → m.Value
  | .histograms => {}
  | .counters | .durations | .reqBytes => (0 : Int)

structure Series (α : Type) where
  value : α
  lastSeen : Int

/-- A map with its published view. The series are on a heap, and both refer to them there. -/
structure Store (α : Type) where
  live : List (Bytes × Nat) := []
  view : List (Bytes × Nat) := []
  heap : List (Series α) := []

def overflowLabel : Bytes := ascii "__other__"
def overflowSeriesKey : Bytes := overflowLabel ++ ascii "|" ++ overflowLabel
def overflowCounterKey : Bytes := overflowSeriesKey ++ ascii "|" ++ overflowLabel

def Metric.overflow : Metric → Bytes
  | .counters => overflowCounterKey
  | _ => overflowSeriesKey

def defaultMaxSeries : Int := 1024
def defaultSeriesIdleTTL : Int := 15 * 60 * 10 ^ 9
def eagerViewEntries : Nat := 8192

structure Served where
  method : Bytes
  path : Bytes
  bodyLen : Nat := 0
  /-- The status that was written, 0 for none. -/
  statusCode : Int := 0
  start : Int
  finish : Int

structure MetricsConfig where
  maxSeries : Int := 0
  seriesIdleTTL : Int := 0
  pathLabel : Option (Served → Bytes) := none

def resolveMaxSeries (cfg : Int) : Int :=
  if cfg = 0 then defaultMaxSeries else if cfg < 0 then 0 else cfg

def resolveSeriesIdleTTL (cfg : Int) : Int :=
  if cfg = 0 then defaultSeriesIdleTTL else if cfg < 0 then 0 else cfg

structure MetricsCollector where
  stores : (m : Metric) → Store m.Value
  entries : Nat
  maxSeries : Int
  seriesTTL : Int
  pathLabel : Option (Served → Bytes)
  lastSweep : Int

def newMetricsCollectorWithConfig (cfg : MetricsConfig) (now : Int) : MetricsCollector where
  stores _ := {}
  entries := 0
  maxSeries := resolveMaxSeries cfg.maxSeries
  seriesTTL := resolveSeriesIdleTTL cfg.seriesIdleTTL
  pathLabel := cfg.pathLabel
  lastSweep := now

namespace Store

variable {α : Type}

def get (s : Store α) (i : Nat) : Option (Series α) := s.heap[i]?

def modify (s : Store α) (i : Nat) (f : Series α → Series α) : Store α :=
  { s with heap := s.heap.modify i f }

def stamp (s : Store α) (i : Nat) (now : Int) : Store α :=
  s.modify i fun x => { x with lastSeen := now }

def recent (s : Store α) (cutoff : Int) (i : Nat) : Bool :=
  (s.get i).any fun x => ¬(x.lastSeen < cutoff)

def sweep (s : Store α) (cutoff : Int) : Store α :=
  { s with live := s.live.filter fun e => s.recent cutoff e.2 }

def publish (s : Store α) : Store α := { s with view := s.live }

def insert (s : Store α) (key : Bytes) (zero : α) (now : Int) : Store α :=
  { s with live := (key, s.heap.length) :: s.live, heap := s.heap ++ [⟨zero, now⟩] }

end Store

namespace MetricsCollector

variable (c : MetricsCollector) (now : Int)

def set (m : Metric) (s : Store m.Value) : MetricsCollector :=
  { c with stores := Function.update c.stores m s }

def touch (m : Metric) (i : Nat) : MetricsCollector :=
  if c.seriesTTL ≤ 0 then c else c.set m ((c.stores m).stamp i now)

def size : Nat :=
  (c.stores .counters).live.length + (c.stores .durations).live.length +
    (c.stores .reqBytes).live.length + (c.stores .histograms).live.length

def publishViewsLocked (entries : Nat) : MetricsCollector :=
  { c with stores := fun m => (c.stores m).publish, entries }

def maybePublishViewsLocked : MetricsCollector :=
  if c.size ≤ eagerViewEntries ∨ c.size ≥ 2 * c.entries then c.publishViewsLocked c.size else c

def sweepDue : Bool := c.seriesTTL > 0 ∧ now - c.lastSweep ≥ c.seriesTTL

def foldsView (size : Nat) : Bool := c.maxSeries > 0 ∧ size ≥ c.maxSeries ∧ !c.sweepDue now

def sweepLocked : MetricsCollector :=
  { c with stores := fun m => (c.stores m).sweep (now - c.seriesTTL) }

def maybeSweepLocked : MetricsCollector :=
  if !c.sweepDue now then c
  else
    let c := { c with lastSweep := now }.sweepLocked now
    c.publishViewsLocked c.size

def find (entries : List (Bytes × Nat)) (m : Metric) (key : Bytes) : Option Nat :=
  match Assoc.get entries key with
  | some i => some i
  | none => if c.foldsView now entries.length then Assoc.get entries m.overflow else none

def seriesLocked (m : Metric) (key : Bytes) : Nat × MetricsCollector :=
  match Assoc.get (c.stores m).live key with
  | some i => (i, c.set m ((c.stores m).stamp i now))
  | none =>
    let c := c.maybeSweepLocked now
    let s := c.stores m
    let key := if c.maxSeries > 0 ∧ s.live.length ≥ c.maxSeries then m.overflow else key
    match Assoc.get s.live key with
    | some i => (i, c.set m (s.stamp i now))
    | none => (s.heap.length, (c.set m (s.insert key m.zero now)).maybePublishViewsLocked)

def series (m : Metric) (key : Bytes) : Nat × MetricsCollector :=
  match c.find now (c.stores m).live m key with
  | some i => (i, c.touch now m i)
  | none => c.seriesLocked now m key

def lookup (view : List (Bytes × Nat)) (m : Metric) (key : Bytes) : Nat × MetricsCollector :=
  match c.find now view m key with
  | some i => (i, c.touch now m i)
  | none => c.series now m key

end MetricsCollector

def durationKey (method path : Bytes) : Bytes := method ++ ascii "|" ++ path

def counterKey (method path : Bytes) (status : Int) : Bytes :=
  durationKey method path ++ ascii "|" ++ ascii (toString status)

structure Observation where
  metric : Metric
  key : Bytes
  add : metric.Value → metric.Value

namespace MetricsCollector

def observations (c : MetricsCollector) (r : Served) : List Observation :=
  let elapsed := r.finish - r.start
  let status := if r.statusCode = 0 then 200 else r.statusCode
  let path := match c.pathLabel with
    | some label => label r
    | none => r.path
  let dKey := durationKey r.method path
  [⟨.counters, counterKey r.method path status, fun n : Int => n + 1⟩,
    ⟨.durations, dKey, fun n : Int => n + elapsed⟩,
    ⟨.histograms, dKey, fun h : Histogram => h.observe elapsed⟩] ++
  if r.bodyLen > 0 then [⟨.reqBytes, dKey, fun n : Int => n + (r.bodyLen : Int)⟩] else []

def observe (view : (m : Metric) → List (Bytes × Nat)) (now : Int) (c : MetricsCollector)
    (o : Observation) : Nat × MetricsCollector :=
  let (i, c) := c.lookup now (view o.metric) o.metric o.key
  (i, c.set o.metric ((c.stores o.metric).modify i fun x => { x with value := o.add x.value }))

def observeAll (view : (m : Metric) → List (Bytes × Nat)) (now : Int) :
    MetricsCollector → List Observation → List (Observation × Nat) × MetricsCollector
  | c, [] => ([], c)
  | c, o :: os =>
    let (i, c) := c.observe view now o
    let (used, c) := observeAll view now c os
    ((o, i) :: used, c)

def metrics (c : MetricsCollector) (r : Served) : List (Observation × Nat) × MetricsCollector :=
  observeAll (fun m => (c.stores m).view) r.finish c (c.observations r)

def run (c : MetricsCollector) (rs : List Served) : MetricsCollector :=
  rs.foldl (fun c r => (c.metrics r).2) c

end MetricsCollector


namespace Store

variable {α : Type} {s : Store α} {i j : Nat} {now cutoff : Int} {k : Bytes} {zero : α}

def value (s : Store α) (zero : α) (i : Nat) : α := ((s.get i).map (·.value)).getD zero

theorem value_congr {s' : Store α} (h : s'.heap = s.heap) (zero : α) (j : Nat) :
    s'.value zero j = s.value zero j := by
  rw [value, get, h]
  rfl

theorem sweep_live_congr {s' : Store α} (hlive : s'.live = s.live) (hheap : s'.heap = s.heap) :
    (s'.sweep cutoff).live = (s.sweep cutoff).live := by
  simp only [sweep, recent, get, hlive, hheap]

theorem value_stamp (zero : α) (j : Nat) : (s.stamp i now).value zero j = s.value zero j := by
  simp only [value, get, stamp, modify, List.getElem?_modify]
  cases s.heap[j]? with
  | none => rfl
  | some x => split <;> rfl

theorem value_modify (f : α → α) (hi : i < s.heap.length) :
    (s.modify i fun x => { x with value := f x.value }).value zero i = f (s.value zero i) := by
  simp [value, get, modify, hi]

theorem recent_modify (f : α → α) :
    (s.modify i fun x => { x with value := f x.value }).recent cutoff j = s.recent cutoff j := by
  simp only [recent, get, modify, List.getElem?_modify]
  cases s.heap[j]? with
  | none => rfl
  | some x => split <;> rfl

theorem value_insert (k : Bytes) (j : Nat) :
    (s.insert k zero now).value zero j = s.value zero j := by
  simp only [value, get, insert, List.getElem?_append]
  split
  · rfl
  · rename_i h
    rw [List.getElem?_eq_none (Nat.le_of_not_lt h)]
    cases j - s.heap.length <;> simp

structure Sound (s : Store α) : Prop where
  distinct : Assoc.Distinct s.live
  valid : ∀ e ∈ s.live, e.2 < s.heap.length
  view : ∀ k i, Assoc.get s.view k = some i → Assoc.get s.live k = some i

theorem Sound.modify (h : s.Sound) (f : Series α → Series α) : (s.modify i f).Sound :=
  ⟨h.distinct, by simpa [Store.modify] using h.valid, h.view⟩

theorem Sound.publish (h : s.Sound) : s.publish.Sound := ⟨h.distinct, h.valid, fun _ _ h => h⟩

theorem Sound.insert (h : s.Sound) (hk : Assoc.get s.live k = none) :
    (s.insert k zero now).Sound := by
  refine ⟨List.nodup_cons.2 ⟨Assoc.get_eq_none.1 hk, h.distinct⟩, ?_, ?_⟩
  · refine List.forall_mem_cons.2 ⟨by simp [Store.insert], fun e he => ?_⟩
    have := h.valid e he
    simp only [Store.insert, List.length_append, List.length_singleton]
    omega
  · intro k' i hi
    have hlive := h.view k' i hi
    have hne : k ≠ k' := by
      rintro rfl
      rw [hlive] at hk
      cases hk
    rw [Store.insert, Assoc.get_cons, if_neg hne]
    exact hlive

theorem Sound.sweep_publish (h : s.Sound) : ((s.sweep cutoff).publish).Sound :=
  ⟨h.distinct.sublist List.filter_sublist,
    fun e he => h.valid e (List.mem_of_mem_filter he), fun _ _ h => h⟩

end Store

namespace MetricsCollector

variable {c c' : MetricsCollector} {now : Int} {m m' : Metric} {view : List (Bytes × Nat)}
  {key : Bytes} {i : Nat}

def Sound (c : MetricsCollector) : Prop := ∀ m, (c.stores m).Sound

@[simp] theorem set_self (s : Store m.Value) : (c.set m s).stores m = s := Function.update_self ..

@[simp] theorem set_of_ne (s : Store m.Value) (h : m' ≠ m) :
    (c.set m s).stores m' = c.stores m' := Function.update_of_ne h ..

@[simp] theorem set_seriesTTL (s : Store m.Value) : (c.set m s).seriesTTL = c.seriesTTL := rfl

theorem Sound.set (h : c.Sound) {s : Store m.Value} (hs : s.Sound) : (c.set m s).Sound := by
  intro m'
  by_cases hm : m' = m
  · subst hm
    rwa [set_self]
  · rw [set_of_ne s hm]
    exact h m'

theorem Sound.touch (h : c.Sound) : (c.touch now m i).Sound := by
  unfold MetricsCollector.touch
  split
  · exact h
  · exact h.set ((h m).modify _)

theorem Sound.maybePublishViewsLocked (h : c.Sound) : c.maybePublishViewsLocked.Sound := by
  unfold MetricsCollector.maybePublishViewsLocked
  split
  · exact fun m => (h m).publish
  · exact h

theorem Sound.maybeSweepLocked (h : c.Sound) : (c.maybeSweepLocked now).Sound := by
  unfold MetricsCollector.maybeSweepLocked
  split
  · exact h
  · exact fun m => (h m).sweep_publish

theorem Sound.seriesLocked (h : c.Sound) : (c.seriesLocked now m key).2.Sound := by
  have hswept : (c.maybeSweepLocked now).Sound := h.maybeSweepLocked
  unfold MetricsCollector.seriesLocked
  split
  · exact h.set ((h m).modify _)
  · simp only
    split
    · exact hswept.set ((hswept m).modify _)
    · rename_i hnone
      exact (hswept.set ((hswept m).insert hnone)).maybePublishViewsLocked

theorem Sound.lookup (h : c.Sound) : (c.lookup now view m key).2.Sound := by
  unfold MetricsCollector.lookup MetricsCollector.series
  split
  · exact h.touch
  · split
    · exact h.touch
    · exact h.seriesLocked

theorem Sound.observe (h : c.Sound) (views : (m : Metric) → List (Bytes × Nat)) (o : Observation) :
    (c.observe views now o).2.Sound :=
  h.lookup.set ((h.lookup o.metric).modify _)

theorem Sound.observeAll (h : c.Sound) (views : (m : Metric) → List (Bytes × Nat))
    (os : List Observation) : (c.observeAll views now os).2.Sound := by
  induction os generalizing c with
  | nil => exact h
  | cons o os ih => exact ih (h.observe views o)

theorem Sound.run (h : c.Sound) (rs : List Served) : (c.run rs).Sound := by
  induction rs generalizing c with
  | nil => exact h
  | cons r rs ih => exact ih (h.observeAll _ _)

theorem sound_new (cfg : MetricsConfig) (now : Int) :
    (newMetricsCollectorWithConfig cfg now).Sound :=
  fun _ => ⟨.nil, by simp [newMetricsCollectorWithConfig], fun _ _ h => h⟩

def sweeps (c : MetricsCollector) (now : Int) (view : List (Bytes × Nat)) (m : Metric)
    (key : Bytes) : Bool :=
  c.sweepDue now && (Assoc.get view key).isNone && (Assoc.get (c.stores m).live key).isNone

structure Effect (swept : Bool) (now : Int) (m : Metric) (c c' : MetricsCollector) : Prop where
  maxSeries : c'.maxSeries = c.maxSeries
  seriesTTL : c'.seriesTTL = c.seriesTTL
  lastSweep : c'.lastSweep = if swept then now else c.lastSweep
  heap : ∀ m' ≠ m, (c'.stores m').heap = (c.stores m').heap
  live : ∀ m' ≠ m, (c'.stores m').live =
    if swept then ((c.stores m').sweep (now - c.seriesTTL)).live else (c.stores m').live

theorem effect_set (s : Store m.Value) : Effect false now m c (c.set m s) where
  maxSeries := rfl
  seriesTTL := rfl
  lastSweep := rfl
  heap m' hm := by rw [set_of_ne s hm]
  live m' hm := by rw [set_of_ne s hm]; rfl

theorem effect_touch : Effect false now m c (c.touch now m i) := by
  unfold touch
  split
  · exact ⟨rfl, rfl, rfl, fun _ _ => rfl, fun _ _ => rfl⟩
  · exact effect_set _

theorem effect_maybePublish : Effect false now m c c.maybePublishViewsLocked := by
  unfold maybePublishViewsLocked
  split <;> exact ⟨rfl, rfl, rfl, fun _ _ => rfl, fun _ _ => rfl⟩

theorem effect_maybeSweep : Effect (c.sweepDue now) now m c (c.maybeSweepLocked now) := by
  unfold maybeSweepLocked
  cases hdue : c.sweepDue now with
  | false => exact ⟨rfl, rfl, rfl, fun _ _ => rfl, fun _ _ => rfl⟩
  | true => exact ⟨rfl, rfl, rfl, fun _ _ => rfl, fun _ _ => rfl⟩

theorem Effect.trans {c'' : MetricsCollector} {swept : Bool} (h : Effect swept now m c c')
    (h' : Effect false now m c' c'') : Effect swept now m c c'' where
  maxSeries := h'.maxSeries.trans h.maxSeries
  seriesTTL := h'.seriesTTL.trans h.seriesTTL
  lastSweep := h'.lastSweep.trans h.lastSweep
  heap m' hm := (h'.heap m' hm).trans (h.heap m' hm)
  live m' hm := (h'.live m' hm).trans (h.live m' hm)

theorem effect_seriesLocked (h : Assoc.get (c.stores m).live key = none) :
    Effect (c.sweepDue now) now m c (c.seriesLocked now m key).2 := by
  unfold seriesLocked
  rw [h]
  simp only
  split
  · exact effect_maybeSweep.trans (effect_set _)
  · exact (effect_maybeSweep.trans (effect_set _)).trans effect_maybePublish

theorem find_eq_some (h : c.find now view m key = some i) :
    Assoc.get view key = some i ∨ c.sweepDue now = false ∧ Assoc.get view m.overflow = some i := by
  unfold find at h
  split at h
  · rename_i hi
    exact .inl (hi.trans h)
  · split at h
    · rename_i hfolds
      simp only [foldsView, Bool.decide_and, Bool.and_eq_true, Bool.not_eq_true',
        decide_eq_true_eq] at hfolds
      exact .inr ⟨hfolds.2.2, h⟩
    · cases h

theorem find_eq_none (h : c.find now view m key = none) : Assoc.get view key = none := by
  unfold find at h
  split at h
  · cases h
  · assumption

theorem not_sweeps_of_find (h : c.find now view m key = some i) :
    (c.sweepDue now && (Assoc.get view key).isNone) = false := by
  obtain h | ⟨h, -⟩ := find_eq_some h
  · rw [h, Option.isNone_some, Bool.and_false]
  · rw [h, Bool.false_and]

theorem effect_lookup :
    Effect (c.sweeps now view m key) now m c (c.lookup now view m key).2 := by
  unfold lookup sweeps
  split
  · rename_i i hi
    rw [not_sweeps_of_find hi, Bool.false_and]
    exact effect_touch
  · rename_i hview
    rw [find_eq_none hview, Option.isNone_none, Bool.and_true]
    unfold series
    split
    · rename_i i hi
      rw [not_sweeps_of_find hi]
      exact effect_touch
    · rename_i hlive
      have hnone := find_eq_none hlive
      rw [hnone, Option.isNone_none, Bool.and_true]
      exact effect_seriesLocked hnone

theorem effect_observe (c : MetricsCollector) (now : Int)
    (views : (m : Metric) → List (Bytes × Nat)) (o : Observation) :
    Effect (c.sweeps now (views o.metric) o.metric o.key) now o.metric c
      (c.observe views now o).2 :=
  effect_lookup.trans (effect_set _)

theorem ttl_pos_of_sweepDue (h : c.sweepDue now = true) : 0 < c.seriesTTL := by
  simp only [sweepDue, Bool.decide_and, Bool.and_eq_true, decide_eq_true_eq] at h
  exact h.1

/-- The map has the series `i` for the key, and a sweep does not take it away. -/
structure Placed (c : MetricsCollector) (now : Int) (m : Metric) (key : Bytes) (i : Nat) :
    Prop where
  live : ∃ k, (k = key ∨ k = m.overflow) ∧ Assoc.get (c.stores m).live k = some i
  recent : 0 < c.seriesTTL → (c.stores m).recent (now - c.seriesTTL) i = true

/-- The map has no place for the series `i`. -/
def Lost (c : MetricsCollector) (m : Metric) (i : Nat) : Prop :=
  ∀ k, Assoc.get (c.stores m).live k ≠ some i

theorem Placed.effect {swept : Bool} (h : c.Placed now m key i) (hc : c.Sound) (hm : m ≠ m')
    (he : Effect swept now m' c c') (hdue : swept = true → c.sweepDue now = true) :
    c'.Placed now m key i := by
  obtain ⟨⟨k, hk, hlive⟩, hrecent⟩ := h
  refine ⟨⟨k, hk, ?_⟩, ?_⟩
  · rw [he.live m hm]
    cases swept with
    | false => exact hlive
    | true =>
      have httl := ttl_pos_of_sweepDue (hdue rfl)
      rw [if_pos rfl, Store.sweep, Assoc.get_filter (hc m).distinct, hlive, Option.filter_some,
        if_pos (hrecent httl)]
  · rw [he.seriesTTL, Store.recent, Store.get, he.heap m hm]
    exact hrecent

theorem Lost.effect {swept : Bool} (h : c.Lost m i) (hc : c.Sound) (hm : m ≠ m')
    (he : Effect swept now m' c c') : c'.Lost m i := by
  intro k hk
  rw [he.live m hm] at hk
  split at hk
  · exact h k (Assoc.get_sublist (hc m).distinct List.filter_sublist hk)
  · exact h k hk

theorem value_effect {swept : Bool} (hm : m ≠ m') (he : Effect swept now m' c c') (i : Nat) :
    (c'.stores m).value m.zero i = (c.stores m).value m.zero i :=
  Store.value_congr (he.heap m hm) _ _

theorem recent_stamp {α : Type} {s : Store α} {cutoff : Int} (hi : i < s.heap.length)
    (h : cutoff ≤ now) : (s.stamp i now).recent cutoff i = true := by
  simp [Store.recent, Store.get, Store.stamp, Store.modify, hi, h]

theorem placed_stamp (hc : c.Sound) {k : Bytes} (hk : k = key ∨ k = m.overflow)
    (hlive : Assoc.get (c.stores m).live k = some i) :
    (c.set m ((c.stores m).stamp i now)).Placed now m key i := by
  refine ⟨⟨k, hk, ?_⟩, fun httl => ?_⟩
  · rw [set_self]
    exact hlive
  · rw [set_self]
    exact recent_stamp ((hc m).valid _ (Assoc.mem_of_get hlive))
      (Int.sub_le_self now (Int.le_of_lt httl))

theorem placed_touch (hc : c.Sound) {k : Bytes} (hk : k = key ∨ k = m.overflow)
    (hlive : Assoc.get (c.stores m).live k = some i) : (c.touch now m i).Placed now m key i := by
  unfold touch
  split
  · rename_i h
    exact ⟨⟨k, hk, hlive⟩, fun httl => absurd h (Int.not_le.2 httl)⟩
  · exact placed_stamp hc hk hlive

theorem Placed.maybePublish (h : c.Placed now m key i) :
    c.maybePublishViewsLocked.Placed now m key i := by
  unfold maybePublishViewsLocked
  split
  · exact ⟨h.live, h.recent⟩
  · exact h

theorem placed_insert {k : Bytes} (hk : k = key ∨ k = m.overflow) :
    (c.set m ((c.stores m).insert k m.zero now)).Placed now m key (c.stores m).heap.length := by
  refine ⟨⟨k, hk, ?_⟩, fun httl => ?_⟩
  · rw [set_self, Store.insert, Assoc.get_cons, if_pos rfl]
  · have hle : now - c.seriesTTL ≤ now := Int.sub_le_self now (Int.le_of_lt httl)
    rw [set_self]
    simpa [Store.recent, Store.get, Store.insert] using hle

theorem placed_seriesLocked (hc : c.Sound) : (c.seriesLocked now m key).2.Placed now m key
    (c.seriesLocked now m key).1 := by
  have hswept : (c.maybeSweepLocked now).Sound := hc.maybeSweepLocked
  unfold seriesLocked
  split
  · rename_i i hi
    exact placed_stamp hc (.inl rfl) hi
  · have hkey (p : Prop) [Decidable p] : (if p then m.overflow else key) = key ∨
        (if p then m.overflow else key) = m.overflow := by
      split
      · exact .inr rfl
      · exact .inl rfl
    simp only
    split
    · rename_i i hi
      exact placed_stamp hswept (hkey _) hi
    · exact (placed_insert (hkey _)).maybePublish

theorem placed_series (hc : c.Sound) :
    (c.series now m key).2.Placed now m key (c.series now m key).1 := by
  unfold series
  split
  · rename_i i hi
    obtain h | ⟨-, h⟩ := find_eq_some hi
    · exact placed_touch hc (.inl rfl) h
    · exact placed_touch hc (.inr rfl) h
  · exact placed_seriesLocked hc

theorem value_lookup (j : Nat) : ((c.lookup now view m key).2.stores m).value m.zero j =
    (c.stores m).value m.zero j := by
  have hpublish (c : MetricsCollector) : (c.maybePublishViewsLocked.stores m).heap =
      (c.stores m).heap := by
    unfold maybePublishViewsLocked
    split <;> rfl
  have hsweep : ((c.maybeSweepLocked now).stores m).heap = (c.stores m).heap := by
    unfold maybeSweepLocked
    split <;> rfl
  have htouch (i : Nat) : ((c.touch now m i).stores m).value m.zero j =
      (c.stores m).value m.zero j := by
    unfold touch
    split
    · rfl
    · rw [set_self, Store.value_stamp]
  unfold lookup series seriesLocked
  split
  · exact htouch _
  split
  · exact htouch _
  split
  · rw [set_self, Store.value_stamp]
  · simp only
    split
    · rw [set_self, Store.value_stamp, Store.value_congr hsweep]
    · rw [Store.value_congr (hpublish _), set_self, Store.value_insert, Store.value_congr hsweep]

theorem value_observe (hc : c.Sound) {views : (m : Metric) → List (Bytes × Nat)} {o : Observation}
    (h : ¬(c.lookup now (views o.metric) o.metric o.key).2.Lost o.metric
      (c.lookup now (views o.metric) o.metric o.key).1) :
    ((c.observe views now o).2.stores o.metric).value o.metric.zero (c.observe views now o).1 =
      o.add ((c.stores o.metric).value o.metric.zero (c.observe views now o).1) := by
  obtain ⟨k, hk⟩ := not_forall.1 h
  have hvalid := (hc.lookup o.metric).valid _ (Assoc.mem_of_get (not_not.1 hk))
  simp only [observe, set_self, Store.value_modify _ hvalid, value_lookup]

def viewEntry (c : MetricsCollector) (o : Observation) : Option Nat :=
  let view := (c.stores o.metric).view
  match Assoc.get view o.key with
  | some i => some i
  | none =>
    if c.maxSeries > 0 ∧ view.length ≥ c.maxSeries then Assoc.get view o.metric.overflow else none

def StaleEntry (c : MetricsCollector) (now : Int) (o : Observation) : Prop :=
  ∃ i, c.viewEntry o = some i ∧ (c.stores o.metric).recent (now - c.seriesTTL) i = false

def Misses (c : MetricsCollector) (o : Observation) : Prop :=
  Assoc.get (c.stores o.metric).live o.key = none

instance (c : MetricsCollector) (o : Observation) : Decidable (c.Misses o) :=
  inferInstanceAs (Decidable (_ = _))

theorem view_of_misses {o : Observation} (h : c.Misses o) (hc : c.Sound) :
    Assoc.get (c.stores o.metric).view o.key = none := by
  rw [Option.eq_none_iff_forall_ne_some]
  intro i hi
  have hlive := (hc o.metric).view _ _ hi
  rw [show Assoc.get (c.stores o.metric).live o.key = none from h] at hlive
  cases hlive

/-- What the collector has come to, while it serves a request in the state `c₀`, for the maps `ms`
that it has not looked at. -/
structure Phase (c₀ : MetricsCollector) (now : Int) (swept : Bool) (ms : List Metric)
    (c : MetricsCollector) : Prop where
  maxSeries : c.maxSeries = c₀.maxSeries
  seriesTTL : c.seriesTTL = c₀.seriesTTL
  due : swept = true → c₀.sweepDue now = true
  lastSweep : c.lastSweep = if swept then now else c₀.lastSweep
  heap : ∀ m ∈ ms, (c.stores m).heap = (c₀.stores m).heap
  live : ∀ m ∈ ms, (c.stores m).live =
    if swept then ((c₀.stores m).sweep (now - c₀.seriesTTL)).live else (c₀.stores m).live

variable {c₀ : MetricsCollector} {swept : Bool} {ms : List Metric}

theorem Phase.sweepDue (h : Phase c₀ now swept ms c) :
    c.sweepDue now = (!swept && c₀.sweepDue now) := by
  rw [MetricsCollector.sweepDue, h.seriesTTL, h.lastSweep]
  cases swept with
  | false => rfl
  | true =>
    have httl := ttl_pos_of_sweepDue (h.due rfl)
    simp only [if_true, Bool.not_true, Bool.false_and, decide_eq_false_iff_not]
    omega

theorem Phase.sweeps {o : Observation} (h : Phase c₀ now swept (o.metric :: ms) c)
    (hc₀ : c₀.Sound) :
    c.sweeps now (c₀.stores o.metric).view o.metric o.key =
      (!swept && (c₀.sweepDue now && decide (c₀.Misses o))) := by
  rw [MetricsCollector.sweeps, h.sweepDue]
  cases swept with
  | true => rfl
  | false =>
    have hlive := h.live _ List.mem_cons_self
    rw [if_neg Bool.false_ne_true] at hlive
    rw [hlive, Bool.not_false, Bool.true_and, Bool.true_and, Bool.and_assoc]
    by_cases hmiss : c₀.Misses o
    · have hnone : Assoc.get (c₀.stores o.metric).live o.key = none := hmiss
      rw [view_of_misses hmiss hc₀, hnone, decide_eq_true hmiss]
      rfl
    · rw [Option.isNone_eq_false_iff.2 (Option.isSome_iff_ne_none.2 hmiss), Bool.and_false,
        decide_eq_false hmiss]

theorem Phase.observe {o : Observation} (h : Phase c₀ now swept (o.metric :: ms) c)
    (hc₀ : c₀.Sound) (ho : o.metric ∉ ms) :
    Phase c₀ now (swept || (c₀.sweepDue now && decide (c₀.Misses o))) ms
      (c.observe (fun m => (c₀.stores m).view) now o).2 := by
  have he := effect_observe c now (fun m => (c₀.stores m).view) o
  rw [h.sweeps hc₀] at he
  have hne : ∀ m ∈ ms, m ≠ o.metric := by
    rintro m hm rfl
    exact ho hm
  refine ⟨he.maxSeries.trans h.maxSeries, he.seriesTTL.trans h.seriesTTL, ?_, ?_, ?_, ?_⟩
  · intro hswept
    cases swept with
    | true => exact h.due rfl
    | false => exact (Bool.and_eq_true_iff.1 hswept).1
  · rw [he.lastSweep, h.lastSweep]
    cases swept with
    | true => rfl
    | false => rfl
  · intro m hm
    rw [he.heap m (hne m hm), h.heap m (List.mem_cons_of_mem _ hm)]
  · intro m hm
    have hlive := h.live m (List.mem_cons_of_mem _ hm)
    have hheap := h.heap m (List.mem_cons_of_mem _ hm)
    rw [he.live m (hne m hm)]
    cases swept with
    | true => exact hlive
    | false =>
      rw [if_neg Bool.false_ne_true] at hlive
      rw [Bool.not_false, Bool.true_and, Bool.false_or, h.seriesTTL]
      split
      · rw [Store.sweep_live_congr hlive hheap]
      · exact hlive

theorem Phase.find {o : Observation} (h : Phase c₀ now true ms c) :
    c.find now (c₀.stores o.metric).view o.metric o.key = c₀.viewEntry o := by
  have hdue := h.sweepDue
  unfold MetricsCollector.find viewEntry foldsView
  rw [hdue, h.maxSeries]
  simp

theorem Phase.lost {o : Observation} (h : Phase c₀ now true (o.metric :: ms) c)
    (hstale : c₀.StaleEntry now o) :
    (c.lookup now (c₀.stores o.metric).view o.metric o.key).2.Lost o.metric
      (c.lookup now (c₀.stores o.metric).view o.metric o.key).1 := by
  obtain ⟨i, hi, hidle⟩ := hstale
  have hlive := h.live _ List.mem_cons_self
  rw [if_pos rfl] at hlive
  have htouch : ((c.touch now o.metric i).stores o.metric).live = (c.stores o.metric).live := by
    unfold touch
    split
    · rfl
    · rw [set_self]
      rfl
  rw [lookup, h.find, hi]
  intro k hk
  rw [htouch, hlive] at hk
  have hmem := List.mem_filter.1 (Assoc.mem_of_get hk)
  rw [hidle] at hmem
  cases hmem.2

theorem Phase.placed {o : Observation} (h : Phase c₀ now swept (o.metric :: ms) c)
    (hc₀ : c₀.Sound) (hc : c.Sound) (hfresh : ¬(swept = true ∧ c₀.StaleEntry now o)) :
    (c.lookup now (c₀.stores o.metric).view o.metric o.key).2.Placed now o.metric o.key
      (c.lookup now (c₀.stores o.metric).view o.metric o.key).1 := by
  rw [lookup]
  split
  · rename_i i hi
    have hlive := h.live _ List.mem_cons_self
    have hkept {k : Bytes} (hk : Assoc.get (c₀.stores o.metric).view k = some i) :
        Assoc.get (c.stores o.metric).live k = some i := by
      have hk := (hc₀ o.metric).view _ _ hk
      rw [hlive]
      cases swept with
      | false => exact hk
      | true =>
        rw [h.find] at hi
        have hrecent : (c₀.stores o.metric).recent (now - c₀.seriesTTL) i = true := by
          by_contra hidle
          exact hfresh ⟨rfl, i, hi, Bool.not_eq_true _ ▸ hidle⟩
        rw [if_pos rfl, Store.sweep, Assoc.get_filter (hc₀ o.metric).distinct, hk,
          Option.filter_some, if_pos hrecent]
    obtain hk | ⟨-, hk⟩ := find_eq_some hi
    · exact placed_touch hc (.inl rfl) (hkept hk)
    · exact placed_touch hc (.inr rfl) (hkept hk)
  · exact placed_series hc

/-- What an observation added is counted by a series in the map, under its own key or that for the
overflow. -/
def Accounted (c₀ c : MetricsCollector) (o : Observation) (i : Nat) : Prop :=
  (∃ k, (k = o.key ∨ k = o.metric.overflow) ∧ Assoc.get (c.stores o.metric).live k = some i) ∧
  (c.stores o.metric).value o.metric.zero i = o.add ((c₀.stores o.metric).value o.metric.zero i)

theorem later_observations (now : Int) (views : (m : Metric) → List (Bytes × Nat))
    {os : List Observation} (hc : c.Sound) (hm : ∀ o ∈ os, m ≠ o.metric) (key : Bytes) (i : Nat) :
    let c' := (c.observeAll views now os).2
    (c.Placed now m key i → c'.Placed now m key i) ∧ (c.Lost m i → c'.Lost m i) ∧
      (c'.stores m).value m.zero i = (c.stores m).value m.zero i := by
  induction os generalizing c with
  | nil => exact ⟨id, id, rfl⟩
  | cons o os ih =>
    rw [List.forall_mem_cons] at hm
    obtain ⟨hplaced, hlost, hvalue⟩ := ih (hc.observe views o) hm.2
    have he := effect_observe c now views o
    have hdue : c.sweeps now (views o.metric) o.metric o.key = true → c.sweepDue now = true := by
      intro h
      exact (Bool.and_eq_true_iff.1 (Bool.and_eq_true_iff.1 h).1).1
    exact ⟨fun h => hplaced (h.effect hc hm.1 he hdue), fun h => hlost (h.effect hc hm.1 he),
      hvalue.trans (value_effect hm.1 he i)⟩

theorem Placed.add {o : Observation} (h : c.Placed now o.metric key i) :
    (c.set o.metric ((c.stores o.metric).modify i fun x =>
      { x with value := o.add x.value })).Placed now o.metric key i := by
  refine ⟨?_, ?_⟩
  · rw [set_self]
    exact h.live
  · rw [set_self, set_seriesTTL, Store.recent_modify]
    exact h.recent

theorem Lost.add {o : Observation} (h : c.Lost o.metric i) :
    (c.set o.metric ((c.stores o.metric).modify i fun x =>
      { x with value := o.add x.value })).Lost o.metric i := by
  unfold Lost
  rw [set_self]
  exact h

theorem Placed.not_lost (h : c.Placed now m key i) : ¬c.Lost m i := by
  obtain ⟨k, -, hk⟩ := h.live
  exact fun hlost => hlost k hk

theorem Phase.accounted_iff {o : Observation} {os : List Observation}
    (h : Phase c₀ now swept (o.metric :: ms) c) (hc₀ : c₀.Sound) (hc : c.Sound)
    (ho : o.metric ∉ os.map (·.metric)) :
    let r := c.observe (fun m => (c₀.stores m).view) now o
    Accounted c₀ (r.2.observeAll (fun m => (c₀.stores m).view) now os).2 o r.1 ↔
      ¬(swept = true ∧ c₀.StaleEntry now o) := by
  intro r
  have hne : ∀ o' ∈ os, o.metric ≠ o'.metric :=
    fun o' ho' heq => ho (List.mem_map.2 ⟨o', ho', heq.symm⟩)
  have hr : r.2.Sound := hc.observe _ o
  obtain ⟨hplaced, hlost, hvalue⟩ :=
    later_observations now (fun m => (c₀.stores m).view) hr hne o.key r.1
  constructor
  · rintro ⟨⟨k, -, hk⟩, -⟩ ⟨rfl, hstale⟩
    exact hlost (h.lost hstale).add k hk
  · intro hfresh
    have hlookup := h.placed hc₀ hc hfresh
    refine ⟨(hplaced hlookup.add).live, ?_⟩
    rw [hvalue, value_observe hc hlookup.not_lost,
      Store.value_congr (h.heap _ List.mem_cons_self)]

theorem observeAll_accounted {os : List Observation} (hc₀ : c₀.Sound) (hc : c.Sound)
    (hnodup : (os.map (·.metric)).Nodup) (h : Phase c₀ now swept (os.map (·.metric)) c) :
    (∀ p ∈ (c.observeAll (fun m => (c₀.stores m).view) now os).1,
      Accounted c₀ (c.observeAll (fun m => (c₀.stores m).view) now os).2 p.1 p.2) ↔
    ∀ pre o post, os = pre ++ o :: post →
      ¬((swept = true ∨ c₀.sweepDue now = true ∧ ∃ o' ∈ pre, c₀.Misses o') ∧
        c₀.StaleEntry now o) := by
  induction os generalizing c swept with
  | nil =>
    refine ⟨fun _ pre o post hos => ?_, fun _ p hp => by cases hp⟩
    cases pre <;> cases hos
  | cons o os ih =>
    obtain ⟨ho, hnodup⟩ := List.nodup_cons.1 hnodup
    have ih := ih (hc.observe _ o) hnodup (h.observe hc₀ ho)
    rw [observeAll, List.forall_mem_cons, ih]
    refine (and_congr_left' (h.accounted_iff hc₀ hc ho)).trans ?_
    simp only [Bool.or_eq_true, Bool.and_eq_true, decide_eq_true_eq]
    constructor
    · rintro ⟨hhead, htail⟩ pre o' post hos
      cases pre with
      | nil =>
        cases hos
        simpa using hhead
      | cons o₁ pre =>
        cases hos
        simpa only [List.mem_cons, exists_eq_or_imp, and_or_left, or_assoc] using
          htail pre o' post rfl
    · intro hall
      refine ⟨by simpa using hall [] o os rfl, fun pre o' post hos => ?_⟩
      simpa only [List.mem_cons, exists_eq_or_imp, and_or_left, or_assoc] using
        hall (o :: pre) o' post (congrArg (o :: ·) hos)

/-- A request that comes with a sweep and makes a new series has a later observation for which the
views, from before the sweep, show an idle series. -/
def OutdatedView (c : MetricsCollector) (r : Served) : Prop :=
  c.sweepDue r.finish = true ∧ ∃ pre o post, c.observations r = pre ++ o :: post ∧
    (∃ o' ∈ pre, c.Misses o') ∧ c.StaleEntry r.finish o

theorem nodup_observations (c : MetricsCollector) (r : Served) :
    ((c.observations r).map (·.metric)).Nodup := by
  rw [observations, List.map_append]
  by_cases h : r.bodyLen > 0
  · rw [if_pos h]
    simp
  · rw [if_neg h]
    simp

theorem map_fst_observeAll (views : (m : Metric) → List (Bytes × Nat)) (now : Int)
    (c : MetricsCollector) (os : List Observation) :
    (c.observeAll views now os).1.map (·.1) = os := by
  induction os generalizing c with
  | nil => rfl
  | cons o os ih => exact congrArg (o :: ·) (ih _)

end MetricsCollector

open MetricsCollector

end PoseidonServer.Middleware
