import Mathlib.Data.List.TakeWhile
import PoseidonServer.Decimal
import PoseidonServer.Middleware.Metrics

/-! The labels of the exposition: keys that are joined when a request is recorded and split again by
`WritePrometheus`. -/

namespace PoseidonServer.Middleware.Exposition

def splitN (sep : UInt8) : Nat → Bytes → List Bytes
  | 0, _ => []
  | 1, s => [s]
  | n + 2, s =>
    if sep ∈ s then s.takeWhile (· ≠ sep) :: splitN sep (n + 1) ((s.dropWhile (· ≠ sep)).drop 1)
    else [s]

inductive Number
  | count (n : Int)
  | seconds (nanos : Int)
  deriving DecidableEq

/-- A line of the exposition. Each label is printed with `%q`, which can be read back. -/
structure Sample where
  name : String
  labels : List (String × Bytes)
  value : Number
  deriving DecidableEq

def counterSample (key : Bytes) (n : Int) : List Sample :=
  match splitN 0x7c 3 key with
  | [method, path, status] =>
    [⟨"poseidon_requests_total", [("method", method), ("path", path), ("status", status)], .count n⟩]
  | _ => []

def routeSamples (key : Bytes) (samples : List (String × List (String × Bytes) × Number)) :
    List Sample :=
  match splitN 0x7c 2 key with
  | [method, path] =>
    samples.map fun (name, labels, value) => ⟨name, [("method", method), ("path", path)] ++ labels, value⟩
  | _ => []

def bucketBounds : List String :=
  ["0.005", "0.01", "0.025", "0.05", "0.1", "0.25", "0.5", "1", "2.5", "5", "10"]

def histogramLines (h : Histogram) : List (String × List (String × Bytes) × Number) :=
  (bucketBounds.zipIdx.map fun (bound, i) =>
    ("poseidon_request_duration_seconds_bucket", [("le", ascii bound)],
      .count (h.counts.take (i + 1)).sum)) ++
  [("poseidon_request_duration_seconds_bucket", [("le", ascii "+Inf")], .count h.count),
    ("poseidon_request_duration_seconds_sum", [], .seconds h.sumNanos),
    ("poseidon_request_duration_seconds_count", [], .count h.count)]

def count (c : MetricsCollector) (i : Nat) : Int := (c.stores .counters).value (0 : Int) i

def requestsTotal (c : MetricsCollector) : List Sample :=
  (c.stores .counters).live.flatMap fun (key, i) => counterSample key (count c i)

/-- The lines that `WritePrometheus` prints for the series of the four maps. -/
def writePrometheus (c : MetricsCollector) : List Sample :=
  requestsTotal c ++
  ((c.stores .durations).live.flatMap fun (key, i) =>
    routeSamples key [("poseidon_request_duration_seconds_total", [],
      .seconds ((c.stores .durations).value (0 : Int) i))]) ++
  ((c.stores .reqBytes).live.flatMap fun (key, i) =>
    routeSamples key [("poseidon_request_bytes_total", [],
      .count ((c.stores .reqBytes).value (0 : Int) i))]) ++
  ((c.stores .histograms).live.flatMap fun (key, i) =>
    routeSamples key (histogramLines ((c.stores .histograms).value ({} : Histogram) i)))

structure Route where
  method : Bytes
  path : Bytes
  status : Int
  deriving DecidableEq

def Route.key (t : Route) : Bytes := counterKey t.method t.path t.status

def route (label : Option (Served → Bytes)) (r : Served) : Route where
  method := r.method
  path := match label with
    | some label => label r
    | none => r.path
  status := if r.statusCode = 0 then 200 else r.statusCode

def itoa (n : Int) : Bytes := ascii (toString n)

def Route.sample (t : Route) (n : Int) : Sample :=
  ⟨"poseidon_requests_total",
    [("method", t.method), ("path", t.path), ("status", itoa t.status)], .count n⟩

/-- Neither the method nor the path has the octet that separates the parts of a key. -/
def Route.plain (t : Route) : Prop := 0x7c ∉ t.method ∧ 0x7c ∉ t.path

section Split

theorem splitN_append {n : Nat} {a b : Bytes} (ha : 0x7c ∉ a) :
    splitN 0x7c (n + 2) (a ++ 0x7c :: b) = a :: splitN 0x7c (n + 1) b := by
  have hplain : ∀ c ∈ a, decide (c ≠ 0x7c) = true := fun c hc =>
    decide_eq_true fun h => ha (h ▸ hc)
  rw [splitN, if_pos (by simp), List.takeWhile_append_of_pos hplain,
    List.dropWhile_append_of_pos hplain]
  simp

theorem splitN_last {n : Nat} {a : Bytes} (ha : 0x7c ∉ a) : splitN 0x7c (n + 1) a = [a] := by
  cases n with
  | zero => rfl
  | succ n => rw [splitN, if_neg ha]

theorem splitN_head {n : Nat} {s a b : Bytes} {rest : List Bytes}
    (h : splitN 0x7c (n + 2) s = a :: b :: rest) :
    0x7c ∉ a ∧ splitN 0x7c (n + 1) ((s.dropWhile (· ≠ 0x7c)).drop 1) = b :: rest := by
  rw [splitN] at h
  split at h
  · obtain ⟨rfl, hrest⟩ := List.cons.inj h
    refine ⟨fun hmem => ?_, hrest⟩
    simpa using List.mem_takeWhile_imp hmem
  · cases h

theorem itoa_neg (n : Nat) : itoa (Int.negSucc n) = 0x2d :: Decimal.format (n + 1) := by
  have h : toString (Int.negSucc n) = "-" ++ toString (n + 1) := rfl
  simp [itoa, Decimal.format, ascii, h]

theorem itoa_octet {n : Int} {c : UInt8} (h : c ∈ itoa n) : Decimal.isDigit c = true ∨ c = 0x2d := by
  cases n with
  | ofNat n => exact .inl (List.all_eq_true.1 (Decimal.all_isDigit_format n) c h)
  | negSucc n =>
    rw [itoa_neg, List.mem_cons] at h
    exact h.symm.imp_left (List.all_eq_true.1 (Decimal.all_isDigit_format _) c)

theorem bar_notMem_itoa (n : Int) : 0x7c ∉ itoa n := by
  intro h
  rcases itoa_octet h with h | h <;> cases h

theorem itoa_injective : Function.Injective itoa := by
  have hdigit (n m : Nat) : Decimal.format n ≠ 0x2d :: Decimal.format m := by
    intro h
    have hall := Decimal.all_isDigit_format n
    rw [h] at hall
    cases hall
  intro n m h
  cases n with
  | ofNat n =>
    cases m with
    | ofNat m =>
      have hvalue : Decimal.value (Decimal.format n) = Decimal.value (Decimal.format m) :=
        congrArg Decimal.value h
      rw [Decimal.value_format, Decimal.value_format] at hvalue
      rw [hvalue]
    | negSucc m =>
      rw [itoa_neg] at h
      exact absurd h (hdigit n _)
  | negSucc n =>
    rw [itoa_neg] at h
    cases m with
    | ofNat m => exact absurd h.symm (hdigit m _)
    | negSucc m =>
      rw [itoa_neg, List.cons.injEq] at h
      have hvalue := congrArg Decimal.value h.2
      rw [Decimal.value_format, Decimal.value_format] at hvalue
      rw [Nat.succ.inj hvalue]

theorem key_eq (t : Route) : t.key = t.method ++ 0x7c :: (t.path ++ 0x7c :: itoa t.status) := by
  simp [Route.key, counterKey, durationKey, itoa, ascii]

/-- The parts of a key are what was recorded exactly if the separator is in neither of them. -/
theorem split_key_iff (t : Route) :
    splitN 0x7c 3 t.key = [t.method, t.path, itoa t.status] ↔ t.plain := by
  rw [key_eq]
  constructor
  · intro h
    obtain ⟨hmethod, hrest⟩ := splitN_head h
    exact ⟨hmethod, (splitN_head hrest).1⟩
  · rintro ⟨hmethod, hpath⟩
    rw [splitN_append hmethod, splitN_append hpath, splitN_last (bar_notMem_itoa _)]

theorem split_durationKey_iff (method path : Bytes) :
    splitN 0x7c 2 (durationKey method path) = [method, path] ↔ 0x7c ∉ method := by
  have hkey : durationKey method path = method ++ 0x7c :: path := by
    simp [durationKey, ascii]
  rw [hkey]
  constructor
  · exact fun h => (splitN_head h).1
  · exact fun h => splitN_append h

theorem counterSample_key {t : Route} (h : t.plain) (n : Int) : counterSample t.key n = [t.sample n] := by
  rw [counterSample, (split_key_iff t).2 h]
  rfl

theorem key_inj {t t' : Route} (h : t.plain) (h' : t'.plain) (hkey : t.key = t'.key) : t = t' := by
  have hsplit := (split_key_iff t).2 h
  rw [hkey, (split_key_iff t').2 h'] at hsplit
  obtain ⟨method, path, status⟩ := t
  obtain ⟨method', path', status'⟩ := t'
  simp only [List.cons.injEq, and_true] at hsplit
  obtain ⟨rfl, rfl, hstatus⟩ := hsplit
  rw [itoa_injective hstatus]

theorem key_ne_overflow (t : Route) : t.key ≠ Metric.counters.overflow := by
  intro h
  have hne : itoa t.status ≠ [] := by
    cases t.status with
    | ofNat n => exact Decimal.format_ne_nil n
    | negSucc n => simp [itoa_neg]
  have hlast : (itoa t.status).getLast? = some 0x5f := by
    rw [← List.getLast?_append_of_ne_nil (t.method ++ 0x7c :: (t.path ++ [0x7c])) hne,
      show t.method ++ 0x7c :: (t.path ++ [0x7c]) ++ itoa t.status = t.key by simp [key_eq], h]
    rfl
  rcases itoa_octet (List.mem_of_getLast? hlast) with h | h <;> cases h

end Split

namespace Run

open MetricsCollector

variable {c : MetricsCollector} {r : Served}

def counted (c : MetricsCollector) (r : Served) : Nat :=
  (c.lookup r.finish (c.stores .counters).view .counters (route c.pathLabel r).key).1

def Room (c : MetricsCollector) (r : Served) : Prop :=
  c.maxSeries ≤ 0 ∨ (Assoc.get (c.stores .counters).live (route c.pathLabel r).key).isSome ∨
    ((c.stores .counters).live.length : Int) < c.maxSeries

def BelowCap : MetricsCollector → List Served → Prop
  | _, [] => True
  | c, r :: rs => Room c r ∧ BelowCap (c.metrics r).2 rs

def log : MetricsCollector → List Served → List (Route × Nat)
  | _, [] => []
  | c, r :: rs => (route c.pathLabel r, counted c r) :: log (c.metrics r).2 rs

theorem lookup_counters (now : Int) {m : Metric} {view : List (Bytes × Nat)} {key : Bytes}
    (hview : ∀ k i, Assoc.get view k = some i → Assoc.get (c.stores m).live k = some i)
    (hover : Assoc.get (c.stores m).live m.overflow = none)
    (hroom : c.maxSeries ≤ 0 ∨ (Assoc.get (c.stores m).live key).isSome ∨
      ((c.stores m).live.length : Int) < c.maxSeries) :
    let c' := (c.lookup now view m key).2
    let i := (c.lookup now view m key).1
    (Assoc.get (c.stores m).live key = some i ∧ (c'.stores m).live = (c.stores m).live ∧
      (c'.stores m).heap.length = (c.stores m).heap.length) ∨
    (i = (c.stores m).heap.length ∧ (c'.stores m).heap.length = (c.stores m).heap.length + 1 ∧
      ∃ live, live.Sublist (c.stores m).live ∧ (c'.stores m).live = (key, i) :: live) := by
  have htouch (i : Nat) : ((c.touch now m i).stores m).live = (c.stores m).live ∧
      ((c.touch now m i).stores m).heap.length = (c.stores m).heap.length := by
    unfold touch
    split
    · exact ⟨rfl, rfl⟩
    · rw [set_self]
      exact ⟨rfl, List.length_modify ..⟩
  have hfind {view : List (Bytes × Nat)} {i : Nat}
      (hview : ∀ k i, Assoc.get view k = some i → Assoc.get (c.stores m).live k = some i)
      (h : c.find now view m key = some i) : Assoc.get (c.stores m).live key = some i := by
    obtain h | ⟨-, h⟩ := find_eq_some h
    · exact hview _ _ h
    · rw [hview _ _ h] at hover
      cases hover
  unfold lookup series
  split
  · rename_i i hi
    exact .inl ⟨hfind hview hi, htouch i⟩
  split
  · rename_i i hi
    exact .inl ⟨hfind (fun _ _ h => h) hi, htouch i⟩
  rename_i hnone
  have hnone := find_eq_none hnone
  -- the sweep only takes series away, so there is still room and the key is still missing
  have hswept : ((c.maybeSweepLocked now).stores m).live.Sublist (c.stores m).live ∧
      ((c.maybeSweepLocked now).stores m).heap = (c.stores m).heap ∧
      (c.maybeSweepLocked now).maxSeries = c.maxSeries := by
    unfold maybeSweepLocked
    split
    · exact ⟨.refl _, rfl, rfl⟩
    · exact ⟨List.filter_sublist, rfl, rfl⟩
  obtain ⟨hsub, hheap, hmax⟩ := hswept
  have hfree : ¬((c.maybeSweepLocked now).maxSeries > 0 ∧
      ((c.maybeSweepLocked now).stores m).live.length ≥ (c.maybeSweepLocked now).maxSeries) := by
    have hle := hsub.length_le
    rw [hmax]
    simp only [hnone, Option.isSome_none, Bool.false_eq_true, false_or] at hroom
    omega
  have hmissing : Assoc.get ((c.maybeSweepLocked now).stores m).live key = none := by
    rw [Assoc.get_eq_none] at hnone ⊢
    exact fun h => hnone ((hsub.map _).subset h)
  have hpublish (c : MetricsCollector) : (c.maybePublishViewsLocked.stores m).live = (c.stores m).live ∧
      (c.maybePublishViewsLocked.stores m).heap = (c.stores m).heap := by
    unfold maybePublishViewsLocked
    split <;> exact ⟨rfl, rfl⟩
  refine .inr ?_
  simp only [seriesLocked, hnone, if_neg hfree, hmissing]
  rw [(hpublish _).1, (hpublish _).2, set_self, hheap]
  exact ⟨rfl, by simp [Store.insert, hheap], _, hsub, by simp [Store.insert, hheap]⟩

theorem pathLabel_lookup {now : Int} {m : Metric} {view : List (Bytes × Nat)} {key : Bytes} :
    (c.lookup now view m key).2.pathLabel = c.pathLabel := by
  have htouch (i : Nat) : (c.touch now m i).pathLabel = c.pathLabel := by
    unfold touch
    split <;> rfl
  have hpublish (c : MetricsCollector) : c.maybePublishViewsLocked.pathLabel = c.pathLabel := by
    unfold maybePublishViewsLocked
    split <;> rfl
  have hsweep : (c.maybeSweepLocked now).pathLabel = c.pathLabel := by
    unfold maybeSweepLocked
    split <;> rfl
  unfold lookup series seriesLocked
  split
  · exact htouch _
  split
  · exact htouch _
  split
  · rfl
  · simp only
    split
    · exact hsweep
    · rw [hpublish]
      exact hsweep

theorem pathLabel_observeAll {now : Int} {views : (m : Metric) → List (Bytes × Nat)}
    {os : List Observation} : (c.observeAll views now os).2.pathLabel = c.pathLabel := by
  induction os generalizing c with
  | nil => rfl
  | cons o os ih => exact ih.trans pathLabel_lookup

theorem observeAll_others (now : Int) (views : (m : Metric) → List (Bytes × Nat))
    {os : List Observation} {m : Metric} (h : ∀ o ∈ os, m ≠ o.metric) :
    ((c.observeAll views now os).2.stores m).live.Sublist (c.stores m).live ∧
      ((c.observeAll views now os).2.stores m).heap = (c.stores m).heap := by
  induction os generalizing c with
  | nil => exact ⟨.refl _, rfl⟩
  | cons o os ih =>
    rw [List.forall_mem_cons] at h
    have he := effect_observe c now views o
    obtain ⟨hlive, hheap⟩ := ih (c := (c.observe views now o).2) h.2
    refine ⟨hlive.trans ?_, hheap.trans (he.heap m h.1)⟩
    rw [he.live m h.1]
    split
    · exact List.filter_sublist
    · exact .refl _

/-- Each series belongs to one key, under which it is found and its requests were logged. -/
structure Owned (owner : Nat → Bytes) (log : List (Route × Nat)) (c : MetricsCollector) : Prop where
  sound : c.Sound
  live : ∀ e ∈ (c.stores .counters).live, owner e.2 = e.1 ∧ ∃ p ∈ log, p.2 = e.2
  logged : ∀ p ∈ log, p.2 < (c.stores .counters).heap.length ∧ owner p.2 = p.1.key

theorem Owned.overflow {owner : Nat → Bytes} {log : List (Route × Nat)} (h : Owned owner log c) :
    Assoc.get (c.stores .counters).live Metric.counters.overflow = none := by
  rw [Assoc.get_eq_none]
  intro hmem
  obtain ⟨e, he, hkey⟩ := List.mem_map.1 hmem
  obtain ⟨howner, p, hp, hpe⟩ := h.live e he
  refine key_ne_overflow p.1 ?_
  rw [← (h.logged p hp).2, hpe, howner, hkey]

theorem metrics_counters (hc : c.Sound)
    (hover : Assoc.get (c.stores .counters).live Metric.counters.overflow = none) (hroom : Room c r) :
    (Assoc.get (c.stores .counters).live (route c.pathLabel r).key = some (counted c r) ∧
      ((c.metrics r).2.stores .counters).live.Sublist (c.stores .counters).live ∧
      ((c.metrics r).2.stores .counters).heap.length = (c.stores .counters).heap.length) ∨
    (counted c r = (c.stores .counters).heap.length ∧
      ((c.metrics r).2.stores .counters).heap.length = (c.stores .counters).heap.length + 1 ∧
      ((c.metrics r).2.stores .counters).live.Sublist
        (((route c.pathLabel r).key, counted c r) :: (c.stores .counters).live)) := by
  obtain ⟨add, rest, hobs, hrest⟩ : ∃ add rest, c.observations r =
      ⟨.counters, (route c.pathLabel r).key, add⟩ :: rest ∧ ∀ o ∈ rest, Metric.counters ≠ o.metric := by
    refine ⟨_, _, rfl, ?_⟩
    intro o ho hm
    have hnodup := nodup_observations c r
    rw [observations] at hnodup
    exact (List.nodup_cons.1 hnodup).1 (List.mem_map.2 ⟨o, ho, hm.symm⟩)
  have hlater := observeAll_others r.finish (fun m => (c.stores m).view) hrest (c :=
    (c.observe (fun m => (c.stores m).view) r.finish ⟨.counters, (route c.pathLabel r).key, add⟩).2)
  have hmetrics : (c.metrics r).2 = ((c.observe (fun m => (c.stores m).view) r.finish
      ⟨.counters, (route c.pathLabel r).key, add⟩).2.observeAll (fun m => (c.stores m).view)
        r.finish rest).2 := by
    rw [metrics, hobs]
    rfl
  rw [← hmetrics] at hlater
  simp only [observe, set_self, Store.modify] at hlater
  obtain ⟨hlive, hheap⟩ := hlater
  have hlen := congrArg List.length hheap
  rw [List.length_modify] at hlen
  rcases lookup_counters r.finish (hc .counters).view hover hroom with
    ⟨hget, hsame, hsize⟩ | ⟨hnew, hsize, live, hsub, hcons⟩
  · exact .inl ⟨hget, hsame ▸ hlive, hlen.trans hsize⟩
  · refine .inr ⟨hnew, hlen.trans hsize, ?_⟩
    rw [hcons] at hlive
    exact hlive.trans (hsub.cons_cons _)

theorem Owned.metrics {owner : Nat → Bytes} {log : List (Route × Nat)} (h : Owned owner log c)
    (hroom : Room c r) :
    ∃ owner', Owned owner' (log ++ [(route c.pathLabel r, counted c r)]) (c.metrics r).2 := by
  have hsound : (c.metrics r).2.Sound := h.sound.observeAll _ _
  have hold : ∀ e ∈ (c.stores .counters).live, ∃ p ∈ log ++ [(route c.pathLabel r, counted c r)],
      p.2 = e.2 := by
    intro e he
    obtain ⟨-, p, hp, hpe⟩ := h.live e he
    exact ⟨p, List.mem_append_left _ hp, hpe⟩
  rcases metrics_counters h.sound h.overflow hroom with ⟨hget, hlive, hsize⟩ | ⟨hnew, hsize, hlive⟩
  · have hmem := Assoc.mem_of_get hget
    refine ⟨owner, hsound, fun e he => ⟨(h.live e (hlive.subset he)).1, hold e (hlive.subset he)⟩, ?_⟩
    rw [hsize]
    refine List.forall_mem_append.2 ⟨h.logged, List.forall_mem_singleton.2 ⟨?_, ?_⟩⟩
    · exact (h.sound .counters).valid _ hmem
    · exact (h.live _ hmem).1
  · refine ⟨Function.update owner (counted c r) (route c.pathLabel r).key, hsound, fun e he => ?_, ?_⟩
    · rcases List.mem_cons.1 (hlive.subset he) with rfl | he
      · exact ⟨Function.update_self .., _, List.mem_append_right _ List.mem_cons_self, rfl⟩
      · have hne : e.2 ≠ counted c r := by
          rw [hnew]
          exact ((h.sound .counters).valid e he).ne
        exact ⟨(Function.update_of_ne hne ..).trans (h.live e he).1, hold e he⟩
    · rw [hsize]
      refine List.forall_mem_append.2 ⟨fun p hp => ?_, List.forall_mem_singleton.2 ⟨?_, ?_⟩⟩
      · obtain ⟨hlt, howner⟩ := h.logged p hp
        have hne : p.2 ≠ counted c r := by
          rw [hnew]
          exact hlt.ne
        exact ⟨hlt.trans (Nat.lt_succ_self _), (Function.update_of_ne hne ..).trans howner⟩
      · rw [hnew]
        exact Nat.lt_succ_self _
      · exact Function.update_self ..

theorem Owned.run {owner : Nat → Bytes} {rs : List Served} {l : List (Route × Nat)}
    (h : Owned owner l c) (hcap : BelowCap c rs) : ∃ owner', Owned owner' (l ++ log c rs) (c.run rs) := by
  induction rs generalizing c owner l with
  | nil =>
    rw [log, List.append_nil]
    exact ⟨owner, h⟩
  | cons r rs ih =>
    obtain ⟨owner', h'⟩ := h.metrics hcap.1
    obtain ⟨owner'', h''⟩ := ih h' hcap.2
    rw [List.append_assoc] at h''
    exact ⟨owner'', h''⟩

theorem mem_log {rs : List Served} {p : Route × Nat} (h : p ∈ log c rs) :
    ∃ r ∈ rs, p.1 = route c.pathLabel r := by
  induction rs generalizing c with
  | nil => cases h
  | cons r rs ih =>
    rcases List.mem_cons.1 h with rfl | h
    · exact ⟨r, List.mem_cons_self, rfl⟩
    · obtain ⟨r', hr', hp⟩ := ih h
      have hlabel : (c.metrics r).2.pathLabel = c.pathLabel := pathLabel_observeAll
      exact ⟨r', List.mem_cons_of_mem _ hr', hlabel ▸ hp⟩

end Run

open Run

/-- The parts of a key are what was recorded exactly if neither the method nor, for a counter, the path
has the separator. Below the cap, if no request has it, two routes are never counted in one series, and
the lines of the counters are those of the routes that were counted in their series. -/
theorem metric_labels_faithful (cfg : MetricsConfig) (t₀ : Int) :
    (∀ t : Route, splitN 0x7c 3 t.key = [t.method, t.path, itoa t.status] ↔ t.plain) ∧
    (∀ method path, splitN 0x7c 2 (durationKey method path) = [method, path] ↔ 0x7c ∉ method) ∧
    ∀ rs, BelowCap (newMetricsCollectorWithConfig cfg t₀) rs →
      (∀ r ∈ rs, (route cfg.pathLabel r).plain) →
      let c := (newMetricsCollectorWithConfig cfg t₀).run rs
      let l := log (newMetricsCollectorWithConfig cfg t₀) rs
      (∀ p ∈ l, ∀ p' ∈ l, p.2 = p'.2 → p.1 = p'.1) ∧
      (∀ e ∈ (c.stores .counters).live, ∀ p ∈ l, p.2 = e.2 →
        counterSample e.1 (count c e.2) = [p.1.sample (count c e.2)]) ∧
      ∀ s ∈ requestsTotal c, ∃ p ∈ l, s = p.1.sample (count c p.2) := by
  refine ⟨split_key_iff, split_durationKey_iff, fun rs hcap hplain => ?_⟩
  have hnew : Owned (fun _ => []) [] (newMetricsCollectorWithConfig cfg t₀) :=
    ⟨MetricsCollector.sound_new cfg t₀, by simp [newMetricsCollectorWithConfig], by simp⟩
  obtain ⟨owner, h⟩ := hnew.run hcap
  rw [List.nil_append] at h
  have hlog : ∀ p ∈ log (newMetricsCollectorWithConfig cfg t₀) rs, p.1.plain := by
    intro p hp
    obtain ⟨r, hr, hpr⟩ := mem_log hp
    rw [hpr]
    exact hplain r hr
  have hsample : ∀ e ∈ (((newMetricsCollectorWithConfig cfg t₀).run rs).stores .counters).live,
      ∀ p ∈ log (newMetricsCollectorWithConfig cfg t₀) rs, p.2 = e.2 →
        ∀ n, counterSample e.1 n = [p.1.sample n] := by
    intro e he p hp hi n
    rw [← (h.live e he).1, ← hi, (h.logged p hp).2, counterSample_key (hlog p hp)]
  refine ⟨fun p hp p' hp' hi => ?_, fun e he p hp hi => hsample e he p hp hi _, fun s hs => ?_⟩
  · refine key_inj (hlog p hp) (hlog p' hp') ?_
    rw [← (h.logged p hp).2, ← (h.logged p' hp').2, hi]
  · obtain ⟨e, he, hs⟩ := List.mem_flatMap.1 hs
    obtain ⟨-, p, hp, hi⟩ := h.live e he
    change s ∈ counterSample e.1 _ at hs
    rw [hsample e he p hp hi, List.mem_singleton] at hs
    exact ⟨p, hp, by rw [hs, hi]⟩

def getRequest (path : String) : Served where
  method := ascii "GET"
  path := ascii path
  start := 0
  finish := 0

theorem metric_labels_of_two :
    let c := (newMetricsCollectorWithConfig {} 0).run [getRequest "/a", getRequest "/b"]
    ∀ s ∈ requestsTotal c, ∃ p ∈ log (newMetricsCollectorWithConfig {} 0)
      [getRequest "/a", getRequest "/b"], s = p.1.sample (count c p.2) := by
  have hcap : BelowCap (newMetricsCollectorWithConfig {} 0) [getRequest "/a", getRequest "/b"] :=
    ⟨.inr (.inr (by decide)), .inr (.inr (by decide +kernel)), trivial⟩
  refine ((metric_labels_faithful {} 0).2.2 _ hcap ?_).2.2
  simp +decide [getRequest, route, Route.plain]

/-- A path with a bar is printed as another path with a status that was never sent, and two routes
are counted in one series. -/
theorem bar_moves_into_status :
    requestsTotal ((newMetricsCollectorWithConfig {} 0).run [getRequest "/a|404"]) =
      [⟨"poseidon_requests_total",
        [("method", ascii "GET"), ("path", ascii "/a"), ("status", ascii "404|200")], .count 1⟩] ∧
    log (newMetricsCollectorWithConfig {} 0) [getRequest "/a|/b",
      { getRequest "/b" with method := ascii "GET|/a" }] =
      [(⟨ascii "GET", ascii "/a|/b", 200⟩, 0), (⟨ascii "GET|/a", ascii "/b", 200⟩, 0)] := by
  decide +kernel

section Histogram

theorem sum_take_modify {l : List Int} {k : Nat} (hk : k < l.length) (i : Nat) :
    ((l.modify k (· + 1)).take (i + 1)).sum = (l.take (i + 1)).sum + if k ≤ i then 1 else 0 := by
  induction l generalizing k i with
  | nil => cases hk
  | cons a l ih =>
    cases k with
    | zero => simp [Int.add_right_comm]
    | succ k =>
      cases i with
      | zero => simp
      | succ i => simp [ih (Nat.lt_of_succ_lt_succ hk), Int.add_assoc]

theorem findIdx_le_iff {l : List Int} (hl : l.Pairwise (· ≤ ·)) (d : Int) {i : Nat}
    (hi : i < l.length) : l.findIdx (d ≤ ·) ≤ i ↔ d ≤ l[i] := by
  constructor
  · intro hle
    have hlt := hle.trans_lt hi
    have hd : d ≤ l[l.findIdx (d ≤ ·)] := of_decide_eq_true (List.findIdx_getElem (w := hlt))
    obtain heq | hlt' := hle.eq_or_lt
    · simpa only [heq] using hd
    · exact hd.trans (List.pairwise_iff_getElem.1 hl _ _ hlt hi hlt')
  · intro hd
    by_contra hlt
    exact absurd (decide_eq_true hd) (by simpa using List.not_of_lt_findIdx (not_le.1 hlt))

theorem observe_totals (h : Histogram) (d : Int) :
    (h.observe d).counts.length = h.counts.length ∧ (h.observe d).count = h.count + 1 ∧
      (h.observe d).sumNanos = h.sumNanos + d := by
  unfold Histogram.observe
  dsimp only
  split <;> simp

theorem cumulative_observe {h : Histogram} (hlen : h.counts.length = defaultDurationBuckets.length)
    (d : Int) {i : Nat} (hi : i < defaultDurationBuckets.length) :
    ((h.observe d).counts.take (i + 1)).sum =
      (h.counts.take (i + 1)).sum + if d ≤ defaultDurationBuckets[i] then 1 else 0 := by
  have hle := findIdx_le_iff (l := defaultDurationBuckets) (by decide) d hi
  unfold Histogram.observe
  dsimp only
  split
  · rw [sum_take_modify (by omega), if_congr hle rfl rfl]
  · rw [if_neg (by omega), Int.add_zero]

theorem foldl_observe (ds : List Int) {h : Histogram}
    (hlen : h.counts.length = defaultDurationBuckets.length) :
    (ds.foldl Histogram.observe h).count = h.count + ds.length ∧
    (ds.foldl Histogram.observe h).sumNanos = h.sumNanos + ds.sum ∧
    ∀ i (hi : i < defaultDurationBuckets.length),
      ((ds.foldl Histogram.observe h).counts.take (i + 1)).sum =
        (h.counts.take (i + 1)).sum + ds.countP (· ≤ defaultDurationBuckets[i]) := by
  induction ds generalizing h with
  | nil => simp
  | cons d ds ih =>
    obtain ⟨hlen', hcount', hsum'⟩ := observe_totals h d
    obtain ⟨hcount, hsum, hle⟩ := ih (hlen'.trans hlen)
    refine ⟨?_, ?_, fun i hi => ?_⟩
    · rw [List.foldl_cons, hcount, hcount', List.length_cons]
      omega
    · rw [List.foldl_cons, hsum, hsum', List.sum_cons, Int.add_assoc]
    · rw [List.foldl_cons, hle i hi, cumulative_observe hlen d hi, List.countP_cons]
      simp only [decide_eq_true_eq]
      split <;> omega

end Histogram
end PoseidonServer.Middleware.Exposition
