import Mathlib.Algebra.Order.Floor.Ring
import Mathlib.Data.Rat.Floor
import PoseidonServer.Assoc
import PoseidonServer.Bucket
import PoseidonServer.HttpFields

/-! The rate limiter of package `middleware`, with exact rationals for its floating-point numbers.
Instants and durations are in nanoseconds. -/

namespace PoseidonServer.Middleware

def second : Int := 10 ^ 9

def defaultRateLimit : ℚ := 100
def defaultMaxBuckets : Int := 2 ^ 16
def defaultBucketIdleTTL : Int := 10 * 60 * second
def defaultSweepEvery : Nat := 256

structure RateLimitConfig where
  rate : ℚ := 0
  burst : Int := 0
  maxBuckets : Int := 0
  bucketIdleTTL : Int := 0

def resolveMaxBuckets (cfg : Int) : Int :=
  if cfg = 0 then defaultMaxBuckets else if cfg < 0 then 0 else cfg

def maxTTL : Int := 24 * 3600 * second

def refillTime (rate : ℚ) (burst : Int) : ℚ := burst / rate * second

def resolveIdleTTL (cfg : Int) (rate : ℚ) (burst : Int) : ℚ :=
  if cfg < 0 then 0
  else
    let floor := if cfg > 0 then cfg else defaultBucketIdleTTL
    let d := refillTime rate burst
    let refillToFull := if d > 0 ∧ d < maxTTL then d else maxTTL
    if refillToFull > floor then refillToFull else floor

structure TokenBucket where
  rate : ℚ
  burst : ℚ
  lastSeen : Int
  tokens : ℚ
  last : Int
  deriving DecidableEq

def newTokenBucket (rate : ℚ) (burst : Int) (now : Int) : TokenBucket :=
  { rate, burst, lastSeen := now, tokens := burst, last := now }

def seconds (elapsed : Int) : ℚ := elapsed / second

def TokenBucket.refill (b : TokenBucket) (now : Int) : TokenBucket :=
  let elapsed := now - b.last
  if elapsed > 0 then
    let tokens := b.tokens + seconds elapsed * b.rate
    { b with tokens := if tokens > b.burst then b.burst else tokens, last := now }
  else b

def TokenBucket.allow (b : TokenBucket) (now : Int) : Bool × TokenBucket :=
  let b := { b with lastSeen := now }.refill now
  if b.tokens ≥ 1 then (true, { b with tokens := b.tokens - 1 }) else (false, b)

/-- The map of buckets, which is also the list of them with the latest insertion in front. -/
structure KeyedLimiter where
  rate : ℚ
  burst : Int
  maxBuckets : Int
  ttl : ℚ
  sweepEvery : Nat
  buckets : List (Bytes × TokenBucket) := []
  insertCt : Nat := 0

/-- A call of `allow`, with what the clock shows at the points where it is read. -/
structure AllowCall where
  key : Bytes
  sweepAt : Int
  capSweepAt : Int
  createdAt : Int
  usedAt : Int

namespace KeyedLimiter

def lookup (l : KeyedLimiter) (key : Bytes) : Option TokenBucket := Assoc.get l.buckets key

def update (l : KeyedLimiter) (key : Bytes) (tb : TokenBucket) : KeyedLimiter :=
  { l with buckets := Assoc.replace l.buckets key tb }

def sweepLocked (l : KeyedLimiter) (now : Int) : KeyedLimiter :=
  let cutoff := now - l.ttl
  { l with buckets := l.buckets.filter fun e => ¬(e.2.lastSeen < cutoff) }

def evictOldestLocked (l : KeyedLimiter) : Option KeyedLimiter :=
  if l.buckets = [] then none else some { l with buckets := l.buckets.dropLast }

def evictToCap : Nat → KeyedLimiter → KeyedLimiter
  | 0, l => l
  | n + 1, l =>
    if (l.buckets.length : Int) ≥ l.maxBuckets then match l.evictOldestLocked with
      | some l => evictToCap n l
      | none => l
    else l

def sweepIfDue (l : KeyedLimiter) (now : Int) : KeyedLimiter :=
  if l.ttl > 0 ∧ l.sweepEvery > 0 ∧ l.insertCt % l.sweepEvery = 0 then l.sweepLocked now else l

def makeRoom (l : KeyedLimiter) (now : Int) : KeyedLimiter :=
  if l.maxBuckets > 0 ∧ (l.buckets.length : Int) ≥ l.maxBuckets then
    let l := if l.ttl > 0 then l.sweepLocked now else l
    evictToCap (l.buckets.length + 1) l
  else l

def reclaim (l : KeyedLimiter) (c : AllowCall) : KeyedLimiter :=
  let l := { l with insertCt := (l.insertCt + 1) % 2 ^ 64 }
  (l.sweepIfDue c.sweepAt).makeRoom c.capSweepAt

def allow (l : KeyedLimiter) (c : AllowCall) : Bool × KeyedLimiter :=
  match l.lookup c.key with
  | some tb => ((tb.allow c.usedAt).1, l.update c.key (tb.allow c.usedAt).2)
  | none =>
    let l := l.reclaim c
    let tb := newTokenBucket l.rate l.burst c.createdAt
    ((tb.allow c.usedAt).1, { l with buckets := (c.key, (tb.allow c.usedAt).2) :: l.buckets })

def run (l : KeyedLimiter) : List AllowCall → KeyedLimiter
  | [] => l
  | c :: cs => run (l.allow c).2 cs

def answers (l : KeyedLimiter) : List AllowCall → List Bool
  | [] => []
  | c :: cs => (l.allow c).1 :: answers (l.allow c).2 cs

end KeyedLimiter

def rateLimit (cfg : RateLimitConfig) : KeyedLimiter :=
  let rate := if cfg.rate ≤ 0 then defaultRateLimit else cfg.rate
  let burst := if cfg.burst ≤ 0 then (max 1 rate).floor else cfg.burst
  { rate, burst
    maxBuckets := resolveMaxBuckets cfg.maxBuckets
    ttl := resolveIdleTTL cfg.bucketIdleTTL rate burst
    sweepEvery := defaultSweepEvery }

theorem rateLimit_rate_pos (cfg : RateLimitConfig) : 0 < (rateLimit cfg).rate := by
  simp only [rateLimit]
  split
  · norm_num [defaultRateLimit]
  · rename_i h
    exact not_le.1 h

theorem rateLimit_burst_pos (cfg : RateLimitConfig) : 1 ≤ (rateLimit cfg).burst := by
  simp only [rateLimit]
  generalize (if cfg.rate ≤ 0 then defaultRateLimit else cfg.rate) = rate
  split
  · exact Rat.le_floor_iff.2 (by simp)
  · omega

theorem seconds_mono {t t' : Int} (h : t ≤ t') : seconds t ≤ seconds t' :=
  div_le_div_of_nonneg_right (by exact_mod_cast h) (by norm_num [second])

theorem seconds_le_iff {t t' : Int} : seconds t ≤ seconds t' ↔ t ≤ t' := by
  rw [seconds, seconds, div_le_div_iff_of_pos_right (by norm_num [second]), Int.cast_le]

theorem seconds_sub (t t' : Int) : seconds (t - t') = seconds t - seconds t' := by
  simp [seconds, sub_div]

theorem level_new {rate burst : ℚ} {now t : Int} (hrate : 0 ≤ rate) (h : now ≤ t) :
    (⟨burst, seconds now⟩ : Bucket ℚ).level rate burst (seconds t) = burst :=
  Bucket.level_full hrate rfl (seconds_mono h)

namespace TokenBucket

def abs (b : TokenBucket) : Bucket ℚ := ⟨b.tokens, seconds b.last⟩

structure Sound (rate burst : ℚ) (now : Int) (b : TokenBucket) : Prop where
  rate_eq : b.rate = rate
  burst_eq : b.burst = burst
  seen : b.lastSeen = b.last
  last_le : b.last ≤ now
  proper : b.abs.Proper burst

variable {rate burst : ℚ} {now now' : Int} {b : TokenBucket}

theorem Sound.mono (h : b.Sound rate burst now) (hn : now ≤ now') : b.Sound rate burst now' :=
  { h with last_le := h.last_le.trans hn }

theorem refill_eq (hlast : b.last ≤ now) (hle : b.tokens ≤ b.burst) :
    b.refill now = { b with
      tokens := b.abs.level b.rate b.burst (seconds now), last := now } := by
  simp only [TokenBucket.refill, Bucket.level, abs, seconds_sub]
  split
  · rw [mul_comm b.rate]
    congr 1
    split
    · rename_i h
      exact (min_eq_right h.le).symm
    · rename_i h
      exact (min_eq_left (not_lt.1 h)).symm
  · obtain rfl : b.last = now := by omega
    rw [sub_self, mul_zero, add_zero, min_eq_left hle]

theorem Sound.allow (hrate : 0 ≤ rate) (h : b.Sound rate burst now) :
    (b.allow now).1 = (b.abs.take rate burst (seconds now)).1 ∧
    (b.allow now).2.abs = (b.abs.take rate burst (seconds now)).2 ∧
    (b.allow now).2.Sound rate burst now ∧ (b.allow now).2.last = now := by
  have hproper := Bucket.take_proper hrate h.proper (seconds_mono h.last_le)
  obtain ⟨rfl, rfl, -, hlast, hb⟩ := h
  have hrefill := refill_eq (b := { b with lastSeen := now }) hlast hb.2
  simp only [TokenBucket.allow, hrefill]
  unfold Bucket.take at hproper ⊢
  split
  · rename_i h1
    have h1 : 1 ≤ b.abs.level b.rate b.burst (seconds now) := h1
    rw [if_pos h1] at hproper
    rw [if_pos h1]
    exact ⟨rfl, rfl, ⟨rfl, rfl, rfl, le_rfl, hproper⟩, rfl⟩
  · rename_i h1
    have h1 : ¬1 ≤ b.abs.level b.rate b.burst (seconds now) := h1
    rw [if_neg h1] at hproper
    rw [if_neg h1]
    exact ⟨rfl, rfl, ⟨rfl, rfl, rfl, le_rfl, hproper⟩, rfl⟩

theorem sound_new {burst : Int} (hburst : 0 ≤ burst) :
    (newTokenBucket rate burst now).Sound rate burst now :=
  ⟨rfl, rfl, rfl, le_rfl, Int.cast_nonneg hburst, le_rfl⟩

end TokenBucket

namespace KeyedLimiter

variable {l l' : KeyedLimiter} {k : Bytes} {tb : TokenBucket} {now now' : Int} {c : AllowCall}
  {cs : List AllowCall}

def params (l : KeyedLimiter) : ℚ × Int × Int × ℚ × Nat :=
  (l.rate, l.burst, l.maxBuckets, l.ttl, l.sweepEvery)

def Drops (l l' : KeyedLimiter) : Prop := l'.params = l.params ∧ l'.buckets.Sublist l.buckets

theorem Drops.refl (l : KeyedLimiter) : Drops l l := ⟨rfl, .refl _⟩

theorem Drops.trans {l₁ l₂ l₃ : KeyedLimiter} (h : Drops l₁ l₂) (h' : Drops l₂ l₃) : Drops l₁ l₃ :=
  ⟨h'.1.trans h.1, h'.2.trans h.2⟩

theorem sweepLocked_drops (l : KeyedLimiter) (now : Int) : Drops l (l.sweepLocked now) :=
  ⟨rfl, List.filter_sublist⟩

theorem evictToCap_drops (n : Nat) (l : KeyedLimiter) : Drops l (evictToCap n l) := by
  induction n generalizing l with
  | zero => exact .refl l
  | succ n ih =>
    rw [evictToCap]
    split
    · unfold evictOldestLocked
      split
      · rename_i l' h
        split at h
        · cases h
        · cases h
          have hl : Drops l { l with buckets := l.buckets.dropLast } :=
            ⟨rfl, List.dropLast_sublist _⟩
          exact hl.trans (ih _)
      · exact .refl l
    · exact .refl l

theorem sweepIfDue_drops (l : KeyedLimiter) (now : Int) : Drops l (l.sweepIfDue now) := by
  unfold sweepIfDue
  split
  · exact sweepLocked_drops l now
  · exact .refl l

theorem makeRoom_drops (l : KeyedLimiter) (now : Int) : Drops l (l.makeRoom now) := by
  unfold makeRoom
  split
  · apply Drops.trans _ (evictToCap_drops _ _)
    split
    · exact sweepLocked_drops l now
    · exact .refl l
  · exact .refl l

theorem reclaim_drops (l : KeyedLimiter) (c : AllowCall) : Drops l (l.reclaim c) := by
  have h : Drops l { l with insertCt := (l.insertCt + 1) % 2 ^ 64 } := ⟨rfl, .refl _⟩
  exact h.trans ((sweepIfDue_drops _ _).trans (makeRoom_drops _ _))

theorem allow_hit (h : l.lookup c.key = some tb) :
    l.allow c = ((tb.allow c.usedAt).1, l.update c.key (tb.allow c.usedAt).2) := by
  rw [allow, h]

def fresh (l : KeyedLimiter) (c : AllowCall) : TokenBucket :=
  newTokenBucket l.rate l.burst c.createdAt

theorem allow_miss (h : l.lookup c.key = none) : l.allow c = (((l.fresh c).allow c.usedAt).1,
    { l.reclaim c with
      buckets := (c.key, ((l.fresh c).allow c.usedAt).2) :: (l.reclaim c).buckets }) := by
  have hp := (reclaim_drops l c).1
  simp only [params, Prod.mk.injEq] at hp
  rw [allow, h]
  simp only [fresh, hp]

theorem allow_params (l : KeyedLimiter) (c : AllowCall) : (l.allow c).2.params = l.params := by
  cases h : l.lookup c.key with
  | some tb =>
    rw [allow_hit h]
    rfl
  | none =>
    rw [allow_miss h]
    exact (reclaim_drops l c).1

structure Sound (now : Int) (l : KeyedLimiter) : Prop where
  rate_nonneg : 0 ≤ l.rate
  burst_nonneg : 0 ≤ l.burst
  distinct : Assoc.Distinct l.buckets
  buckets : ∀ e ∈ l.buckets, e.2.Sound l.rate l.burst now

theorem Sound.mono (h : l.Sound now) (hn : now ≤ now') : l.Sound now' :=
  { h with buckets := fun e he => (h.buckets e he).mono hn }

theorem Sound.drops (h : l.Sound now) (hd : Drops l l') : l'.Sound now := by
  obtain ⟨hp, hs⟩ := hd
  simp only [params, Prod.mk.injEq] at hp
  obtain ⟨hrate, hburst, -⟩ := hp
  constructor
  · rw [hrate]
    exact h.rate_nonneg
  · rw [hburst]
    exact h.burst_nonneg
  · exact h.distinct.sublist hs
  · rw [hrate, hburst]
    exact fun e he => h.buckets e (hs.subset he)

theorem Sound.lookup (h : l.Sound now) (hl : l.lookup k = some tb) :
    tb.Sound l.rate l.burst now :=
  h.buckets _ (Assoc.mem_of_get hl)

theorem Sound.fresh (h : l.Sound now) (h₂ : c.createdAt ≤ c.usedAt) :
    (l.fresh c).Sound l.rate l.burst c.usedAt :=
  (TokenBucket.sound_new h.burst_nonneg).mono h₂

theorem Sound.allow (h : l.Sound now) (h₁ : now ≤ c.createdAt) (h₂ : c.createdAt ≤ c.usedAt) :
    (l.allow c).2.Sound c.usedAt := by
  have hused := h.mono (h₁.trans h₂)
  cases hl : l.lookup c.key with
  | some tb =>
    have htb := ((hused.lookup hl).allow h.rate_nonneg).2.2.1
    rw [allow_hit hl]
    refine ⟨h.rate_nonneg, h.burst_nonneg, ?_, ?_⟩
    · rw [Assoc.Distinct, update, Assoc.map_fst_replace]
      exact h.distinct
    · intro e he
      obtain ⟨e', he', rfl⟩ := List.mem_map.1 he
      split
      · exact htb
      · exact hused.buckets e' he'
  | none =>
    have htb := ((h.fresh h₂).allow h.rate_nonneg).2.2.1
    have hdrops := reclaim_drops l c
    have hrest := hused.drops hdrops
    have hp := hdrops.1
    simp only [params, Prod.mk.injEq] at hp
    rw [allow_miss hl]
    refine ⟨hrest.rate_nonneg, hrest.burst_nonneg, ?_, ?_⟩
    · refine List.nodup_cons.2 ⟨fun hmem => ?_, hrest.distinct⟩
      exact Assoc.get_eq_none.1 hl ((hdrops.2.map _).subset hmem)
    · refine List.forall_mem_cons.2 ⟨?_, hrest.buckets⟩
      rwa [hp.1, hp.2.1]

theorem lookup_allow_of_ne (h : l.Sound now) (hk : c.key ≠ k)
    (hl : (l.allow c).2.lookup k = some tb) : l.lookup k = some tb := by
  cases hc : l.lookup c.key with
  | some tb' =>
    rw [allow_hit hc, update, KeyedLimiter.lookup, Assoc.get_replace, if_neg hk.symm] at hl
    exact hl
  | none =>
    rw [allow_miss hc, KeyedLimiter.lookup, Assoc.get_cons, if_neg hk] at hl
    exact Assoc.get_sublist h.distinct (reclaim_drops l c).2 hl

def used (l : KeyedLimiter) (c : AllowCall) : TokenBucket := (l.lookup c.key).getD (l.fresh c)

theorem allow_fst (l : KeyedLimiter) (c : AllowCall) :
    (l.allow c).1 = ((l.used c).allow c.usedAt).1 := by
  cases h : l.lookup c.key with
  | some tb => rw [allow_hit h, used, h, Option.getD_some]
  | none => rw [allow_miss h, used, h, Option.getD_none]

theorem lookup_allow_self (l : KeyedLimiter) (c : AllowCall) :
    (l.allow c).2.lookup c.key = some ((l.used c).allow c.usedAt).2 := by
  cases h : l.lookup c.key with
  | some tb =>
    have h' : Assoc.get l.buckets c.key = some tb := h
    rw [allow_hit h, used, h, update, KeyedLimiter.lookup, Assoc.get_replace, if_pos rfl, h']
    rfl
  | none =>
    rw [allow_miss h, used, h, KeyedLimiter.lookup, Assoc.get_cons, if_pos rfl]
    rfl

def keyTrace (k : Bytes) (l : KeyedLimiter) : List AllowCall → List (Int × Bool)
  | [] => []
  | c :: cs =>
    if c.key = k then (c.usedAt, (l.allow c).1) :: keyTrace k (l.allow c).2 cs
    else keyTrace k (l.allow c).2 cs

/-- No call drops the bucket of `k`. -/
def NoEviction (k : Bytes) (l : KeyedLimiter) : List AllowCall → Prop
  | [] => True
  | c :: cs =>
    ((l.lookup k).isSome → ((l.allow c).2.lookup k).isSome) ∧ NoEviction k (l.allow c).2 cs

theorem noEviction_self (h : ∀ c ∈ cs, c.key = k) : NoEviction k l cs := by
  induction cs generalizing l with
  | nil => trivial
  | cons c cs ih =>
    obtain ⟨rfl, hcs⟩ := List.forall_mem_cons.1 h
    refine ⟨fun _ => ?_, ih hcs⟩
    rw [lookup_allow_self]
    rfl

def bucketAt (k : Bytes) (now : Int) (l : KeyedLimiter) : Bucket ℚ :=
  match l.lookup k with
  | some tb => tb.abs
  | none => ⟨l.burst, seconds now⟩

def Clock (now : Int) (cs : List AllowCall) : Prop :=
  List.IsChain (· ≤ ·) (now :: cs.flatMap fun c => [c.sweepAt, c.capSweepAt, c.createdAt, c.usedAt])

theorem clock_cons : Clock now (c :: cs) ↔ now ≤ c.sweepAt ∧ c.sweepAt ≤ c.capSweepAt ∧
    c.capSweepAt ≤ c.createdAt ∧ c.createdAt ≤ c.usedAt ∧ Clock c.usedAt cs := by
  simp only [Clock, List.flatMap_cons, List.cons_append, List.nil_append, List.isChain_cons_cons]

theorem Clock.le (h : Clock now cs) : ∀ c ∈ cs, now ≤ c.usedAt := by
  induction cs generalizing now with
  | nil => simp
  | cons c cs ih =>
    obtain ⟨h₁, h₂, h₃, h₄, h⟩ := clock_cons.1 h
    have hc : now ≤ c.usedAt := h₁.trans (h₂.trans (h₃.trans h₄))
    exact List.forall_mem_cons.2 ⟨hc, fun c' hc' => hc.trans (ih h c' hc')⟩

theorem Sound.used (h : l.Sound now) (h₁ : now ≤ c.createdAt) (h₂ : c.createdAt ≤ c.usedAt) :
    (l.used c).Sound l.rate l.burst c.usedAt := by
  rw [KeyedLimiter.used]
  cases hl : l.lookup c.key with
  | some tb => exact (h.lookup hl).mono (h₁.trans h₂)
  | none => exact h.fresh h₂

theorem Sound.take (h : l.Sound now) (h₁ : now ≤ c.createdAt) (h₂ : c.createdAt ≤ c.usedAt) :
    (l.allow c).1 = ((bucketAt c.key now l).take l.rate l.burst (seconds c.usedAt)).1 ∧
    bucketAt c.key c.usedAt (l.allow c).2 =
      ((bucketAt c.key now l).take l.rate l.burst (seconds c.usedAt)).2 := by
  have hbucket : (bucketAt c.key now l).take l.rate l.burst (seconds c.usedAt) =
      (l.used c).abs.take l.rate l.burst (seconds c.usedAt) := by
    rw [bucketAt, KeyedLimiter.used]
    cases hl : l.lookup c.key with
    | some tb => rfl
    | none =>
      apply Bucket.take_congr
      exact (level_new h.rate_nonneg (h₁.trans h₂)).trans (level_new h.rate_nonneg h₂).symm
  obtain ⟨hok, habs, -⟩ := (h.used h₁ h₂).allow h.rate_nonneg
  rw [hbucket, allow_fst, bucketAt, lookup_allow_self]
  exact ⟨hok, habs⟩

/-- Calls on `k` go to one token bucket. -/
theorem keyTrace_eq (h : l.Sound now) (hclock : Clock now cs) (hkeep : NoEviction k l cs) :
    (keyTrace k l cs).map (fun p => (seconds p.1, p.2)) =
      (bucketAt k now l).trace l.rate l.burst
        ((cs.filter (·.key = k)).map fun c => seconds c.usedAt) := by
  induction cs generalizing l now with
  | nil => rfl
  | cons c cs ih =>
    obtain ⟨h₁, h₂, h₃, h₄, hclock⟩ := clock_cons.1 hclock
    obtain ⟨hk, hkeep⟩ := hkeep
    have hcreated : now ≤ c.createdAt := h₁.trans (h₂.trans h₃)
    have ih := ih (h.allow hcreated h₄) hclock hkeep
    have hp := allow_params l c
    simp only [params, Prod.mk.injEq] at hp
    rw [hp.1, hp.2.1] at ih
    rw [keyTrace]
    split
    · rename_i hkey
      subst hkey
      obtain ⟨hok, hnext⟩ := h.take hcreated h₄
      rw [List.map_cons, ih, hnext, hok, List.filter_cons_of_pos (by simp), List.map_cons,
        Bucket.trace]
    · rename_i hkey
      rw [ih, List.filter_cons_of_neg (by simpa using hkey)]
      cases hl : l.lookup k with
      | some tb =>
        rw [hl] at hk
        obtain ⟨tb', htb'⟩ := Option.isSome_iff_exists.1 (hk rfl)
        have heq := lookup_allow_of_ne h hkey htb'
        rw [bucketAt, htb', bucketAt, heq]
      | none =>
        have hnone : (l.allow c).2.lookup k = none := by
          cases htb' : (l.allow c).2.lookup k with
          | none => rfl
          | some tb' =>
            rw [lookup_allow_of_ne h hkey htb'] at hl
            cases hl
        rw [bucketAt, hnone, bucketAt, hl, hp.2.1]
        apply Bucket.trace_congr
        intro t ht
        obtain ⟨c', hc', rfl⟩ := List.mem_map.1 (List.mem_of_mem_head? ht)
        have hle := hclock.le c' (List.mem_of_mem_filter hc')
        exact (level_new h.rate_nonneg hle).trans
          (level_new h.rate_nonneg (hcreated.trans (h₄.trans hle))).symm


theorem Clock.chain {p : AllowCall → Bool} {t : Int} (h : Clock now cs) (ht : t ≤ now) :
    List.IsChain (· ≤ ·) (seconds t :: (cs.filter p).map fun c => seconds c.usedAt) := by
  induction cs generalizing now t with
  | nil => exact .singleton _
  | cons c cs ih =>
    obtain ⟨h₁, h₂, h₃, h₄, h⟩ := clock_cons.1 h
    have hc : t ≤ c.usedAt := ht.trans (h₁.trans (h₂.trans (h₃.trans h₄)))
    cases hp : p c with
    | true =>
      rw [List.filter_cons_of_pos hp, List.map_cons, List.isChain_cons_cons]
      exact ⟨seconds_mono hc, ih h le_rfl⟩
    | false =>
      rw [List.filter_cons_of_neg (by simp [hp])]
      exact ih h hc

theorem Sound.proper (h : l.Sound now) (k : Bytes) :
    Bucket.Proper (l.burst : ℚ) (bucketAt k now l) ∧
      ∃ t ≤ now, (bucketAt k now l).last = seconds t := by
  rw [bucketAt]
  cases hl : l.lookup k with
  | some tb => exact ⟨(h.lookup hl).proper, tb.last, (h.lookup hl).last_le, rfl⟩
  | none => exact ⟨⟨Int.cast_nonneg h.burst_nonneg, le_rfl⟩, now, le_rfl, rfl⟩

def admitted (a b : Int) (calls : List (Int × Bool)) : Nat :=
  calls.countP fun p => p.2 && decide (a ≤ p.1 ∧ p.1 ≤ b)

theorem admitted_append (a b : Int) (calls calls' : List (Int × Bool)) :
    admitted a b (calls ++ calls') = admitted a b calls + admitted a b calls' :=
  List.countP_append

theorem Sound.admitted_le {a b : Int} (h : l.Sound now) (hclock : Clock now cs)
    (hkeep : NoEviction k l cs) (hab : a ≤ b) :
    (admitted a b (keyTrace k l cs) : ℚ) ≤ l.burst + l.rate * seconds (b - a) := by
  obtain ⟨hproper, t, ht, hlast⟩ := h.proper k
  have hchain := hclock.chain (p := fun c => c.key = k) ht
  rw [← hlast] at hchain
  have hcount : admitted a b (keyTrace k l cs) = Bucket.admitted (seconds a) (seconds b)
      ((bucketAt k now l).trace l.rate l.burst
        ((cs.filter (·.key = k)).map fun c => seconds c.usedAt)) := by
    rw [← keyTrace_eq h hclock hkeep, Bucket.admitted, List.countP_map, admitted]
    apply List.countP_congr
    intro p _
    simp only [Function.comp_apply, seconds_le_iff]
  rw [hcount, seconds_sub]
  have hsec := seconds_mono hab
  exact (Bucket.admitted_le h.rate_nonneg hproper hsec hchain).trans
    (Bucket.budget_le h.rate_nonneg hproper hsec)

theorem Sound.admits (h : l.Sound now) (hclock : Clock now cs) (hkeep : NoEviction k l cs)
    (hfull : ∀ c ∈ cs, c.key = k →
      (bucketAt k now l).level l.rate l.burst (seconds c.usedAt) = l.burst) :
    ∀ p ∈ (keyTrace k l cs).take l.burst.toNat, p.2 = true := by
  obtain ⟨hproper, t, ht, hlast⟩ := h.proper k
  have hchain := hclock.chain (p := fun c => c.key = k) ht
  rw [← hlast] at hchain
  intro p hp
  have hmem := List.mem_map_of_mem (f := fun p : Int × Bool => (seconds p.1, p.2)) hp
  rw [List.map_take, keyTrace_eq h hclock hkeep, Bucket.trace_take] at hmem
  refine Bucket.trace_all h.rate_nonneg hproper ?_ ?_ _ hmem
  · exact hchain.sublist (List.Sublist.cons_cons _ (List.take_sublist _ _))
  · intro t ht
    obtain ⟨c, hc, rfl⟩ := List.mem_map.1 (List.mem_of_mem_take (List.mem_of_mem_head? ht))
    obtain ⟨hc, hkey⟩ := List.mem_filter.1 hc
    rw [hfull c hc (by simpa using hkey), ← Int.toNat_of_nonneg h.burst_nonneg]
    exact_mod_cast List.length_take_le _ _

theorem run_append (l : KeyedLimiter) (cs₁ cs₂ : List AllowCall) :
    l.run (cs₁ ++ cs₂) = (l.run cs₁).run cs₂ := by
  induction cs₁ generalizing l with
  | nil => rfl
  | cons c cs₁ ih => exact ih _

theorem keyTrace_append (k : Bytes) (l : KeyedLimiter) (cs₁ cs₂ : List AllowCall) :
    keyTrace k l (cs₁ ++ cs₂) = keyTrace k l cs₁ ++ keyTrace k (l.run cs₁) cs₂ := by
  induction cs₁ generalizing l with
  | nil => rfl
  | cons c cs₁ ih =>
    rw [List.cons_append, keyTrace, keyTrace, ih, run]
    split <;> rfl

theorem NoEviction.of_append {cs₁ cs₂ : List AllowCall} (h : NoEviction k l (cs₁ ++ cs₂)) :
    NoEviction k (l.run cs₁) cs₂ := by
  induction cs₁ generalizing l with
  | nil => exact h
  | cons c cs₁ ih => exact ih h.2

theorem run_params (l : KeyedLimiter) (cs : List AllowCall) : (l.run cs).params = l.params := by
  induction cs generalizing l with
  | nil => rfl
  | cons c cs ih => exact (ih _).trans (allow_params l c)

theorem Sound.run {cs₁ cs₂ : List AllowCall} (h : l.Sound now) (hclock : Clock now (cs₁ ++ cs₂)) :
    ∃ now', (l.run cs₁).Sound now' ∧ Clock now' cs₂ ∧ ∀ k tb, (l.run cs₁).lookup k = some tb →
      l.lookup k = some tb ∨ ∃ c ∈ cs₁, c.key = k ∧ tb.last = c.usedAt := by
  induction cs₁ generalizing l now with
  | nil => exact ⟨now, h, hclock, fun k tb htb => .inl htb⟩
  | cons c cs₁ ih =>
    obtain ⟨h₁, h₂, h₃, h₄, hclock⟩ := clock_cons.1 hclock
    have hcreated : now ≤ c.createdAt := h₁.trans (h₂.trans h₃)
    obtain ⟨now', hsound, hclock', hlast⟩ := ih (h.allow hcreated h₄) hclock
    refine ⟨now', hsound, hclock', fun k tb htb => ?_⟩
    obtain htb | ⟨c', hc', hk, htb⟩ := hlast k tb htb
    · by_cases hk : c.key = k
      · subst hk
        rw [lookup_allow_self] at htb
        cases htb
        exact .inr ⟨c, List.mem_cons_self, rfl, ((h.used hcreated h₄).allow h.rate_nonneg).2.2.2⟩
      · exact .inl (lookup_allow_of_ne h hk htb)
    · exact .inr ⟨c', List.mem_cons_of_mem c hc', hk, htb⟩

end KeyedLimiter

theorem refillTime_le_iff {rate : ℚ} {burst d : Int} (hrate : 0 < rate) :
    refillTime rate burst ≤ d ↔ burst ≤ rate * seconds d := by
  have hsecond : (0 : ℚ) < second := by norm_num [second]
  rw [refillTime, seconds, ← mul_div_assoc, div_mul_eq_mul_div, div_le_iff₀ hrate,
    le_div_iff₀ hsecond, mul_comm rate]

open KeyedLimiter

theorem rateLimit_sound (cfg : RateLimitConfig) (now : Int) : (rateLimit cfg).Sound now := by
  refine ⟨(rateLimit_rate_pos cfg).le, ?_, .nil, by simp [rateLimit]⟩
  exact Int.le_trans (by decide) (rateLimit_burst_pos cfg)

theorem rateLimit_run (cfg : RateLimitConfig) {now : Int} {cs₁ cs₂ : List AllowCall}
    (hclock : Clock now (cs₁ ++ cs₂)) :
    ∃ now', ((rateLimit cfg).run cs₁).Sound now' ∧ Clock now' cs₂ ∧
      ∀ k tb, ((rateLimit cfg).run cs₁).lookup k = some tb →
        ∃ c ∈ cs₁, c.key = k ∧ tb.last = c.usedAt := by
  obtain ⟨now', hsound, hclock', hlast⟩ := (rateLimit_sound cfg now).run hclock
  refine ⟨now', hsound, hclock', fun k tb htb => ?_⟩
  obtain hempty | hused := hlast k tb htb
  · cases hempty
  · exact hused

/-- In an interval a key has no more calls admitted than its bucket holds and what flows into it,
and a key that has been idle for as long as the bucket takes to fill has a whole burst admitted. -/
theorem key_admissions_bounded (cfg : RateLimitConfig) (k : Bytes) (now : Int) (cs : List AllowCall)
    (hclock : Clock now cs) (hkeep : NoEviction k (rateLimit cfg) cs) :
    (∀ a b, a ≤ b → (admitted a b (keyTrace k (rateLimit cfg) cs) : ℚ) ≤
      (rateLimit cfg).burst + (rateLimit cfg).rate * seconds (b - a)) ∧
    ∀ cs₁ cs₂, cs = cs₁ ++ cs₂ →
      (∀ c₁ ∈ cs₁, ∀ c₂ ∈ cs₂, c₁.key = k → c₂.key = k →
        refillTime (rateLimit cfg).rate (rateLimit cfg).burst ≤ (c₂.usedAt - c₁.usedAt : Int)) →
      ∀ p ∈ (keyTrace k ((rateLimit cfg).run cs₁) cs₂).take (rateLimit cfg).burst.toNat,
        p.2 = true := by
  have hsound := rateLimit_sound cfg now
  refine ⟨fun a b hab => hsound.admitted_le hclock hkeep hab, ?_⟩
  rintro cs₁ cs₂ rfl hidle
  obtain ⟨now', hsound', hclock', hlast⟩ := rateLimit_run cfg hclock
  have hparams := run_params (rateLimit cfg) cs₁
  simp only [params, Prod.mk.injEq] at hparams
  rw [← hparams.2.1]
  apply hsound'.admits hclock' hkeep.of_append
  intro c hc hk
  have hle := hclock'.le c hc
  rw [bucketAt]
  cases htb : ((rateLimit cfg).run cs₁).lookup k with
  | none => exact level_new hsound'.rate_nonneg hle
  | some tb =>
    obtain ⟨c₁, hc₁, hk₁, hused⟩ := hlast k tb htb
    have hrefill := hidle c₁ hc₁ c hc hk₁ hk
    rw [refillTime_le_iff (rateLimit_rate_pos cfg), ← hused, seconds_sub] at hrefill
    apply Bucket.level_refilled (hsound'.lookup htb).proper
    rwa [hparams.1, hparams.2.1]

def callAt (t : Int) (k : Bytes) : AllowCall := ⟨k, t, t, t, t⟩

def fourCalls : List AllowCall := [0, 0, second, 3 * second].map fun t => callAt t []

theorem key_admissions_bounded_two :
    (admitted 0 second (keyTrace [] (rateLimit { rate := 1, burst := 2 }) fourCalls) : ℚ) ≤
      (rateLimit { rate := 1, burst := 2 }).burst +
        (rateLimit { rate := 1, burst := 2 }).rate * seconds (second - 0) :=
  (key_admissions_bounded { rate := 1, burst := 2 } [] 0 fourCalls (by unfold Clock; decide)
    (noEviction_self (by decide))).1 0 second (by decide)

namespace KeyedLimiter

variable {l l' : KeyedLimiter} {k : Bytes} {tb : TokenBucket} {now now' : Int} {c : AllowCall}
  {cs : List AllowCall}

/-- A limiter that drops a bucket only when it is full. -/
structure Lossless (l : KeyedLimiter) : Prop where
  uncapped : l.maxBuckets ≤ 0
  refilled : 0 < l.ttl → ∀ d : Int, l.ttl < d → l.burst ≤ l.rate * seconds d

theorem Lossless.of_params (h : l.Lossless) (hp : l'.params = l.params) : l'.Lossless := by
  simp only [params, Prod.mk.injEq] at hp
  obtain ⟨hrate, hburst, hmax, httl, -⟩ := hp
  constructor
  · rw [hmax]
    exact h.uncapped
  · rw [hrate, hburst, httl]
    exact h.refilled

theorem makeRoom_uncapped (h : l.maxBuckets ≤ 0) : l.makeRoom now = l := by
  rw [makeRoom, if_neg fun hroom => not_lt.2 h hroom.1]

def SweepDue (l : KeyedLimiter) : Prop :=
  l.ttl > 0 ∧ l.sweepEvery > 0 ∧ (l.insertCt + 1) % 2 ^ 64 % l.sweepEvery = 0

instance (l : KeyedLimiter) : Decidable l.SweepDue := by
  unfold SweepDue
  infer_instance

theorem lookup_sweepIfDue (h : Assoc.Distinct l.buckets) : (l.sweepIfDue now).lookup k =
    if l.ttl > 0 ∧ l.sweepEvery > 0 ∧ l.insertCt % l.sweepEvery = 0 then
      (l.lookup k).filter fun tb => ¬(tb.lastSeen < now - l.ttl)
    else l.lookup k := by
  unfold sweepIfDue
  split
  · exact Assoc.get_filter h _
  · rfl

theorem lookup_allow_miss (h : l.Sound now) (hcap : l.maxBuckets ≤ 0) (hk : c.key ≠ k)
    (hmiss : l.lookup c.key = none) : (l.allow c).2.lookup k =
      if l.SweepDue then (l.lookup k).filter fun tb => ¬(tb.lastSeen < c.sweepAt - l.ttl)
      else l.lookup k := by
  have hparams := (sweepIfDue_drops { l with insertCt := (l.insertCt + 1) % 2 ^ 64 } c.sweepAt).1
  simp only [params, Prod.mk.injEq] at hparams
  rw [allow_miss hmiss, KeyedLimiter.lookup, Assoc.get_cons, if_neg hk, reclaim,
    makeRoom_uncapped (hparams.2.2.1.trans_le hcap)]
  exact lookup_sweepIfDue (l := { l with insertCt := (l.insertCt + 1) % 2 ^ 64 }) h.distinct

theorem swept_of_dropped (h : l.Sound now) (hcap : l.maxBuckets ≤ 0) (hk : c.key ≠ k)
    (hbefore : l.lookup k = some tb) (hafter : (l.allow c).2.lookup k = none) :
    0 < l.ttl ∧ tb.lastSeen < c.sweepAt - l.ttl := by
  cases hc : l.lookup c.key with
  | some tb' =>
    have hkept : l.lookup k = none := by
      rwa [allow_hit hc, update, KeyedLimiter.lookup, Assoc.get_replace, if_neg hk.symm] at hafter
    rw [hbefore] at hkept
    cases hkept
  | none =>
    rw [lookup_allow_miss h hcap hk hc, hbefore] at hafter
    split at hafter
    · rename_i hdue
      have hidle : tb.lastSeen + l.ttl < c.sweepAt := by simpa using hafter
      exact ⟨hdue.1, lt_sub_iff_add_lt.2 hidle⟩
    · cases hafter

theorem swept_of_due (h : l.Sound now) (hcap : l.maxBuckets ≤ 0) (hdue : l.SweepDue)
    (hmiss : l.lookup c.key = none) (hk : c.key ≠ k)
    (hidle : ∀ tb, l.lookup k = some tb → tb.lastSeen < c.sweepAt - l.ttl) :
    (l.allow c).2.lookup k = none := by
  rw [lookup_allow_miss h hcap hk hmiss, if_pos hdue, Option.filter_eq_none_iff]
  intro tb htb
  simpa using lt_sub_iff_add_lt.1 (hidle tb htb)

theorem noEviction_unswept (h : l.Sound now) (hclock : Clock now cs) (hcap : l.maxBuckets ≤ 0)
    (httl : l.ttl ≤ 0) : NoEviction k l cs := by
  induction cs generalizing l now with
  | nil => trivial
  | cons c cs ih =>
    obtain ⟨h₁, h₂, h₃, h₄, hclock⟩ := clock_cons.1 hclock
    have hp := allow_params l c
    simp only [params, Prod.mk.injEq] at hp
    refine ⟨fun hsome => ?_, ih (h.allow (h₁.trans (h₂.trans h₃)) h₄) hclock
      (hp.2.2.1.trans_le hcap) (hp.2.2.2.1.trans_le httl)⟩
    obtain ⟨tb, htb⟩ := Option.isSome_iff_exists.1 hsome
    by_cases hk : c.key = k
    · rw [← hk, lookup_allow_self]
      rfl
    · rw [Option.isSome_iff_ne_none]
      intro hnone
      exact not_lt.2 httl (swept_of_dropped h hcap hk htb hnone).1

theorem Lossless.level_of_ne {t : Int} (hl : l.Lossless) (h : l.Sound now) (h₁ : now ≤ c.sweepAt)
    (h₂ : c.sweepAt ≤ c.usedAt) (hk : c.key ≠ k) (ht : c.usedAt ≤ t) :
    (bucketAt k c.usedAt (l.allow c).2).level l.rate l.burst (seconds t) =
      (bucketAt k now l).level l.rate l.burst (seconds t) := by
  have hparams := allow_params l c
  simp only [params, Prod.mk.injEq] at hparams
  have hnow : now ≤ t := h₁.trans (h₂.trans ht)
  cases hafter : (l.allow c).2.lookup k with
  | some tb => rw [bucketAt, hafter, bucketAt, lookup_allow_of_ne h hk hafter]
  | none =>
    rw [bucketAt, hafter, hparams.2.1, bucketAt]
    refine (level_new h.rate_nonneg ht).trans ?_
    cases hbefore : l.lookup k with
    | none => exact (level_new h.rate_nonneg hnow).symm
    | some tb =>
      have htb := h.lookup hbefore
      obtain ⟨httl, hidle⟩ := swept_of_dropped h hl.uncapped hk hbefore hafter
      have hle : (c.sweepAt : ℚ) ≤ t := by exact_mod_cast h₂.trans ht
      have hrefill := hl.refilled httl (t - tb.last) (by
        rw [Int.cast_sub, ← htb.seen]
        linarith)
      rw [seconds_sub] at hrefill
      exact (Bucket.level_refilled htb.proper hrefill).symm

/-- Two limiters that drop full buckets only cannot be told apart. -/
theorem Lossless.answers_eq (hl : l.Lossless) (hl' : l'.Lossless) (h : l.Sound now)
    (h' : l'.Sound now) (hrate : l'.rate = l.rate) (hburst : l'.burst = l.burst)
    (hsame : ∀ k t, now ≤ t → (bucketAt k now l).level l.rate l.burst (seconds t) =
      (bucketAt k now l').level l.rate l.burst (seconds t))
    (hclock : Clock now cs) : l.answers cs = l'.answers cs := by
  induction cs generalizing l l' now with
  | nil => rfl
  | cons c cs ih =>
    obtain ⟨h₁, h₂, h₃, h₄, hclock⟩ := clock_cons.1 hclock
    have hcreated : now ≤ c.createdAt := h₁.trans (h₂.trans h₃)
    have hused : c.sweepAt ≤ c.usedAt := h₂.trans (h₃.trans h₄)
    obtain ⟨hok, hnext⟩ := h.take hcreated h₄
    obtain ⟨hok', hnext'⟩ := h'.take hcreated h₄
    have htake := Bucket.take_congr (hsame c.key c.usedAt (hcreated.trans h₄))
    rw [hrate, hburst, ← htake] at hok' hnext'
    have hp := allow_params l c
    have hp' := allow_params l' c
    have hnext_l := hl.of_params hp
    have hnext_l' := hl'.of_params hp'
    simp only [params, Prod.mk.injEq] at hp hp'
    rw [answers, answers, hok, hok']
    congr 1
    apply ih hnext_l hnext_l' (h.allow hcreated h₄) (h'.allow hcreated h₄)
    · rw [hp.1, hp'.1, hrate]
    · rw [hp.2.1, hp'.2.1, hburst]
    · intro k t ht
      rw [hp.1, hp.2.1]
      by_cases hk : c.key = k
      · subst hk
        rw [hnext, hnext']
      · have hlevel' := hl'.level_of_ne h' h₁ hused hk ht
        rw [hrate, hburst] at hlevel'
        rw [hl.level_of_ne h h₁ hused hk ht, hlevel',
          hsame k t (h₁.trans (hused.trans ht))]
    · exact hclock

end KeyedLimiter

/-- The limiter keeps every bucket for as long as it takes to fill. -/
def TtlCoversRefill (cfg : RateLimitConfig) : Prop :=
  cfg.bucketIdleTTL < 0 ∨ refillTime (rateLimit cfg).rate (rateLimit cfg).burst ≤
    (max maxTTL cfg.bucketIdleTTL + 1 : Int)

theorem rateLimit_ttl (cfg : RateLimitConfig) : (rateLimit cfg).ttl =
    resolveIdleTTL cfg.bucketIdleTTL (rateLimit cfg).rate (rateLimit cfg).burst := rfl

theorem resolveIdleTTL_of_lt {cfg burst : Int} {rate : ℚ} (hcfg : 0 ≤ cfg)
    (h : refillTime rate burst < maxTTL) :
    refillTime rate burst ≤ resolveIdleTTL cfg rate burst := by
  have hmax (r f : ℚ) : r ≤ if r > f then r else f := by
    split
    · exact le_rfl
    · exact not_lt.1 ‹_›
  rw [resolveIdleTTL, if_neg (not_lt.2 hcfg)]
  refine le_trans ?_ (hmax _ _)
  split
  · exact le_rfl
  · exact h.le

theorem resolveIdleTTL_of_ge {cfg burst : Int} {rate : ℚ} (hcfg : 0 ≤ cfg)
    (h : maxTTL ≤ refillTime rate burst) :
    resolveIdleTTL cfg rate burst = (max maxTTL cfg : Int) := by
  rw [resolveIdleTTL, if_neg (not_lt.2 hcfg)]
  simp only [not_lt.2 h, and_false, if_false, gt_iff_lt, Int.cast_lt]
  rw [← apply_ite, Int.cast_inj]
  simp only [maxTTL, defaultBucketIdleTTL, second]
  split <;> split <;> omega

theorem rateLimit_uncapped {cfg : RateLimitConfig} (h : cfg.maxBuckets < 0) :
    (rateLimit cfg).maxBuckets = 0 := by
  simp [rateLimit, resolveMaxBuckets, h, h.ne]

theorem rateLimit_lossless {cfg : RateLimitConfig} (hcap : cfg.maxBuckets < 0)
    (h : TtlCoversRefill cfg) : (rateLimit cfg).Lossless := by
  constructor
  · exact (rateLimit_uncapped hcap).le
  · intro httl d hd
    rw [← refillTime_le_iff (rateLimit_rate_pos cfg)]
    rw [rateLimit_ttl] at httl hd
    obtain hcfg | h := h
    · rw [resolveIdleTTL, if_pos hcfg] at httl
      exact absurd httl (lt_irrefl 0)
    have hcfg : 0 ≤ cfg.bucketIdleTTL := by
      by_contra hneg
      rw [resolveIdleTTL, if_pos (not_le.1 hneg)] at httl
      exact absurd httl (lt_irrefl 0)
    by_cases hlt : refillTime (rateLimit cfg).rate (rateLimit cfg).burst < maxTTL
    · exact (resolveIdleTTL_of_lt hcfg hlt).trans hd.le
    · rw [resolveIdleTTL_of_ge hcfg (not_lt.1 hlt), Int.cast_lt] at hd
      exact h.trans (Int.cast_le.2 hd)

theorem keyTrace_congr {l l' : KeyedLimiter} {cs : List AllowCall}
    (h : l.answers cs = l'.answers cs) (k : Bytes) : keyTrace k l cs = keyTrace k l' cs := by
  induction cs generalizing l l' with
  | nil => rfl
  | cons c cs ih =>
    obtain ⟨hc, hcs⟩ := List.cons.inj h
    rw [keyTrace, keyTrace, hc, ih hcs]

def newKeys (t : Int) (n : Nat) : List AllowCall :=
  (List.range n).map fun i => callAt t [UInt8.ofNat i]

def burstsAround (burst : Nat) (t : Int) : List AllowCall :=
  List.replicate burst (callAt 0 []) ++ newKeys t 255 ++ List.replicate burst (callAt t [])

namespace KeyedLimiter

variable {l l' : KeyedLimiter} {k : Bytes} {tb : TokenBucket} {now now' t : Int} {c : AllowCall}
  {cs cs' : List AllowCall}

theorem Clock.append_callAt (hcs : ∀ c ∈ cs, c = callAt t c.key) (h : Clock t cs')
    (hnow : now ≤ t) : Clock now (cs ++ cs') := by
  induction cs generalizing now with
  | nil =>
    cases cs' with
    | nil => exact .singleton _
    | cons c cs' =>
      rw [List.nil_append, clock_cons]
      obtain ⟨h₁, h⟩ := clock_cons.1 h
      exact ⟨hnow.trans h₁, h⟩
  | cons c cs ih =>
    obtain ⟨hc, hcs⟩ := List.forall_mem_cons.1 hcs
    rw [hc, List.cons_append, clock_cons]
    exact ⟨hnow, le_rfl, le_rfl, le_rfl, ih hcs le_rfl⟩

theorem Clock.left (h : Clock now (cs ++ cs')) : Clock now cs := by
  rw [Clock, List.flatMap_append, ← List.cons_append] at h
  exact h.left_of_append

theorem clock_burstsAround (burst : Nat) (ht : 0 ≤ t) : Clock 0 (burstsAround burst t) := by
  rw [burstsAround, List.append_assoc]
  refine .append_callAt (t := 0) ?_ (.append_callAt (t := t) ?_ ?_ ht) le_rfl
  · intro c hc
    rw [List.eq_of_mem_replicate hc]
    rfl
  · intro c hc
    obtain ⟨i, -, rfl⟩ := List.mem_map.1 hc
    rfl
  · rw [← List.append_nil (List.replicate burst _)]
    refine .append_callAt (t := t) ?_ (.singleton _) le_rfl
    intro c hc
    rw [List.eq_of_mem_replicate hc]
    rfl

theorem keyTrace_map_fst (k : Bytes) (l : KeyedLimiter) (cs : List AllowCall) :
    (keyTrace k l cs).map (·.1) = (cs.filter (·.key = k)).map (·.usedAt) := by
  induction cs generalizing l with
  | nil => rfl
  | cons c cs ih =>
    rw [keyTrace]
    split
    · rename_i hk
      rw [List.map_cons, ih, List.filter_cons_of_pos (by simpa using hk), List.map_cons]
    · rename_i hk
      rw [ih, List.filter_cons_of_neg (by simpa using hk)]

theorem Sound.admits_burst {a b : Int} (h : l.Sound now) (hnew : l.lookup k = none) (hnow : now ≤ t)
    (ha : a ≤ t) (hb : t ≤ b) :
    admitted a b (keyTrace k l (List.replicate l.burst.toNat (callAt t k))) = l.burst.toNat := by
  have hat : ∀ c ∈ List.replicate l.burst.toNat (callAt t k), c = callAt t k :=
    fun c hc => List.eq_of_mem_replicate hc
  have htimes := keyTrace_map_fst k l (List.replicate l.burst.toNat (callAt t k))
  rw [List.filter_eq_self.2 fun c hc => by simp [hat c hc, callAt], List.map_replicate] at htimes
  have hlen : (keyTrace k l (List.replicate l.burst.toNat (callAt t k))).length =
      l.burst.toNat := by
    rw [← List.length_map, htimes, List.length_replicate]
  have hclock : Clock now (List.replicate l.burst.toNat (callAt t k)) := by
    rw [← List.append_nil (List.replicate l.burst.toNat _)]
    refine .append_callAt (t := t) (fun c hc => ?_) (.singleton _) hnow
    rw [hat c hc]
    rfl
  have hkeep : NoEviction k l (List.replicate l.burst.toNat (callAt t k)) := by
    apply noEviction_self
    intro c hc
    rw [hat c hc, callAt]
  have hok := h.admits hclock hkeep fun c hc _ => by
    rw [hat c hc, bucketAt, hnew]
    exact level_new h.rate_nonneg hnow
  rw [List.take_of_length_le hlen.le] at hok
  conv_rhs => rw [← hlen]
  rw [admitted, List.countP_eq_length]
  intro p hp
  have htime : p.1 = t := by
    have hmem := List.mem_map_of_mem (f := Prod.fst) hp
    rw [htimes] at hmem
    exact List.eq_of_mem_replicate hmem
  simp [hok p hp, htime, ha, hb]

theorem insertCt_allow_miss (hcap : l.maxBuckets ≤ 0) (hmiss : l.lookup c.key = none) :
    (l.allow c).2.insertCt = (l.insertCt + 1) % 2 ^ 64 := by
  have hparams := (sweepIfDue_drops { l with insertCt := (l.insertCt + 1) % 2 ^ 64 } c.sweepAt).1
  simp only [params, Prod.mk.injEq] at hparams
  rw [allow_miss hmiss]
  simp only [reclaim]
  rw [makeRoom_uncapped (hparams.2.2.1.trans_le hcap), sweepIfDue]
  split <;> rfl

theorem insertCt_run_hits (hsome : (l.lookup k).isSome) (hcs : ∀ c ∈ cs, c.key = k) :
    (l.run cs).insertCt = l.insertCt := by
  induction cs generalizing l with
  | nil => rfl
  | cons c cs ih =>
    obtain ⟨rfl, hcs⟩ := List.forall_mem_cons.1 hcs
    obtain ⟨tb, htb⟩ := Option.isSome_iff_exists.1 hsome
    have hnext := lookup_allow_self l c
    rw [run, ih (by rw [hnext]; rfl) hcs, allow_hit htb]
    rfl

theorem insertCt_run_misses (h : l.Sound now) (hclock : Clock now cs) (hcap : l.maxBuckets ≤ 0)
    (hnodup : (cs.map (·.key)).Nodup) (hmiss : ∀ c ∈ cs, l.lookup c.key = none)
    (hlt : l.insertCt + cs.length < 2 ^ 64) :
    (l.run cs).insertCt = l.insertCt + cs.length := by
  induction cs generalizing l now with
  | nil => rfl
  | cons c cs ih =>
    obtain ⟨h₁, h₂, h₃, h₄, hclock⟩ := clock_cons.1 hclock
    obtain ⟨hc, hmiss⟩ := List.forall_mem_cons.1 hmiss
    obtain ⟨hne, hnodup⟩ := List.nodup_cons.1 hnodup
    have hp := allow_params l c
    simp only [params, Prod.mk.injEq] at hp
    have hct := insertCt_allow_miss hcap hc
    rw [List.length_cons] at hlt
    rw [Nat.mod_eq_of_lt (by omega)] at hct
    rw [run, ih (h.allow (h₁.trans (h₂.trans h₃)) h₄) hclock (hp.2.2.1.trans_le hcap) hnodup ?_
      (by omega), hct, List.length_cons]
    · omega
    · intro c' hc'
      have hk : c.key ≠ c'.key := by
        intro heq
        exact hne (List.mem_map.2 ⟨c', hc', heq.symm⟩)
      cases htb : (l.allow c).2.lookup c'.key with
      | none => rfl
      | some tb =>
        rw [← hmiss c' hc', lookup_allow_of_ne h hk htb]

end KeyedLimiter

theorem insertCt_burst {cfg : RateLimitConfig} (hcap : cfg.maxBuckets < 0) (t : Int) (k : Bytes) :
    ((rateLimit cfg).run
      (List.replicate (rateLimit cfg).burst.toNat (callAt t k))).insertCt = 1 := by
  obtain ⟨n, hn⟩ : ∃ n, (rateLimit cfg).burst.toNat = n + 1 := by
    have := rateLimit_burst_pos cfg
    exact ⟨(rateLimit cfg).burst.toNat - 1, by omega⟩
  have hself := lookup_allow_self (rateLimit cfg) (callAt t k)
  rw [hn, List.replicate_succ, run, insertCt_run_hits (k := k)]
  · exact insertCt_allow_miss (rateLimit_uncapped hcap).le rfl
  · exact Option.isSome_iff_exists.2 ⟨_, hself⟩
  · intro c hc
    rw [List.eq_of_mem_replicate hc, callAt]

theorem newKeys_key (t : Int) (n : Nat) :
    (newKeys t n).map (·.key) = (List.range n).map fun i => [UInt8.ofNat i] := by
  rw [newKeys, List.map_map]
  rfl

theorem nodup_newKeys (t : Int) {n : Nat} (hn : n ≤ 256) : ((newKeys t n).map (·.key)).Nodup := by
  rw [newKeys_key]
  refine List.Nodup.map_on ?_ List.nodup_range
  intro i hi j hj heq
  have hof : UInt8.ofNat i = UInt8.ofNat j := (List.cons.inj heq).1
  have htoNat := congrArg UInt8.toNat hof
  rwa [UInt8.toNat_ofNat', UInt8.toNat_ofNat',
    Nat.mod_eq_of_lt ((List.mem_range.1 hi).trans_le hn),
    Nat.mod_eq_of_lt ((List.mem_range.1 hj).trans_le hn)] at htoNat

theorem newKeys_succ (t : Int) (n : Nat) :
    newKeys t (n + 1) = newKeys t n ++ [callAt t [UInt8.ofNat n]] := by
  rw [newKeys, List.range_succ, List.map_append, List.map_singleton, newKeys]

theorem clock_before_sweep (burst : Nat) {t : Int} (ht : 0 ≤ t) :
    Clock 0 (List.replicate burst (callAt 0 []) ++ newKeys t 254) := by
  have h := (clock_burstsAround burst ht).left
  rw [newKeys_succ, ← List.append_assoc] at h
  exact h.left

theorem insertCt_before_sweep {cfg : RateLimitConfig} {t : Int} (hcap : cfg.maxBuckets < 0)
    (ht : 0 ≤ t) : ((rateLimit cfg).run (List.replicate (rateLimit cfg).burst.toNat (callAt 0 []) ++
      newKeys t 254)).insertCt = 255 := by
  obtain ⟨now, hsound, hclock, hlast⟩ := rateLimit_run cfg
    (clock_before_sweep (rateLimit cfg).burst.toNat ht)
  have hparams := run_params (rateLimit cfg)
    (List.replicate (rateLimit cfg).burst.toNat (callAt 0 []))
  simp only [params, Prod.mk.injEq] at hparams
  have hlen : (newKeys t 254).length = 254 := by
    rw [newKeys, List.length_map, List.length_range]
  rw [run_append, insertCt_run_misses hsound hclock
    (hparams.2.2.1.trans (rateLimit_uncapped hcap)).le, insertCt_burst hcap, hlen]
  · exact nodup_newKeys t (by decide)
  · intro c hc
    obtain ⟨i, -, rfl⟩ := List.mem_map.1 hc
    rw [Option.eq_none_iff_forall_ne_some]
    intro tb htb
    obtain ⟨c', hc', hk, -⟩ := hlast _ tb htb
    rw [List.eq_of_mem_replicate hc'] at hk
    cases hk
  · rw [insertCt_burst hcap, hlen]
    decide

theorem swept_between_bursts {cfg : RateLimitConfig} {t : Int} (hcap : cfg.maxBuckets < 0)
    (httl : 0 < (rateLimit cfg).ttl) (ht : (rateLimit cfg).ttl < t) :
    ((rateLimit cfg).run (List.replicate (rateLimit cfg).burst.toNat (callAt 0 []) ++
      newKeys t 255)).lookup [] = none := by
  have ht0 : 0 ≤ t := by exact_mod_cast (httl.trans ht).le
  have hct := insertCt_before_sweep hcap ht0
  have hclock := clock_before_sweep (rateLimit cfg).burst.toNat ht0
  rw [← List.append_nil (_ ++ _)] at hclock
  obtain ⟨now, hsound, -, hlast⟩ := rateLimit_run cfg hclock
  have hparams := run_params (rateLimit cfg)
    (List.replicate (rateLimit cfg).burst.toNat (callAt 0 []) ++ newKeys t 254)
  simp only [params, Prod.mk.injEq] at hparams
  obtain ⟨-, -, hmax, httl', hevery⟩ := hparams
  have hevery := hevery.trans (show (rateLimit cfg).sweepEvery = 256 from rfl)
  rw [newKeys_succ, ← List.append_assoc, run_append]
  apply swept_of_due hsound (hmax.trans (rateLimit_uncapped hcap)).le
  · refine ⟨?_, ?_, ?_⟩
    · rwa [httl']
    · rw [hevery]
      decide
    · rw [hct, hevery]
      decide
  · rw [Option.eq_none_iff_forall_ne_some]
    intro tb htb
    obtain ⟨c, hc, hk, -⟩ := hlast _ tb htb
    obtain hc | hc := List.mem_append.1 hc
    · rw [List.eq_of_mem_replicate hc] at hk
      cases hk
    · have hnodup := nodup_newKeys t (n := 255) (by decide)
      rw [newKeys_succ, List.map_append, List.nodup_append] at hnodup
      exact hnodup.2.2 _ (List.mem_map_of_mem hc) _ List.mem_cons_self hk
  · exact List.cons_ne_nil _ _
  · intro tb htb
    obtain ⟨c, hc, hk, hused⟩ := hlast _ tb htb
    obtain hc | hc := List.mem_append.1 hc
    · rw [(hsound.lookup htb).seen, httl', hused, List.eq_of_mem_replicate hc]
      exact sub_pos.2 ht
    · obtain ⟨i, -, rfl⟩ := List.mem_map.1 hc
      cases hk

theorem answers_burstsAround_ne {cfg : RateLimitConfig} (hcap : cfg.maxBuckets < 0)
    (h : ¬TtlCoversRefill cfg) :
    (rateLimit cfg).answers
        (burstsAround (rateLimit cfg).burst.toNat (max maxTTL cfg.bucketIdleTTL + 1)) ≠
      (rateLimit { cfg with bucketIdleTTL := -1 }).answers
        (burstsAround (rateLimit cfg).burst.toNat (max maxTTL cfg.bucketIdleTTL + 1)) := by
  obtain ⟨hcfg, hlong⟩ := not_or.1 h
  rw [not_lt] at hcfg
  have hge : maxTTL ≤ refillTime (rateLimit cfg).rate (rateLimit cfg).burst := by
    have hle : maxTTL ≤ max maxTTL cfg.bucketIdleTTL + 1 := by omega
    exact (Int.cast_le.2 hle).trans (not_le.1 hlong).le
  have httl := resolveIdleTTL_of_ge hcfg hge
  rw [← rateLimit_ttl] at httl
  have hpos : 0 < max maxTTL cfg.bucketIdleTTL := by
    simp only [maxTTL, second]
    omega
  generalize max maxTTL cfg.bucketIdleTTL = ttl at hlong httl hpos
  have ht : 0 ≤ ttl + 1 := by omega
  have hclock := clock_burstsAround (rateLimit cfg).burst.toNat ht
  intro heq
  have hkept : (admitted 0 (ttl + 1) (keyTrace [] (rateLimit { cfg with bucketIdleTTL := -1 })
      (burstsAround (rateLimit cfg).burst.toNat (ttl + 1))) : ℚ) ≤
      (rateLimit cfg).burst + (rateLimit cfg).rate * seconds (ttl + 1 - 0) :=
    (rateLimit_sound _ 0).admitted_le hclock
      (noEviction_unswept (rateLimit_sound _ 0) hclock (rateLimit_uncapped hcap).le le_rfl) ht
  have hswept := swept_between_bursts (t := ttl + 1) hcap
    (by rw [httl]; exact Int.cast_pos.2 hpos) (by rw [httl]; exact Int.cast_lt.2 (by omega))
  rw [burstsAround] at hclock
  obtain ⟨now, hsound, hclock', -⟩ := rateLimit_run cfg hclock
  have hfirst := (rateLimit_sound cfg 0).admits_burst (k := []) (t := 0) rfl le_rfl le_rfl ht
  have hparams := run_params (rateLimit cfg)
    (List.replicate (rateLimit cfg).burst.toNat (callAt 0 []) ++ newKeys (ttl + 1) 255)
  simp only [params, Prod.mk.injEq] at hparams
  have hburst : 0 < (rateLimit cfg).burst.toNat := by
    have := rateLimit_burst_pos cfg
    omega
  have hnow : now ≤ ttl + 1 := hclock'.le _ (List.mem_replicate.2 ⟨hburst.ne', rfl⟩)
  have hsecond := hsound.admits_burst (k := []) (t := ttl + 1) hswept hnow ht le_rfl
  rw [hparams.2.1] at hsecond
  rw [← keyTrace_congr heq, burstsAround, keyTrace_append, keyTrace_append, admitted_append,
    admitted_append, hfirst, hsecond, sub_zero] at hkept
  rw [refillTime_le_iff (rateLimit_rate_pos cfg), not_le] at hlong
  have hcast : ((rateLimit cfg).burst.toNat : ℚ) = (rateLimit cfg).burst := by
    exact_mod_cast Int.toNat_of_nonneg (rateLimit_sound cfg 0).burst_nonneg
  generalize admitted 0 (ttl + 1) (keyTrace [] ((rateLimit cfg).run (List.replicate
    (rateLimit cfg).burst.toNat (callAt 0 []))) (newKeys (ttl + 1) 255)) = m at hkept
  have hm : (0 : ℚ) ≤ m := Nat.cast_nonneg m
  push_cast at hkept
  linarith

/-- Idle buckets can be dropped unnoticed exactly if they are kept for as long as they take to
fill. -/
theorem idle_eviction_lossless_iff (cfg : RateLimitConfig) (hcap : cfg.maxBuckets < 0) :
    (∀ now cs, Clock now cs → (rateLimit cfg).answers cs =
      (rateLimit { cfg with bucketIdleTTL := -1 }).answers cs) ↔ TtlCoversRefill cfg := by
  constructor
  · intro hall
    by_contra h
    refine answers_burstsAround_ne hcap h (hall 0 _ (clock_burstsAround _ ?_))
    simp only [maxTTL, second]
    omega
  · intro h now cs hclock
    have hkept : TtlCoversRefill { cfg with bucketIdleTTL := -1 } := .inl neg_one_lt_zero
    exact (rateLimit_lossless hcap h).answers_eq (rateLimit_lossless hcap hkept)
      (rateLimit_sound _ now) (rateLimit_sound _ now) rfl rfl (fun _ _ _ => rfl) hclock

theorem idle_eviction_lossless_default : TtlCoversRefill { maxBuckets := -1 } ∧
    ∀ now cs, Clock now cs → (rateLimit { maxBuckets := -1 }).answers cs =
      (rateLimit { maxBuckets := -1, bucketIdleTTL := -1 }).answers cs := by
  have hcovers : TtlCoversRefill { maxBuckets := -1 } := .inr (by decide +kernel)
  exact ⟨hcovers, (idle_eviction_lossless_iff { maxBuckets := -1 } (by decide)).2 hcovers⟩

def slowLimit : RateLimitConfig := { rate := 1 / 10 ^ 6, burst := 1, maxBuckets := -1 }

theorem slowLimit_ttl : ¬TtlCoversRefill slowLimit := by
  unfold TtlCoversRefill
  decide +kernel

/-- A day after its only token was taken, the key that was swept gets another one. -/
theorem swept_key_admitted_again : Clock 0 (burstsAround 1 (maxTTL + 1)) ∧
    (rateLimit slowLimit).answers (burstsAround 1 (maxTTL + 1)) ≠
      (rateLimit { slowLimit with bucketIdleTTL := -1 }).answers (burstsAround 1 (maxTTL + 1)) :=
  ⟨clock_burstsAround 1 (by decide), answers_burstsAround_ne (by decide) slowLimit_ttl⟩

end PoseidonServer.Middleware
