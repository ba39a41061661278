import Mathlib.Order.Interval.Set.Basic
import Mathlib.Data.Int.Interval
import PoseidonServer.HttpFields
import PoseidonServer.Outcome

/-! The hand-written protobuf readers of package `grpcserver`: `reflection.go` and the request
decoder of `health.go`. Positions and lengths are `int`s; an index or slice outside the input
is a fault. -/

namespace PoseidonServer.Grpc

open Outcome Relation

/-- Go's conversion to `int`, which is also how `int` addition wraps. -/
def int64 (v : Int) : Int := (v + 2 ^ 63) % 2 ^ 64 - 2 ^ 63

theorem int64_of_range {v : Int} (h₁ : -2 ^ 63 ≤ v) (h₂ : v < 2 ^ 63) : int64 v = v := by
  unfold int64
  omega

def decodeVarint (data : Bytes) : UInt64 × Nat :=
  go 0 0 0 data
where
  go (i : Nat) (result shift : UInt64) : Bytes → UInt64 × Nat
    | [] => (0, 0)
    | b :: bs =>
      if i ≥ 10 then (0, 0)
      else
        let result := result ||| (b &&& 0x7F).toUInt64 <<< shift
        if b &&& 0x80 = 0 then (result, i + 1) else go (i + 1) result (shift + 7) bs

def slice (data : Bytes) (lo hi : Int) : Outcome Bytes :=
  if 0 ≤ lo ∧ lo ≤ hi ∧ hi ≤ data.length then .ok ((data.take hi.toNat).drop lo.toNat) else .fault

def index (data : Bytes) (pos : Int) : Outcome UInt8 :=
  if 0 ≤ pos then match data[pos.toNat]? with
    | some b => .ok b
    | none => .fault
  else .fault

def readVarint (data : Bytes) (pos : Int) : Outcome (Option (UInt64 × Int)) := do
  let (v, n) := decodeVarint (← slice data pos data.length)
  pure (if n = 0 then none else some (v, int64 (pos + n)))

def skipVarint (data : Bytes) : Nat → Int → Outcome Int
  | 0, _ => pure (-1)
  | k + 1, pos => do
    if (← index data pos) &&& 0x80 = 0 then pure (pos + 1) else skipVarint data k (pos + 1)

def skipField (data : Bytes) (pos : Int) (wireType : Nat) : Outcome Int :=
  match wireType with
  | 0 => skipVarint data (data.length - pos).toNat pos
  | 2 => do
    match ← readVarint data pos with
    | none => pure (-1)
    | some (length, pos) =>
      let pos := int64 (pos + int64 length.toNat)
      pure (if pos > data.length then -1 else pos)
  | 1 => pure (int64 (pos + 8))
  | 5 => pure (int64 (pos + 4))
  | _ => pure (-1)

def fieldNumber (tag : UInt64) : Int := (tag >>> 3).toNat
def wireType (tag : UInt64) : Nat := (tag &&& 7).toNat

def fileStep (fdsBytes : Bytes) : Int × List Bytes → Outcome ((Int × List Bytes) ⊕ List Bytes)
  | (pos, files) =>
    if pos < fdsBytes.length then do
      match ← readVarint fdsBytes pos with
      | none => pure (.inr files)
      | some (tag, pos) =>
        if fieldNumber tag = 1 ∧ wireType tag = 2 then do
          match ← readVarint fdsBytes pos with
          | none => pure (.inr files)
          | some (length, pos) =>
            let stop := int64 (pos + int64 length.toNat)
            if stop > fdsBytes.length then pure (.inr files)
            else do
              let file ← slice fdsBytes pos stop
              pure (.inl (stop, files ++ [file]))
        else do
          let pos ← skipField fdsBytes pos (wireType tag)
          pure (if pos < 0 then .inr files else .inl (pos, files))
    else pure (.inr files)

def extractFileProtos (fdsBytes : Bytes) : Nat → Outcome (List Bytes) :=
  loop (fun s _ => fileStep fdsBytes s) (0, [])

def stringStep (data : Bytes) (fieldNum : Int) (pos : Int) : Outcome (Int ⊕ Bytes) :=
  if pos < data.length then do
    match ← readVarint data pos with
    | none => pure (.inr [])
    | some (tag, pos) =>
      if wireType tag = 2 then do
        match ← readVarint data pos with
        | none => pure (.inr [])
        | some (length, pos) =>
          let stop := int64 (pos + int64 length.toNat)
          if fieldNumber tag = fieldNum then do
            let s ← slice data pos stop
            pure (.inr s)
          else pure (.inl stop)
      else do
        let pos ← skipField data pos (wireType tag)
        pure (if pos < 0 then .inr [] else .inl pos)
  else pure (.inr [])

def extractStringField (data : Bytes) (fieldNum : Int) : Nat → Outcome Bytes :=
  loop (fun pos _ => stringStep data fieldNum pos) 0

def qualify (pkg name : Bytes) : Bytes := if pkg ≠ [] then pkg ++ ascii "." ++ name else name

def serviceStep (fdp pkg : Bytes) (n : Nat) :
    Int × List Bytes → Outcome ((Int × List Bytes) ⊕ List Bytes)
  | (pos, names) =>
    if pos < fdp.length then do
      match ← readVarint fdp pos with
      | none => pure (.inr names)
      | some (tag, pos) =>
        if wireType tag ≠ 2 then do
          let pos ← skipField fdp pos (wireType tag)
          pure (if pos < 0 then .inr names else .inl (pos, names))
        else do
          match ← readVarint fdp pos with
          | none => pure (.inr names)
          | some (length, pos) =>
            let stop := int64 (pos + int64 length.toNat)
            if fieldNumber tag = 6 ∧ stop ≤ fdp.length then do
              let svc ← slice fdp pos stop
              let name ← extractStringField svc 1 n
              pure (.inl (stop, if name ≠ [] then names ++ [qualify pkg name] else names))
            else pure (.inl (stop, names))
    else pure (.inr names)

def extractServiceNames (fdp : Bytes) (n : Nat) : Outcome (List Bytes) := do
  let pkg ← extractStringField fdp 2 n
  loop (fun s n => serviceStep fdp pkg n s) (0, []) n

def decodeHealthCheckRequest (data : Bytes) : Nat → Outcome Bytes := extractStringField data 1

/-- A field as the readers pass over it: `start` is behind its tag and length, and `stop` where
they go on. -/
structure Field where
  number : Int
  wireType : Nat
  start : Int
  stop : Int

def fieldAt (data : Bytes) (pos : Int) : Option Field :=
  match readVarint data pos with
  | .ok (some (tag, pos)) =>
    if wireType tag = 2 then match readVarint data pos with
      | .ok (some (length, pos)) =>
        some ⟨fieldNumber tag, 2, pos, int64 (pos + int64 length.toNat)⟩
      | _ => none
    else match skipField data pos (wireType tag) with
      | .ok stop => if stop < 0 then none else some ⟨fieldNumber tag, wireType tag, pos, stop⟩
      | _ => none
  | _ => none

def Field.Holds (f : Field) (number : Int) : Prop := f.wireType = 2 ∧ f.number = number

instance (f : Field) (number : Int) : Decidable (f.Holds number) :=
  inferInstanceAs (Decidable (_ ∧ _))

def Leads (data : Bytes) (skips : Field → Prop) (p q : Int) : Prop :=
  ∃ f, fieldAt data p = some f ∧ skips f ∧ f.stop = q

/-- On the way through the input no position is negative and none is met again, and every field
is as `ok` says. -/
def Traversable (data : Bytes) (skips ok : Field → Prop) : Prop :=
  ∀ p, ReflTransGen (Leads data skips) 0 p →
    (0 ≤ p ∧ ∀ f, fieldAt data p = some f → ok f) ∧ ¬TransGen (Leads data skips) p p

/-- The way of `extractStringField`: the field that is asked for lies within the input. -/
def StringTraversable (data : Bytes) (fieldNum : Int) : Prop :=
  Traversable data (fun f => ¬f.Holds fieldNum)
    fun f => f.Holds fieldNum → f.start ≤ f.stop ∧ f.stop ≤ data.length

def FilesTraversable (data : Bytes) : Prop :=
  Traversable data (fun f => f.wireType = 2 → 0 ≤ f.stop ∧ f.stop ≤ data.length)
    fun f => f.Holds 1 → f.stop ≤ data.length → f.start ≤ f.stop

def ServicesTraversable (data : Bytes) : Prop :=
  Traversable data (fun _ => True) fun f => f.Holds 6 → f.stop ≤ data.length →
    f.start ≤ f.stop ∧
      StringTraversable ((data.take f.stop.toNat).drop f.start.toNat) 1

variable {data : Bytes} {pos : Int}

theorem decodeVarint_go_le (i : Nat) (result shift : UInt64) (data : Bytes) :
    (decodeVarint.go i result shift data).2 ≤ i + data.length := by
  induction data generalizing i result shift with
  | nil => simp [decodeVarint.go]
  | cons b bs ih =>
    simp only [decodeVarint.go, List.length_cons]
    split
    · simp
    split
    · simp
    · exact (ih (i + 1) _ _).trans (by omega)

theorem decodeVarint_le (data : Bytes) : (decodeVarint data).2 ≤ data.length := by
  simpa [decodeVarint] using decodeVarint_go_le 0 0 0 data

theorem readVarint_fault (h : pos < 0 ∨ data.length < pos) : readVarint data pos = .fault := by
  have hs : slice data pos data.length = .fault := if_neg (by omega)
  simp [readVarint, hs]

theorem readVarint_ok (hlen : data.length < 2 ^ 63) (h₀ : 0 ≤ pos) (h₁ : pos ≤ data.length) :
    readVarint data pos = .ok none ∨
      ∃ v q, readVarint data pos = .ok (some (v, q)) ∧ 0 ≤ q ∧ q ≤ data.length := by
  have hs : slice data pos data.length = .ok (data.drop pos.toNat) := by
    simp [slice, h₀, h₁]
  have hn := decodeVarint_le (data.drop pos.toNat)
  rw [List.length_drop] at hn
  simp only [readVarint, hs, ok_bind, pure_eq]
  split
  · exact .inl rfl
  · refine .inr ⟨_, _, rfl, ?_⟩
    rw [int64_of_range (by omega) (by omega)]
    omega

theorem skipVarint_ok {k : Nat} (h₀ : 0 ≤ pos) (hk : pos + k = data.length) :
    ∃ q, skipVarint data k pos = .ok q := by
  induction k generalizing pos with
  | zero => exact ⟨-1, rfl⟩
  | succ k ih =>
    have hi : pos.toNat < data.length := by omega
    have hb : index data pos = .ok (data[pos.toNat]) := by simp [index, h₀, hi]
    simp only [skipVarint, hb, ok_bind]
    split
    · exact ⟨pos + 1, rfl⟩
    · exact ih (by omega) (by omega)

theorem skipField_ok (hlen : data.length < 2 ^ 63) (h₀ : 0 ≤ pos) (h₁ : pos ≤ data.length)
    (wireType : Nat) : ∃ q, skipField data pos wireType = .ok q := by
  unfold skipField
  split
  · exact skipVarint_ok h₀ (by omega)
  · obtain h | ⟨v, q, h, -⟩ := readVarint_ok hlen h₀ h₁ <;> simp [h]
  all_goals exact ⟨_, rfl⟩

inductive Reading (data : Bytes) (pos : Int) : Prop
  | noTag : readVarint data pos = .ok none → fieldAt data pos = none → Reading data pos
  | noLength : readVarint data pos = .ok (some (tag, p)) → wireType tag = 2 →
      readVarint data p = .ok none → fieldAt data pos = none → Reading data pos
  | octets : readVarint data pos = .ok (some (tag, p)) → wireType tag = 2 →
      readVarint data p = .ok (some (length, start)) → 0 ≤ start →
      fieldAt data pos = some ⟨fieldNumber tag, 2, start, int64 (start + int64 length.toNat)⟩ →
      Reading data pos
  | noValue : readVarint data pos = .ok (some (tag, p)) → wireType tag ≠ 2 →
      skipField data p (wireType tag) = .ok stop → stop < 0 → fieldAt data pos = none →
      Reading data pos
  | value : readVarint data pos = .ok (some (tag, p)) → wireType tag ≠ 2 →
      skipField data p (wireType tag) = .ok stop → ¬stop < 0 →
      fieldAt data pos = some ⟨fieldNumber tag, wireType tag, p, stop⟩ → Reading data pos

theorem reading (hlen : data.length < 2 ^ 63) (h₀ : 0 ≤ pos) (h₁ : pos ≤ data.length) :
    Reading data pos := by
  obtain h | ⟨tag, p, h, hp₀, hp₁⟩ := readVarint_ok hlen h₀ h₁
  · exact .noTag h (by simp [fieldAt, h])
  by_cases hw : wireType tag = 2
  · obtain h' | ⟨length, start, h', hs, -⟩ := readVarint_ok hlen hp₀ hp₁
    · exact .noLength h hw h' (by simp [fieldAt, h, hw, h'])
    · exact .octets h hw h' hs (by simp [fieldAt, h, hw, h'])
  · obtain ⟨stop, h'⟩ := skipField_ok hlen hp₀ hp₁ (wireType tag)
    by_cases hstop : stop < 0
    · exact .noValue h hw h' hstop (by simp [fieldAt, h, hw, h', hstop])
    · exact .value h hw h' hstop (by simp [fieldAt, h, hw, h', hstop])

theorem fieldAt_range {f : Field} (h : fieldAt data pos = some f) :
    0 ≤ pos ∧ pos < data.length := by
  by_contra hpos
  have hr : readVarint data pos = .fault ∨ readVarint data pos = .ok none := by
    by_cases hp : pos < 0 ∨ data.length < pos
    · exact .inl (readVarint_fault hp)
    · have hs : slice data pos data.length = .ok [] := by
        have : pos = data.length := by omega
        simp [slice, this]
      exact .inr (by simp [readVarint, hs, decodeVarint, decodeVarint.go])
  obtain hr | hr := hr <;> simp [fieldAt, hr] at h

theorem slice_eq_ok {lo hi : Int} {s : Bytes} (h₀ : 0 ≤ lo) : slice data lo hi = .ok s ↔
    (lo ≤ hi ∧ hi ≤ data.length) ∧ (data.take hi.toNat).drop lo.toNat = s := by
  simp only [slice, h₀, true_and]
  split <;> simp [*]

theorem slice_ok_iff {lo hi : Int} (h₀ : 0 ≤ lo) :
    (∃ s, slice data lo hi = .ok s) ↔ lo ≤ hi ∧ hi ≤ data.length := by
  simp [slice_eq_ok h₀]

structure Walks (data : Bytes) (skips ok : Field → Prop) (body : σ → Nat → Outcome (σ ⊕ α))
    (position : σ → Int) : Prop where
  settles : ∀ s, Settles (body s)
  negative : ∀ s n, position s < 0 → body s n = .fault
  ends : ∀ s n, 0 ≤ position s → fieldAt data (position s) = none → ∃ a, body s n = .ok (.inr a)
  returns : ∀ s f, fieldAt data (position s) = some f → (Returns (body s) ↔ ok f)
  goesOn : ∀ s n r f, fieldAt data (position s) = some f → body s n = .ok r →
    skips f → ∃ s', r = .inl s' ∧ position s' = f.stop
  leaves : ∀ s n r f, fieldAt data (position s) = some f → body s n = .ok r →
    ¬skips f → ∃ a, r = .inr a

namespace Walks

variable {skips ok : Field → Prop} {body : σ → Nat → Outcome (σ ⊕ α)} {position : σ → Int}

theorem good (h : Walks data skips ok body position) (s : σ) : Returns (body s) ↔
    0 ≤ position s ∧ ∀ f, fieldAt data (position s) = some f → ok f := by
  by_cases hp : position s < 0
  · refine iff_of_false ?_ fun h => absurd h.1 (by omega)
    rintro ⟨n, a, ha⟩
    rw [h.negative s n hp] at ha
    cases ha
  · cases hf : fieldAt data (position s) with
    | none =>
      obtain ⟨a, ha⟩ := h.ends s 0 (by omega) hf
      exact iff_of_true ⟨0, _, ha⟩ ⟨by omega, by simp⟩
    | some f => simp [h.returns s f hf, not_lt.1 hp]

theorem leads_iff (h : Walks data skips ok body position) {s : σ} {n : Nat} {r : σ ⊕ α}
    (hr : body s n = .ok r) (p : Int) :
    Leads data skips (position s) p ↔ ∃ s', r = .inl s' ∧ position s' = p := by
  constructor
  · rintro ⟨f, hf, hskip, rfl⟩
    exact h.goesOn s n r f hf hr hskip
  · rintro ⟨s', rfl, rfl⟩
    have hp : 0 ≤ position s := ((h.good s).1 ⟨n, _, hr⟩).1
    cases hf : fieldAt data (position s) with
    | none =>
      obtain ⟨a, ha⟩ := h.ends s n hp hf
      rw [ha] at hr
      cases hr
    | some f =>
      by_cases hskip : skips f
      · obtain ⟨t, ht, hstop⟩ := h.goesOn s n _ f hf hr hskip
        cases ht
        exact ⟨f, hf, hskip, hstop.symm⟩
      · obtain ⟨a, ha⟩ := h.leaves s n _ f hf hr hskip
        cases ha

theorem returns_iff (h : Walks data skips ok body position) {s : σ} (hs : position s = 0) :
    Returns (loop body s) ↔ Traversable data skips ok := by
  have hfin : {p | ∃ q, Leads data skips p q}.Finite := by
    refine (Set.finite_Ico (0 : Int) data.length).subset ?_
    rintro p ⟨q, f, hf, -⟩
    exact fieldAt_range hf
  rw [returns_loop_iff (fun p => 0 ≤ p ∧ ∀ f, fieldAt data p = some f → ok f) h.settles h.good
    (fun s n r hr => h.leads_iff hr) hfin s, hs]
  rfl

end Walks

theorem fieldAt_start {f : Field} (hlen : data.length < 2 ^ 63) (hf : fieldAt data pos = some f)
    (hw : f.wireType = 2) : 0 ≤ f.start := by
  obtain ⟨h₀, hpos⟩ := fieldAt_range hf
  cases reading hlen h₀ hpos.le with
  | octets _ _ _ hs hf' =>
    cases hf'.symm.trans hf
    exact hs
  | value _ hw' _ _ hf' =>
    cases hf'.symm.trans hf
    exact absurd hw hw'
  | _ => simp_all

theorem stringStep_none (hlen : data.length < 2 ^ 63) {fieldNum : Int} (h₀ : 0 ≤ pos)
    (hf : fieldAt data pos = none) : stringStep data fieldNum pos = .ok (.inr []) := by
  by_cases hpos : pos < data.length
  · cases reading hlen h₀ hpos.le <;> simp_all [stringStep]
  · simp [stringStep, hpos]

theorem stringStep_some (hlen : data.length < 2 ^ 63) {fieldNum : Int} {f : Field}
    (hf : fieldAt data pos = some f) : stringStep data fieldNum pos =
      if f.Holds fieldNum then slice data f.start f.stop >>= fun s => .ok (.inr s)
      else .ok (.inl f.stop) := by
  obtain ⟨h₀, hpos⟩ := fieldAt_range hf
  cases reading hlen h₀ hpos.le with
  | octets _ _ _ _ hf' =>
    cases hf'.symm.trans hf
    simp [stringStep, Field.Holds, *]
  | value _ _ _ _ hf' =>
    cases hf'.symm.trans hf
    simp [stringStep, Field.Holds, *]
  | _ => simp_all

theorem stringStep_walks (hlen : data.length < 2 ^ 63) (fieldNum : Int) :
    Walks data (fun f => ¬f.Holds fieldNum)
      (fun f => f.Holds fieldNum → f.start ≤ f.stop ∧ f.stop ≤ data.length)
      (fun pos _ => stringStep data fieldNum pos) id where
  settles _ := settles_const _
  negative pos _ h := by
    have h : pos < 0 := h
    simp [stringStep, readVarint_fault (.inl h), show pos < data.length by omega]
  ends pos _ h₀ hf := ⟨[], stringStep_none hlen h₀ hf⟩
  returns pos f hf := by
    have hf : fieldAt data pos = some f := hf
    rw [returns_const_iff, stringStep_some hlen hf]
    split
    · rename_i h
      simp [exists_map_eq_ok, h, slice_ok_iff (fieldAt_start hlen hf h.1)]
    · simp [*]
  goesOn pos _ r f hf hr hskip := by
    have hf : fieldAt data pos = some f := hf
    rw [stringStep_some hlen hf, if_neg hskip] at hr
    cases hr
    exact ⟨_, rfl, rfl⟩
  leaves pos _ r f hf hr hskip := by
    have hf : fieldAt data pos = some f := hf
    rw [stringStep_some hlen hf, if_pos (not_not.1 hskip)] at hr
    obtain ⟨s, -, hs⟩ := bind_eq_ok.1 hr
    cases hs
    exact ⟨s, rfl⟩

theorem returns_extractStringField_iff (data : Bytes) (hlen : data.length < 2 ^ 63) (fieldNum : Int) :
    Returns (extractStringField data fieldNum) ↔ StringTraversable data fieldNum :=
  (stringStep_walks hlen fieldNum).returns_iff rfl

variable {l : List Bytes}

theorem fileStep_none (hlen : data.length < 2 ^ 63) (h₀ : 0 ≤ pos)
    (hf : fieldAt data pos = none) : fileStep data (pos, l) = .ok (.inr l) := by
  by_cases hpos : pos < data.length
  · cases reading hlen h₀ hpos.le <;> simp_all [fileStep, skipField]
  · simp [fileStep, hpos]

theorem fileStep_some (hlen : data.length < 2 ^ 63) {f : Field}
    (hf : fieldAt data pos = some f) : fileStep data (pos, l) =
      if f.Holds 1 then
        if f.stop ≤ data.length then
          slice data f.start f.stop >>= fun s => .ok (.inl (f.stop, l ++ [s]))
        else .ok (.inr l)
      else .ok (if f.wireType = 2 → 0 ≤ f.stop ∧ f.stop ≤ data.length then .inl (f.stop, l)
        else .inr l) := by
  obtain ⟨h₀, hpos⟩ := fieldAt_range hf
  cases reading hlen h₀ hpos.le with
  | @octets tag p length start h hw h' hs hf' =>
    cases hf'.symm.trans hf
    by_cases hnum : fieldNumber tag = 1
    · simp [fileStep, Field.Holds, h, hw, h', hpos, hnum]
      grind
    · simp [fileStep, Field.Holds, skipField, h, hw, h', hpos, hnum]
      grind
  | value _ _ _ _ hf' =>
    cases hf'.symm.trans hf
    simp [fileStep, Field.Holds, *]
  | _ => simp_all

theorem fileStep_walks (hlen : data.length < 2 ^ 63) :
    Walks data (fun f => f.wireType = 2 → 0 ≤ f.stop ∧ f.stop ≤ data.length)
      (fun f => f.Holds 1 → f.stop ≤ data.length → f.start ≤ f.stop)
      (fun s _ => fileStep data s) Prod.fst where
  settles _ := settles_const _
  negative s _ h := by
    simp [fileStep, readVarint_fault (.inl h), show s.1 < data.length by omega]
  ends s _ h₀ hf := ⟨s.2, fileStep_none hlen h₀ hf⟩
  returns s f hf := by
    rw [returns_const_iff, fileStep_some hlen hf]
    split
    · rename_i h
      split
      · simp [exists_map_eq_ok, *, slice_ok_iff (fieldAt_start hlen hf h.1)]
      · simp [*]
    · simp [*]
  goesOn s _ r f hf hr hskip := by
    rw [fileStep_some hlen hf, if_pos hskip] at hr
    split at hr
    · rename_i h
      rw [if_pos (hskip h.1).2] at hr
      obtain ⟨file, -, hs⟩ := bind_eq_ok.1 hr
      cases hs
      exact ⟨_, rfl, rfl⟩
    · cases hr
      exact ⟨_, rfl, rfl⟩
  leaves s _ r f hf hr hskip := by
    rw [fileStep_some hlen hf, if_neg hskip] at hr
    split at hr
    · rename_i h
      split at hr
      · -- the slice ends before the input, so it would have to end after its own start
        obtain ⟨file, hslice, -⟩ := bind_eq_ok.1 hr
        have hstart := fieldAt_start hlen hf h.1
        have := (slice_ok_iff hstart).1 ⟨file, hslice⟩
        exact absurd (fun _ => ⟨by omega, this.2⟩) hskip
      · cases hr
        exact ⟨_, rfl⟩
    · cases hr
      exact ⟨_, rfl⟩

theorem returns_extractFileProtos_iff (data : Bytes) (hlen : data.length < 2 ^ 63) :
    Returns (extractFileProtos data) ↔ FilesTraversable data :=
  (fileStep_walks hlen).returns_iff rfl

variable {pkg : Bytes} {n : Nat}

theorem serviceStep_none (hlen : data.length < 2 ^ 63) (h₀ : 0 ≤ pos)
    (hf : fieldAt data pos = none) : serviceStep data pkg n (pos, l) = .ok (.inr l) := by
  by_cases hpos : pos < data.length
  · cases reading hlen h₀ hpos.le <;> simp_all [serviceStep]
  · simp [serviceStep, hpos]

theorem serviceStep_some (hlen : data.length < 2 ^ 63) {f : Field}
    (hf : fieldAt data pos = some f) : serviceStep data pkg n (pos, l) =
      if f.Holds 6 ∧ f.stop ≤ data.length then do
        let svc ← slice data f.start f.stop
        let name ← extractStringField svc 1 n
        pure (.inl (f.stop, if name ≠ [] then l ++ [qualify pkg name] else l))
      else .ok (.inl (f.stop, l)) := by
  obtain ⟨h₀, hpos⟩ := fieldAt_range hf
  cases reading hlen h₀ hpos.le with
  | octets _ _ _ _ hf' =>
    cases hf'.symm.trans hf
    simp [serviceStep, Field.Holds, *]
  | value _ _ _ _ hf' =>
    cases hf'.symm.trans hf
    simp [serviceStep, Field.Holds, *]
  | _ => simp_all

theorem serviceStep_neg (h : pos < 0) : serviceStep data pkg n (pos, l) = .fault := by
  simp [serviceStep, readVarint_fault (.inl h), show pos < data.length by omega]

theorem settles_extractStringField (data : Bytes) (fieldNum : Int) :
    Settles (extractStringField data fieldNum) :=
  settles_loop (fun _ => settles_const _) 0

theorem settles_serviceStep (hlen : data.length < 2 ^ 63) (s : Int × List Bytes) :
    Settles fun n => serviceStep data pkg n s := by
  obtain ⟨pos, l⟩ := s
  by_cases h₀ : pos < 0
  · simpa only [serviceStep_neg h₀] using settles_const _
  cases hf : fieldAt data pos with
  | none => simpa only [serviceStep_none hlen (not_lt.1 h₀) hf] using settles_const _
  | some f =>
    simp only [serviceStep_some hlen hf]
    split
    · refine (settles_const _).bind fun svc => ?_
      exact (settles_extractStringField svc 1).bind fun _ => settles_const _
    · exact settles_const _

theorem serviceStep_walks (hlen : data.length < 2 ^ 63) :
    Walks data (fun _ => True)
      (fun f => f.Holds 6 → f.stop ≤ data.length → f.start ≤ f.stop ∧
        StringTraversable ((data.take f.stop.toNat).drop f.start.toNat) 1)
      (fun s n => serviceStep data pkg n s) Prod.fst where
  settles s := settles_serviceStep hlen s
  negative s _ h := serviceStep_neg h
  ends s _ h₀ hf := ⟨s.2, serviceStep_none hlen h₀ hf⟩
  returns s f hf := by
    obtain ⟨pos, l⟩ := s
    simp only [serviceStep_some hlen hf]
    split
    · rename_i h
      have hstart := fieldAt_start hlen hf h.1.1
      simp only [pure_eq]
      rw [returns_bind_iff (settles_const _) fun svc =>
        (settles_extractStringField svc 1).bind fun _ => settles_const _]
      have hsvc := returns_extractStringField_iff
        ((data.take f.stop.toNat).drop f.start.toNat) (by simp; omega) 1
      simp [returns_map_iff, slice_eq_ok hstart, and_assoc, h, hsvc]
    · rename_i h
      exact iff_of_true ⟨0, _, rfl⟩ fun h₁ h₂ => absurd ⟨h₁, h₂⟩ h
  goesOn s _ r f hf hr _ := by
    rw [serviceStep_some hlen hf] at hr
    split at hr
    · obtain ⟨svc, -, hr⟩ := bind_eq_ok.1 hr
      obtain ⟨name, -, hr⟩ := bind_eq_ok.1 hr
      cases hr
      exact ⟨_, rfl, rfl⟩
    · cases hr
      exact ⟨_, rfl, rfl⟩
  leaves s _ r f _ _ hskip := absurd trivial hskip

theorem returns_extractServiceNames_iff (data : Bytes) (hlen : data.length < 2 ^ 63) :
    Returns (extractServiceNames data) ↔ StringTraversable data 2 ∧ ServicesTraversable data := by
  have hloop (pkg : Bytes) : Returns (loop (fun s n => serviceStep data pkg n s) (0, [])) ↔
      ServicesTraversable data := (serviceStep_walks hlen).returns_iff rfl
  unfold extractServiceNames
  rw [returns_bind_iff (settles_extractStringField data 2) fun pkg =>
    settles_loop (settles_serviceStep hlen) (0, []), ← returns_extractStringField_iff data hlen]
  simp only [hloop, exists_and_right]
  rfl

end PoseidonServer.Grpc
