import PoseidonServer.HttpFields

/-! What the field rules accept: the form of a request's field section and of a trailer section. -/

namespace PoseidonServer.HttpFields

def pseudo (f : HeaderField) : Bool := f.name.head? == some 0x3a

def requestPseudoNames : List Bytes :=
  [ascii ":method", ascii ":scheme", ascii ":path", ascii ":authority"]

def values (n : Bytes) (fields : List HeaderField) : List (Option Bytes) :=
  (fields.filter (·.name = n)).map (·.value)

/-- The pseudo-headers come first and are those of a request; every field has a name. -/
def Arranged (fields : List HeaderField) : Prop :=
  ∃ first regular, fields = first ++ regular ∧ (∀ f ∈ first, f.name ∈ requestPseudoNames) ∧
    ∀ f ∈ regular, f.name ≠ [] ∧ pseudo f = false

variable {f : HeaderField} {fields : List HeaderField} {n : Bytes} {ph ph' : RequestPseudoHeaders}

theorem pseudo_of_mem (h : f.name ∈ requestPseudoNames) : pseudo f = true := by
  simp only [requestPseudoNames, List.mem_cons, List.not_mem_nil, or_false] at h
  obtain h | h | h | h := h <;> simp [pseudo, h] <;> rfl

theorem values_cons : values n (f :: fields) =
    if f.name = n then f.value :: values n fields else values n fields := by
  by_cases h : f.name = n <;> simp [values, h]

theorem values_eq_nil (hn : n ∈ requestPseudoNames) (h : ∀ f ∈ fields, pseudo f = false) :
    values n fields = [] := by
  simp only [values, List.map_eq_nil_iff, List.filter_eq_nil_iff, decide_eq_true_eq]
  rintro f hf rfl
  simpa [pseudo_of_mem hn] using h f hf

theorem arranged_nil : Arranged [] := ⟨[], [], rfl, by simp, by simp⟩

theorem arranged_cons_pseudo (h : f.name ∈ requestPseudoNames) :
    Arranged (f :: fields) ↔ Arranged fields := by
  constructor
  · rintro ⟨first, regular, hfs, hfirst, hregular⟩
    cases first with
    | nil =>
      simp only [List.nil_append] at hfs
      simpa [pseudo_of_mem h] using (hregular f (by simp [← hfs])).2
    | cons g first =>
      cases hfs
      exact ⟨first, regular, rfl, fun f hf => hfirst f (by simp [hf]), hregular⟩
  · rintro ⟨first, regular, rfl, hfirst, hregular⟩
    refine ⟨f :: first, regular, rfl, ?_, hregular⟩
    simpa [h] using hfirst

theorem arranged_cons_regular (h : f.name ∉ requestPseudoNames) : Arranged (f :: fields) ↔
    (f.name ≠ [] ∧ pseudo f = false) ∧ ∀ f ∈ fields, f.name ≠ [] ∧ pseudo f = false := by
  constructor
  · rintro ⟨first, regular, hfs, hfirst, hregular⟩
    cases first with
    | nil =>
      cases hfs
      exact List.forall_mem_cons.1 hregular
    | cons g first =>
      cases hfs
      exact absurd (hfirst f (by simp)) h
  · intro hregular
    exact ⟨[], f :: fields, rfl, by simp, List.forall_mem_cons.2 hregular⟩

theorem scan_regular : scanRequestPseudoHeaders ph true fields = some ph' ↔
    ph = ph' ∧ ∀ f ∈ fields, f.name ≠ [] ∧ pseudo f = false := by
  induction fields with
  | nil => simp [scanRequestPseudoHeaders]
  | cons f fields ih =>
    cases hname : f.name with
    | nil => simp [scanRequestPseudoHeaders, hname]
    | cons c name =>
      by_cases hc : c = 0x3a
      · simp [scanRequestPseudoHeaders, hname, hc, pseudo]
      · simp [scanRequestPseudoHeaders, hname, hc, pseudo, ih]

def keep : Option Bytes → List (Option Bytes) → Option (Option Bytes)
  | kept, [] => some kept
  | kept, v :: vs => if kept.isSome then none else keep v vs

def keepPath : Option Bytes × Bool → List (Option Bytes) → Option (Option Bytes × Bool)
  | kept, [] => some kept
  | kept, v :: vs => if kept.2 then none else keepPath (v, true) vs

def Scanned (ph ph' : RequestPseudoHeaders) (fields : List HeaderField) : Prop :=
  keep ph.method (values (ascii ":method") fields) = some ph'.method ∧
  keep ph.scheme (values (ascii ":scheme") fields) = some ph'.scheme ∧
  keepPath (ph.path, ph.seenPath) (values (ascii ":path") fields) = some (ph'.path, ph'.seenPath) ∧
  keep ph.authority (values (ascii ":authority") fields) = some ph'.authority

theorem scanned_regular (h : ∀ f ∈ fields, pseudo f = false) : Scanned ph ph' fields ↔ ph = ph' := by
  have hvalues {n : Bytes} (hn : n ∈ requestPseudoNames) := values_eq_nil hn h
  cases ph
  cases ph'
  rw [Scanned, hvalues (n := ascii ":method") (by simp [requestPseudoNames]),
    hvalues (n := ascii ":scheme") (by simp [requestPseudoNames]),
    hvalues (n := ascii ":path") (by simp [requestPseudoNames]),
    hvalues (n := ascii ":authority") (by simp [requestPseudoNames])]
  simp only [keep, keepPath, Option.some.injEq, Prod.mk.injEq, RequestPseudoHeaders.mk.injEq]
  tauto

theorem scan_cons_pseudo (h : pseudo f = true) : scanRequestPseudoHeaders ph false (f :: fields) =
    if f.name = ascii ":method" then
      if ph.method.isSome then none
      else scanRequestPseudoHeaders { ph with method := f.value } false fields
    else if f.name = ascii ":scheme" then
      if ph.scheme.isSome then none
      else scanRequestPseudoHeaders { ph with scheme := f.value } false fields
    else if f.name = ascii ":path" then
      if ph.seenPath then none
      else scanRequestPseudoHeaders { ph with path := f.value, seenPath := true } false fields
    else if f.name = ascii ":authority" then
      if ph.authority.isSome then none
      else scanRequestPseudoHeaders { ph with authority := f.value } false fields
    else none := by
  rw [scanRequestPseudoHeaders]
  cases hname : f.name with
  | nil => simp [pseudo, hname] at h
  | cons c name =>
    have hc : c = 0x3a := by simpa [pseudo, hname] using h
    simp [hc]

theorem scan_cons_regular (h : f.name ≠ [] ∧ pseudo f = false) :
    scanRequestPseudoHeaders ph false (f :: fields) = scanRequestPseudoHeaders ph true fields := by
  rw [scanRequestPseudoHeaders]
  cases hname : f.name with
  | nil => exact absurd hname h.1
  | cons c name =>
    have hc : c ≠ 0x3a := by simpa [pseudo, hname] using h.2
    simp [hc]

theorem regular_of_scan (hmem : f.name ∉ requestPseudoNames)
    (h : scanRequestPseudoHeaders ph false (f :: fields) = some ph') :
    f.name ≠ [] ∧ pseudo f = false := by
  constructor
  · intro hname
    simp [scanRequestPseudoHeaders, hname] at h
  · by_contra hf
    simp only [requestPseudoNames, List.mem_cons, List.not_mem_nil, or_false, not_or] at hmem
    rw [scan_cons_pseudo (by simpa using hf), if_neg hmem.1, if_neg hmem.2.1, if_neg hmem.2.2.1,
      if_neg hmem.2.2.2] at h
    cases h

theorem scan_iff : scanRequestPseudoHeaders ph false fields = some ph' ↔
    Arranged fields ∧ Scanned ph ph' fields := by
  induction fields generalizing ph with
  | nil => simp [scanRequestPseudoHeaders, arranged_nil, scanned_regular]
  | cons f fields ih =>
    by_cases hmem : f.name ∈ requestPseudoNames
    · rw [arranged_cons_pseudo hmem, scan_cons_pseudo (pseudo_of_mem hmem)]
      simp only [requestPseudoNames, List.mem_cons, List.not_mem_nil, or_false] at hmem
      have h₁ : ascii ":scheme" ≠ ascii ":method" := by decide
      have h₂ : ascii ":path" ≠ ascii ":method" ∧ ascii ":path" ≠ ascii ":scheme" := by decide
      have h₃ : ascii ":authority" ≠ ascii ":method" ∧ ascii ":authority" ≠ ascii ":scheme" ∧
        ascii ":authority" ≠ ascii ":path" := by decide
      obtain h | h | h | h := hmem
      · cases hm : ph.method <;>
          simp [h, hm, ih, Scanned, values_cons, keep, h₁.symm, h₂.1.symm, h₃.1.symm]
      · cases hm : ph.scheme <;>
          simp [h, hm, ih, Scanned, values_cons, keep, h₁, h₂.2.symm, h₃.2.1.symm]
      · cases hm : ph.seenPath <;>
          simp [h, hm, ih, Scanned, values_cons, keepPath, h₂, h₃.2.2.symm]
      · cases hm : ph.authority <;> simp [h, hm, ih, Scanned, values_cons, keep, h₃]
    · rw [arranged_cons_regular hmem]
      constructor
      · intro h
        have hf := regular_of_scan hmem h
        rw [scan_cons_regular hf, scan_regular] at h
        obtain ⟨rfl, h⟩ := h
        refine ⟨⟨hf, h⟩, (scanned_regular ?_).2 rfl⟩
        exact List.forall_mem_cons.2 ⟨hf.2, fun g hg => (h g hg).2⟩
      · rintro ⟨⟨hf, h⟩, hs⟩
        rw [scanned_regular (List.forall_mem_cons.2 ⟨hf.2, fun g hg => (h g hg).2⟩)] at hs
        rw [scan_cons_regular hf, scan_regular]
        exact ⟨hs, h⟩

def httpScheme (scheme : Bytes) : Bool :=
  equalFold scheme (ascii "http") || equalFold scheme (ascii "https")

/-- What is asked of the pseudo-headers once they have been collected. -/
structure PseudoForm (ph : RequestPseudoHeaders) : Prop where
  method : ph.method.isSome = true
  userinfo : httpScheme (ph.scheme.getD []) = true → 0x40 ∉ ph.authority.getD []
  target : ph.method ≠ some (ascii "CONNECT") → ph.scheme.isSome = true ∧ ph.seenPath = true ∧
    (httpScheme (ph.scheme.getD []) = true → ph.path.getD [] ≠ [])

theorem valid_iff : validRequestPseudoHeaders fields = true ↔
    ∃ ph, scanRequestPseudoHeaders {} false fields = some ph ∧ PseudoForm ph := by
  unfold validRequestPseudoHeaders
  cases scanRequestPseudoHeaders {} false fields with
  | none => simp
  | some ph =>
    obtain ⟨method, scheme, path, authority, seenPath⟩ := ph
    cases method with
    | none =>
      simp only [Bool.false_eq_true, Option.some.injEq, exists_eq_left', false_iff]
      intro h
      simpa using h.method
    | some m =>
      have hform : PseudoForm ⟨some m, scheme, path, authority, seenPath⟩ ↔
          (httpScheme (scheme.getD []) = true → 0x40 ∉ authority.getD []) ∧
          (m ≠ ascii "CONNECT" → scheme.isSome = true ∧ seenPath = true ∧
            (httpScheme (scheme.getD []) = true → path.getD [] ≠ [])) :=
        ⟨fun h => ⟨h.userinfo, fun hm => h.target (by simpa using hm)⟩,
          fun h => ⟨rfl, h.1, fun hm => h.2 (by simpa using hm)⟩⟩
      simp only [Option.some.injEq, exists_eq_left', hform]
      change (if httpScheme (scheme.getD []) && (authority.getD []).contains 0x40 then false
        else if m == ascii "CONNECT" then true else if scheme.isNone || !seenPath then false
        else !httpScheme (scheme.getD []) || 0 < (path.getD []).length) = true ↔ _
      generalize httpScheme (scheme.getD []) = http
      cases http <;> by_cases hm : m = ascii "CONNECT" <;>
        simp [hm, List.length_pos_iff, Option.isSome_iff_ne_none, and_assoc]

/-- What is asked of every field line: a lower-case visible name without a colon inside, a value
that no line break, NUL or surrounding whitespace spoils, and no connection-specific meaning. -/
structure FieldForm (name value : Bytes) : Prop where
  named : name ≠ []
  octets : ∀ c ∈ name, 0x20 < c ∧ c < 0x7f ∧ ¬(0x41 ≤ c ∧ c ≤ 0x5a)
  colon : 0x3a ∉ name.tail
  breaks : ∀ c ∈ value, c ≠ 0x0d ∧ c ≠ 0x0a ∧ c ≠ 0x00
  spaces : ∀ c, value.head? = some c ∨ value.getLast? = some c → c ≠ 0x20 ∧ c ≠ 0x09
  connection : name ∉ [ascii "upgrade", ascii "connection", ascii "keep-alive",
    ascii "proxy-connection", ascii "transfer-encoding"]
  te : name = ascii "te" → equalFold value (ascii "trailers") = true

theorem equalFold_unique {s t t' : Bytes} (h : equalFold s t = true)
    (h' : equalFold s t' = true) : t = t' := by
  fun_induction equalFold s t generalizing t' with
  | case1 => cases t' <;> simp_all [equalFold]
  | case2 s t ts ih =>
    cases t' with
    | nil => simp [equalFold] at h'
    | cons u us =>
      simp only [equalFold, Bool.and_eq_true, beq_iff_eq] at h h'
      rw [h.1, h'.1, ih h.2 h'.2]
  | case3 s t ts ih =>
    cases t' with
    | nil => simp [equalFold] at h'
    | cons u us =>
      simp only [equalFold, Bool.and_eq_true, beq_iff_eq] at h h'
      rw [h.1, h'.1, ih h.2 h'.2]
  | case4 c s t ts h₁ h₂ ih =>
    cases t' with
    | nil => simp [equalFold] at h'
    | cons u us =>
      rw [equalFold.eq_4 _ _ _ _ h₁ h₂] at h'
      simp only [Bool.and_eq_true, beq_iff_eq] at h h'
      rw [← h.1, h'.1, ih h.2 h'.2]
  | case5 => cases h

theorem prohibitedNameOctet_eq_false {c : UInt8} : prohibitedNameOctet c = false ↔
    0x20 < c ∧ c < 0x7f ∧ ¬(0x41 ≤ c ∧ c ≤ 0x5a) := by
  simp only [prohibitedNameOctet, Bool.or_eq_false_iff, decide_eq_false_iff_not, UInt8.not_le,
    Bool.and_eq_false_iff, ge_iff_le, and_assoc, not_and_or]

theorem hasProhibitedFieldName_eq_false {name : Bytes} : hasProhibitedFieldName name = false ↔
    name ≠ [] ∧ (∀ c ∈ name, 0x20 < c ∧ c < 0x7f ∧ ¬(0x41 ≤ c ∧ c ≤ 0x5a)) ∧ 0x3a ∉ name.tail := by
  cases name with
  | nil => simp [hasProhibitedFieldName]
  | cons c name =>
    simp only [hasProhibitedFieldName, Bool.or_eq_false_iff, List.any_eq_false, Bool.not_eq_true,
      prohibitedNameOctet_eq_false, beq_eq_false_iff_ne, ne_eq, reduceCtorEq, not_false_eq_true,
      true_and, List.forall_mem_cons, List.tail_cons]
    constructor
    · rintro ⟨hc, h⟩
      exact ⟨⟨hc, fun d hd => (h d hd).1⟩, fun hmem => (h _ hmem).2 rfl⟩
    · rintro ⟨⟨hc, h⟩, hcolon⟩
      exact ⟨hc, fun d hd => ⟨h d hd, fun he => hcolon (he ▸ hd)⟩⟩

theorem hasProhibitedFieldChar_eq_false {value : Bytes} : hasProhibitedFieldChar value = false ↔
    (∀ c ∈ value, c ≠ 0x0d ∧ c ≠ 0x0a ∧ c ≠ 0x00) ∧
    ∀ c, value.head? = some c ∨ value.getLast? = some c → c ≠ 0x20 ∧ c ≠ 0x09 := by
  simp only [hasProhibitedFieldChar, Bool.or_eq_false_iff, List.any_eq_false, Bool.not_eq_true,
    beq_eq_false_iff_ne, Option.any_eq_false, and_assoc]
  constructor
  · rintro ⟨hhead, hlast, h⟩
    exact ⟨h, fun c hc => hc.elim (hhead c) (hlast c)⟩
  · rintro ⟨h, hends⟩
    exact ⟨fun c hc => hends c (.inl hc), fun c hc => hends c (.inr hc), h⟩

theorem prohibited_eq_false {name value : Bytes} {isTrailer : Bool} :
    prohibited name value isTrailer = false ↔
      FieldForm name value ∧ (isTrailer = true → name.head? ≠ some 0x3a) := by
  have hte : name = ascii "te" → isConnectionSpecificName name = false := by
    rintro rfl
    rfl
  have hconn : isConnectionSpecificName name = false ↔ name ∉ [ascii "upgrade", ascii "connection",
      ascii "keep-alive", ascii "proxy-connection", ascii "transfer-encoding"] := by
    simp [isConnectionSpecificName, and_assoc]
  have hform : FieldForm name value ↔ hasProhibitedFieldName name = false ∧
      hasProhibitedFieldChar value = false ∧ isConnectionSpecificName name = false ∧
      (name = ascii "te" → equalFold value (ascii "trailers") = true) := by
    rw [hasProhibitedFieldName_eq_false, hasProhibitedFieldChar_eq_false, hconn]
    exact ⟨fun h => ⟨⟨h.named, h.octets, h.colon⟩, ⟨h.breaks, h.spaces⟩, h.connection, h.te⟩,
      fun ⟨⟨h₁, h₂, h₃⟩, ⟨h₄, h₅⟩, h₆, h₇⟩ => ⟨h₁, h₂, h₃, h₄, h₅, h₆, h₇⟩⟩
  rw [hform, prohibited]
  clear hconn hform
  by_cases ht : name = ascii "te"
  · have := hte ht
    cases hasProhibitedFieldName name <;> cases hasProhibitedFieldChar value <;> cases isTrailer <;>
      simp_all [and_comm]
  · cases hasProhibitedFieldName name <;> cases hasProhibitedFieldChar value <;> cases isTrailer <;>
      simp [ht, and_comm]

def field (n : Bytes) (fields : List HeaderField) : Option Bytes :=
  (fields.find? (·.name = n)).map (·.val)

structure RequestSection (fields : List HeaderField) : Prop where
  forms : ∀ f ∈ fields, FieldForm f.name f.val
  arranged : Arranged fields
  unique : ∀ n ∈ requestPseudoNames, (fields.filter (·.name = n)).length ≤ 1
  method : (field (ascii ":method") fields).isSome = true
  userinfo : ∀ scheme authority, field (ascii ":scheme") fields = some scheme →
    httpScheme scheme = true → field (ascii ":authority") fields = some authority →
    0x40 ∉ authority
  target : field (ascii ":method") fields ≠ some (ascii "CONNECT") → ∃ scheme path,
    field (ascii ":scheme") fields = some scheme ∧ field (ascii ":path") fields = some path ∧
    (httpScheme scheme = true → path ≠ [])

structure TrailerSection (fields : List HeaderField) : Prop where
  forms : ∀ f ∈ fields, FieldForm f.name f.val
  regular : ∀ f ∈ fields, pseudo f = false

def Owned (fields : List HeaderField) : Prop := ∀ f ∈ fields, f.value = some f.val

theorem keep_some {vs : List (Option Bytes)} (h : ∀ v ∈ vs, v.isSome = true) {r : Option Bytes} :
    keep none vs = some r ↔ vs.length ≤ 1 ∧ r = vs.head?.join := by
  match vs with
  | [] => simp [keep, eq_comm]
  | [v] => simp [keep, eq_comm]
  | v :: u :: vs =>
    have hv := h v (by simp)
    simp [keep, hv]

theorem keepPath_some {vs : List (Option Bytes)} {r : Option Bytes} {seen : Bool} :
    keepPath (none, false) vs = some (r, seen) ↔
      vs.length ≤ 1 ∧ r = vs.head?.join ∧ seen = !vs.isEmpty := by
  match vs with
  | [] => simp [keepPath, eq_comm]
  | [v] => simp [keepPath, eq_comm]
  | v :: u :: vs => simp [keepPath]

theorem values_head_owned (h : Owned fields) (n : Bytes) :
    (values n fields).head?.join = field n fields := by
  simp only [values, List.head?_map, List.head?_filter, field]
  cases hf : fields.find? (·.name = n) with
  | none => rfl
  | some f => simp [h f (List.mem_of_find?_eq_some hf)]

theorem values_isSome_owned (h : Owned fields) (n : Bytes) : ∀ v ∈ values n fields, v.isSome = true := by
  intro v hv
  obtain ⟨f, hf, rfl⟩ := List.mem_map.1 hv
  rw [h f (List.mem_filter.1 hf).1]
  rfl

theorem field_isSome_iff (h : Owned fields) (n : Bytes) :
    (field n fields).isSome = !(values n fields).isEmpty := by
  rw [← values_head_owned h]
  cases hv : values n fields with
  | nil => rfl
  | cons v vs =>
    have := values_isSome_owned h n v (by simp [hv])
    simp [this]

theorem scan_owned (h : Owned fields) : scanRequestPseudoHeaders {} false fields = some ph ↔
    Arranged fields ∧ (∀ n ∈ requestPseudoNames, (fields.filter (·.name = n)).length ≤ 1) ∧
    ph = ⟨field (ascii ":method") fields, field (ascii ":scheme") fields,
      field (ascii ":path") fields, field (ascii ":authority") fields,
      (field (ascii ":path") fields).isSome⟩ := by
  have hlen (n : Bytes) : (values n fields).length = (fields.filter (·.name = n)).length := by
    simp [values]
  rw [scan_iff]
  cases ph
  simp only [Scanned, keep_some (values_isSome_owned h _), keepPath_some, values_head_owned h,
    ← field_isSome_iff h, hlen, requestPseudoNames, List.forall_mem_cons, List.not_mem_nil,
    false_imp_iff, implies_true, and_true, RequestPseudoHeaders.mk.injEq]
  constructor
  · rintro ⟨harr, ⟨hm, rfl⟩, ⟨hs, rfl⟩, ⟨hp, rfl, rfl⟩, ha, rfl⟩
    exact ⟨harr, ⟨hm, hs, hp, ha⟩, rfl, rfl, rfl, rfl, rfl⟩
  · rintro ⟨harr, ⟨hm, hs, hp, ha⟩, rfl, rfl, rfl, rfl, rfl⟩
    exact ⟨harr, ⟨hm, rfl⟩, ⟨hs, rfl⟩, ⟨hp, rfl, rfl⟩, ha, rfl⟩

/-- The rules accept a copied field section as a request when it has the form of one. -/
theorem requestSection_iff (h : Owned fields) :
    (∀ f ∈ fields, prohibited f.name f.val false = false) ∧ validRequestPseudoHeaders fields = true ↔
      RequestSection fields := by
  simp only [prohibited_eq_false, Bool.false_eq_true, false_imp_iff, and_true, valid_iff, scan_owned h]
  constructor
  · rintro ⟨hforms, ph, ⟨harr, huniq, rfl⟩, hp⟩
    refine ⟨hforms, harr, huniq, hp.method, fun scheme authority hs hhttp ha => ?_, fun hm => ?_⟩
    · have := hp.userinfo
      simp only [hs, ha, Option.getD_some] at this
      exact this hhttp
    · obtain ⟨hs, hpath, hhttp⟩ := hp.target hm
      obtain ⟨scheme, hs⟩ : ∃ s, field (ascii ":scheme") fields = some s := Option.isSome_iff_exists.1 hs
      obtain ⟨path, hpath⟩ := Option.isSome_iff_exists.1 hpath
      simp only [hs, hpath, Option.getD_some] at hhttp
      exact ⟨scheme, path, hs, hpath, hhttp⟩
  · intro hr
    refine ⟨hr.forms, _, ⟨hr.arranged, hr.unique, rfl⟩, hr.method, fun hhttp => ?_, fun hm => ?_⟩
    · dsimp only at hhttp ⊢
      cases hs : field (ascii ":scheme") fields with
      | none =>
        rw [hs] at hhttp
        exact absurd hhttp (by decide)
      | some scheme =>
        rw [hs] at hhttp
        cases ha : field (ascii ":authority") fields with
        | none => simp
        | some authority => exact hr.userinfo scheme authority hs hhttp ha
    · obtain ⟨scheme, path, hs, hpath, hhttp⟩ := hr.target hm
      simp only [hs, hpath, Option.getD_some, Option.isSome_some, true_and]
      exact hhttp

theorem trailerSection_iff : (∀ f ∈ fields, prohibited f.name f.val true = false) ↔
    TrailerSection fields := by
  simp only [prohibited_eq_false, true_imp_iff]
  refine ⟨fun h => ⟨fun f hf => (h f hf).1, fun f hf => ?_⟩, fun h f hf => ⟨h.forms f hf, ?_⟩⟩
  · simpa [pseudo] using (h f hf).2
  · simpa [pseudo] using h.regular f hf

end PoseidonServer.HttpFields
