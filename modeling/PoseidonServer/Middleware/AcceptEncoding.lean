import Mathlib.Data.List.TakeWhile
import PoseidonServer.Middleware.Gzip

/-! The `Accept-Encoding` list of RFC 9110, against the scanner of the gzip middleware. -/

namespace PoseidonServer.Middleware.AcceptEncoding

/-- A weight: `0` or `1`, and up to three digits behind the point, which are zeros after a `1`. -/
structure QValue where
  whole : Bool
  fraction : Option (List (Fin 10))
  short : (fraction.getD []).length ≤ 3
  capped : whole = true → ∀ d ∈ fraction.getD [], d = 0

def digit (d : Fin 10) : UInt8 := UInt8.ofNat (0x30 + d)

def QValue.text (q : QValue) : Bytes :=
  (if q.whole then 0x31 else 0x30) :: (q.fraction.map fun ds => 0x2e :: ds.map digit).getD []

def QValue.thousandths (q : QValue) : Nat :=
  let ds := q.fraction.getD []
  (if q.whole then 1000 else 0) + ds.getD 0 0 * 100 + ds.getD 1 0 * 10 + ds.getD 2 0

abbrev OWS := { s : Bytes // s.all isOWS = true }

structure Weight where
  before : OWS
  after : OWS
  upper : Bool := false
  value : QValue

def Weight.text (w : Weight) : Bytes :=
  w.before.1 ++ 0x3b :: (w.after.1 ++ (if w.upper then 0x51 else 0x71) :: 0x3d :: w.value.text)

def delimiter (c : UInt8) : Bool := c == 0x2c || c == 0x3b || isOWS c

structure Coding where
  name : Bytes
  weight : Option Weight
  name_ne : name ≠ []
  name_form : name.any delimiter = false

def Coding.text (e : Coding) : Bytes := e.name ++ (e.weight.map Weight.text).getD []

def Coding.isGzip (e : Coding) : Bool := lowerASCII e.name == ascii "gzip"

def Coding.thousandths (e : Coding) : Nat := (e.weight.map fun w => w.value.thousandths).getD 1000

/-- An element of the list, which may be empty, with the whitespace around it. -/
structure Element where
  before : OWS
  coding : Option Coding
  after : OWS

def Element.text (e : Element) : Bytes :=
  e.before.1 ++ ((e.coding.map Coding.text).getD [] ++ e.after.1)

def listText : List Element → Bytes
  | [] => []
  | [e] => e.text
  | e :: es => e.text ++ 0x2c :: listText es

def codings (es : List Element) : List Coding := es.filterMap Element.coding

def nameOf (piece : Bytes) : Bytes := (piece.dropWhile isOWS).takeWhile (!delimiter ·)

section Scan

variable {token : Bytes}

theorem matchToken_true {val rest : Bytes} : matchToken val token = (rest, true) ↔ val = token ++ rest := by
  induction token generalizing val with
  | nil => simp [matchToken]
  | cons t token ih =>
    cases val with
    | nil => simp [matchToken]
    | cons c val =>
      rw [matchToken, List.cons_append, List.cons.injEq]
      split <;> simp_all

theorem matchToken_suffix (val token : Bytes) : (matchToken val token).1 <:+ val := by
  induction token generalizing val with
  | nil => simp [matchToken]
  | cons t token ih =>
    cases val with
    | nil => simp [matchToken]
    | cons c val =>
      rw [matchToken]
      split
      · exact (ih val).trans (List.suffix_cons c val)
      · exact List.suffix_rfl

theorem matchToken_append (htoken : 0x2c ∉ token) (val rest : Bytes) :
    matchToken (val ++ 0x2c :: rest) token =
      ((matchToken val token).1 ++ 0x2c :: rest, (matchToken val token).2) := by
  induction token generalizing val with
  | nil => simp [matchToken]
  | cons t token ih =>
    rw [List.mem_cons, not_or] at htoken
    cases val with
    | nil => simp [matchToken, htoken.1]
    | cons c val =>
      rw [List.cons_append, matchToken, matchToken]
      split
      · exact ih htoken.2 val
      · rfl

def round (token val : Bytes) (next : Bytes → Bool) : Bool :=
  let (rest, found) := matchToken val token
  if found && rest.head?.all delimiter then true else next ((rest.dropWhile (· != 0x2c)).drop 1)

def skipped (val : Bytes) : Bytes := val.dropWhile fun c => isOWS c || c == 0x2c

theorem go_cons (fuel : Nat) (c : UInt8) (val : Bytes) :
    containsToken.go token (fuel + 1) (c :: val) =
      round token (skipped (c :: val)) (containsToken.go token fuel) := rfl

theorem next_length_lt {val rest : Bytes} (hne : val ≠ []) (h : rest <:+ skipped val) :
    ((rest.dropWhile (· != 0x2c)).drop 1).length < val.length := by
  have h₁ := (List.dropWhile_suffix (l := rest) (· != 0x2c)).length_le
  have h₂ := (h.trans (List.dropWhile_suffix _)).length_le
  have h₃ := List.length_pos_of_ne_nil hne
  rw [List.length_drop]
  omega

theorem go_enough {fuel : Nat} {val : Bytes} (h : val.length ≤ fuel) :
    containsToken.go token fuel val = containsToken val token := by
  unfold containsToken
  induction fuel using Nat.strongRecOn generalizing val with
  | ind fuel ih =>
    cases val with
    | nil => cases fuel <;> rfl
    | cons c val =>
      obtain ⟨fuel, rfl⟩ : ∃ n, fuel = n + 1 := ⟨fuel - 1, by simp at h; omega⟩
      rw [go_cons, List.length_cons, go_cons]
      have hnext := next_length_lt (by simp) (matchToken_suffix (skipped (c :: val)) token)
      rw [List.length_cons] at h hnext
      unfold round
      split
      split
      · rfl
      · rename_i rest found heq _
        rw [heq] at hnext
        rw [ih fuel (by omega) (by simp only at hnext ⊢; omega)]
        rcases Nat.lt_or_ge val.length (fuel + 1) with hlt | hge
        · rw [ih val.length hlt (by simp only at hnext ⊢; omega)]
        · omega

theorem containsToken_eq (htoken : token ≠ []) (val : Bytes) :
    containsToken val token = round token (skipped val) (containsToken · token) := by
  cases val with
  | nil =>
    cases token with
    | nil => exact absurd rfl htoken
    | cons t token => rfl
  | cons c val =>
    have hnext := next_length_lt (by simp) (matchToken_suffix (skipped (c :: val)) token)
    rw [containsToken, List.length_cons, go_cons]
    unfold round
    split
    rename_i rest found heq
    rw [heq] at hnext
    simp only [List.length_cons] at hnext
    rw [go_enough (by omega)]

theorem takeWhile_eq_iff (htoken : token.any delimiter = false) {val : Bytes} :
    val.takeWhile (!delimiter ·) = token ↔
      ((matchToken val token).2 && (matchToken val token).1.head?.all delimiter) = true := by
  have hplain : ∀ c ∈ token, (!delimiter c) = true := by simpa using htoken
  rw [Bool.and_eq_true]
  constructor
  · intro h
    have hval : val = token ++ val.dropWhile (!delimiter ·) := by
      rw [← h]
      exact List.takeWhile_append_dropWhile.symm
    rw [matchToken_true.2 hval]
    refine ⟨rfl, ?_⟩
    rw [Option.all_eq_true]
    intro c hc
    have hnot := List.head?_dropWhile_not (!delimiter ·) val
    rw [show (val.dropWhile (!delimiter ·)).head? = some c from hc] at hnot
    simpa using hnot
  · rintro ⟨hfound, hhead⟩
    have hmatch : matchToken val token = ((matchToken val token).1, true) := Prod.ext rfl hfound
    rw [matchToken_true.1 hmatch]
    generalize (matchToken val token).1 = rest at hhead
    rw [List.takeWhile_append_of_pos hplain]
    cases rest with
    | nil => simp
    | cons c rest =>
      have hc : delimiter c = true := hhead
      simp [hc]

theorem skipped_append {p : Bytes} (hp : 0x2c ∉ p) (rest : Bytes) :
    skipped (p ++ rest) =
      if p.dropWhile isOWS = [] then skipped rest else p.dropWhile isOWS ++ rest := by
  induction p with
  | nil => rfl
  | cons c p ih =>
    rw [List.mem_cons, not_or] at hp
    have hcomma : (c == 0x2c) = false := beq_false_of_ne (Ne.symm hp.1)
    rw [skipped, List.cons_append, List.dropWhile_cons, List.dropWhile_cons, hcomma, Bool.or_false]
    split
    · exact ih hp.2
    · rw [if_neg (by simp)]
      rfl

theorem skipped_piece {p : Bytes} (hp : 0x2c ∉ p) : skipped p = p.dropWhile isOWS := by
  have h := skipped_append hp []
  rw [List.append_nil, List.append_nil] at h
  rw [h]
  split
  · rename_i hnil
    rw [hnil]
    rfl
  · rfl

theorem takeWhile_of_delimiter {c : UInt8} (hc : delimiter c = true) {val rest : Bytes} :
    (val ++ c :: rest).takeWhile (!delimiter ·) = val.takeWhile (!delimiter ·) := by
  have hrest : (c :: rest).takeWhile (!delimiter ·) = [] := by simp [hc]
  rw [List.takeWhile_append, hrest, List.append_nil]
  split
  · rename_i hlen
    exact ((List.takeWhile_prefix _).eq_of_length hlen).symm
  · rfl

def following (token val : Bytes) : Bytes :=
  ((matchToken val token).1.dropWhile (· != 0x2c)).drop 1

theorem round_eq (htoken : token.any delimiter = false) (val : Bytes) (next : Bytes → Bool) :
    round token val next =
      (val.takeWhile (!delimiter ·) == token || next (following token val)) := by
  have h : round token val next =
      if ((matchToken val token).2 && (matchToken val token).1.head?.all delimiter) = true then true
      else next (following token val) := rfl
  rw [h]
  by_cases hname : val.takeWhile (!delimiter ·) = token
  · rw [if_pos ((takeWhile_eq_iff htoken).1 hname), beq_iff_eq.2 hname, Bool.true_or]
  · rw [if_neg (mt (takeWhile_eq_iff htoken).2 hname), beq_false_of_ne hname, Bool.false_or]

theorem dropWhile_comma {r : Bytes} (hr : 0x2c ∉ r) (rest : Bytes) :
    (r ++ rest).dropWhile (· != 0x2c) = rest.dropWhile (· != 0x2c) := by
  refine List.dropWhile_append_of_pos fun c hc => bne_iff_ne.2 fun h => hr ?_
  exact h ▸ hc

theorem following_piece {val : Bytes} (hval : 0x2c ∉ val) : following token val = [] := by
  have hr : 0x2c ∉ (matchToken val token).1 := fun h => hval ((matchToken_suffix val token).subset h)
  have h := dropWhile_comma hr []
  rw [List.append_nil] at h
  rw [following, h]
  rfl

theorem following_comma (htoken : token.any delimiter = false) {val : Bytes} (hval : 0x2c ∉ val)
    (rest : Bytes) : following token (val ++ 0x2c :: rest) = rest := by
  have hr : 0x2c ∉ (matchToken val token).1 := fun h => hval ((matchToken_suffix val token).subset h)
  have hcomma : 0x2c ∉ token := fun h => by simpa [delimiter] using List.any_eq_false.1 htoken _ h
  rw [following, matchToken_append hcomma, dropWhile_comma hr]
  rfl

variable (hne : token ≠ []) (htoken : token.any delimiter = false)

include hne htoken

theorem containsToken_last {p : Bytes} (hp : 0x2c ∉ p) :
    containsToken p token = (nameOf p == token) := by
  have hpiece : 0x2c ∉ p.dropWhile isOWS := fun h => hp ((List.dropWhile_suffix _).subset h)
  rw [containsToken_eq hne, skipped_piece hp, round_eq htoken, following_piece hpiece]
  exact Bool.or_false _

theorem containsToken_comma {p rest : Bytes} (hp : 0x2c ∉ p) :
    containsToken (p ++ 0x2c :: rest) token = (nameOf p == token || containsToken rest token) := by
  have hpiece : 0x2c ∉ p.dropWhile isOWS := fun h => hp ((List.dropWhile_suffix _).subset h)
  rw [containsToken_eq hne, skipped_append hp, nameOf]
  split
  · rename_i hnil
    rw [hnil, List.takeWhile_nil, beq_false_of_ne hne.symm, Bool.false_or, containsToken_eq hne rest]
    rfl
  · rename_i hsome
    have hname : (p.dropWhile isOWS ++ 0x2c :: rest).takeWhile (!delimiter ·) =
        (p.dropWhile isOWS).takeWhile (!delimiter ·) := takeWhile_of_delimiter rfl
    rw [round_eq htoken, following_comma htoken hpiece, hname]

end Scan

section Elements

theorem comma_notMem_ows (o : OWS) : 0x2c ∉ o.1 := fun h => by
  cases List.all_eq_true.1 o.2 _ h

theorem comma_notMem_qvalue (q : QValue) : 0x2c ∉ q.text := by
  have hdigit : ∀ d : Fin 10, digit d ≠ 0x2c := by decide
  intro h
  rw [QValue.text, List.mem_cons] at h
  rcases h with h | h
  · split at h <;> cases h
  · cases hf : q.fraction with
    | none => simp [hf] at h
    | some ds =>
      rw [hf, Option.map_some, Option.getD_some, List.mem_cons, List.mem_map] at h
      rcases h with h | ⟨d, -, h⟩
      · cases h
      · exact hdigit d h

theorem comma_notMem_weight (w : Weight) : 0x2c ∉ w.text := by
  have hq := comma_notMem_qvalue w.value
  have hq' : (0x2c : UInt8) ≠ if w.upper then 0x51 else 0x71 := by split <;> decide
  have hb := comma_notMem_ows w.before
  have ha := comma_notMem_ows w.after
  simp [Weight.text, hq, hq', hb, ha]

theorem comma_notMem_element (e : Element) : 0x2c ∉ e.text := by
  have hb := comma_notMem_ows e.before
  have ha := comma_notMem_ows e.after
  have hc : 0x2c ∉ (e.coding.map Coding.text).getD [] := by
    cases e.coding with
    | none => simp
    | some c =>
      have hname : 0x2c ∉ c.name := fun h => by
        simpa [delimiter] using List.any_eq_false.1 c.name_form _ h
      cases hw : c.weight with
      | none => simp [Coding.text, hw, hname]
      | some w => simp [Coding.text, hw, hname, comma_notMem_weight w]
  simp [Element.text, hb, ha, hc]

theorem takeWhile_ows {val : Bytes} (hval : val.any delimiter = false) (o : OWS) (rest : Bytes)
    (hrest : rest.takeWhile (!delimiter ·) = []) :
    (val ++ (o.1 ++ rest)).takeWhile (!delimiter ·) = val := by
  have hplain : val.takeWhile (!delimiter ·) = val :=
    List.takeWhile_eq_self_iff.2 fun c hc => by simpa using List.any_eq_false.1 hval c hc
  obtain ⟨o, ho⟩ := o
  cases o with
  | nil => rw [List.nil_append, List.takeWhile_append_of_pos (by simpa using hval), hrest, List.append_nil]
  | cons c o =>
    rw [List.all_cons, Bool.and_eq_true] at ho
    rw [List.cons_append, takeWhile_of_delimiter (by simp [delimiter, ho.1]), hplain]

/-- What follows the name of a coding starts with a delimiter. -/
theorem takeWhile_coding (c : Coding) (after : OWS) :
    (c.text ++ after.1).takeWhile (!delimiter ·) = c.name := by
  rw [Coding.text]
  cases c.weight with
  | none => simpa using takeWhile_ows c.name_form after [] rfl
  | some w =>
    rw [Option.map_some, Option.getD_some, Weight.text, List.append_assoc, List.append_assoc]
    exact takeWhile_ows c.name_form w.before _ rfl

theorem nameOf_element (e : Element) : nameOf e.text = (e.coding.map Coding.name).getD [] := by
  have hskip : e.text.dropWhile isOWS =
      ((e.coding.map Coding.text).getD [] ++ e.after.1).dropWhile isOWS :=
    List.dropWhile_append_of_pos fun c hc => List.all_eq_true.1 e.before.2 c hc
  rw [nameOf, hskip]
  cases e.coding with
  | none =>
    have hafter : e.after.1.dropWhile isOWS = [] :=
      List.dropWhile_eq_nil_iff.2 fun c hc => List.all_eq_true.1 e.after.2 c hc
    simp [hafter]
  | some c =>
    rw [Option.map_some, Option.getD_some, Option.map_some, Option.getD_some, ← takeWhile_coding c e.after]
    obtain ⟨x, name, hname⟩ := List.exists_cons_of_ne_nil c.name_ne
    have hx : isOWS x = false := by
      have := c.name_form
      rw [hname, List.any_cons, Bool.or_eq_false_iff] at this
      simp only [delimiter, Bool.or_eq_false_iff] at this
      exact this.1.2
    rw [Coding.text, hname, List.cons_append, List.cons_append, List.dropWhile_cons_of_neg (by simp [hx])]

/-- The scanner finds the codings whose name is exactly the token. -/
theorem containsToken_listText {token : Bytes} (hne : token ≠ [])
    (htoken : token.any delimiter = false) (es : List Element) :
    containsToken (listText es) token = (codings es).any (·.name == token) := by
  have helement (e : Element) (es : List Element) :
      (codings (e :: es)).any (·.name == token) =
        (nameOf e.text == token || (codings es).any (·.name == token)) := by
    rw [nameOf_element, codings, List.filterMap_cons]
    cases e.coding with
    | none => simp [codings, beq_false_of_ne hne.symm]
    | some c => simp [codings]
  induction es with
  | nil => rfl
  | cons e es ih =>
    cases es with
    | nil =>
      rw [helement, listText, containsToken_last hne htoken (comma_notMem_element e)]
      exact (Bool.or_false _).symm
    | cons e' es =>
      rw [helement, listText, containsToken_comma hne htoken (comma_notMem_element e), ih]
      simp

end Elements

/-- The client refuses gzip by its weight in every element that names it, and one is written `gzip`. -/
def OnlyRefused (es : List Element) : Prop :=
  (∃ c ∈ codings es, c.name = ascii "gzip") ∧ ∀ c ∈ codings es, c.isGzip = true → c.thousandths = 0

/-- The client accepts gzip, and every element that names it is written with a capital. -/
def OnlyCapital (es : List Element) : Prop :=
  (∃ c ∈ codings es, c.isGzip = true ∧ c.thousandths ≠ 0) ∧ ∀ c ∈ codings es, c.name ≠ ascii "gzip"

/-- `acceptsGzip` looks for an element that is written `gzip`. It decides whether gzip is acceptable
exactly if the list neither refuses gzip by its weight nor names it with a capital alone. -/
theorem accepts_gzip_iff (headers : List HeaderField) (es : List Element)
    (hfirst : (headers.find? (·.name = ascii "accept-encoding")).map HeaderField.val =
      some (listText es)) :
    (acceptsGzip headers = true ↔ ∃ c ∈ codings es, c.name = ascii "gzip") ∧
    ((acceptsGzip headers = true ↔ ∃ c ∈ codings es, c.isGzip = true ∧ c.thousandths ≠ 0) ↔
      ¬OnlyRefused es ∧ ¬OnlyCapital es) := by
  have haccepts : acceptsGzip headers = true ↔ ∃ c ∈ codings es, c.name = ascii "gzip" := by
    obtain ⟨h, hh, hval⟩ := Option.map_eq_some_iff.1 hfirst
    rw [acceptsGzip, hh]
    simp only
    rw [hval, containsToken_listText (by decide) (by decide), List.any_eq_true]
    simp only [beq_iff_eq]
  refine ⟨haccepts, ?_⟩
  rw [haccepts]
  constructor
  · intro h
    refine ⟨fun ⟨hgzip, hzero⟩ => ?_, fun ⟨hsome, hnone⟩ => ?_⟩
    · obtain ⟨c, hc, hname, hweight⟩ := h.1 hgzip
      exact hweight (hzero c hc hname)
    · obtain ⟨c, hc, hname⟩ := h.2 hsome
      exact hnone c hc hname
  · rintro ⟨hrefused, hcapital⟩
    constructor
    · intro hgzip
      by_contra hnone
      push Not at hnone
      exact hrefused ⟨hgzip, hnone⟩
    · intro hsome
      by_contra hnone
      push Not at hnone
      exact hcapital ⟨hsome, hnone⟩

def noOWS : OWS := ⟨[], rfl⟩

def zeroWeight : Weight where
  before := noOWS
  after := noOWS
  value := ⟨false, none, by decide, by decide⟩

def gzipCoding : Coding := ⟨ascii "gzip", none, by decide, by decide⟩
def gzipRefused : Coding := ⟨ascii "gzip", some zeroWeight, by decide, by decide⟩
def gzipCapital : Coding := ⟨ascii "GZIP", none, by decide, by decide⟩

def Coding.element (c : Coding) : Element := ⟨noOWS, some c, noOWS⟩

def acceptEncoding (v : Bytes) : List HeaderField :=
  [{ name := ascii "accept-encoding", value := some v }]

theorem accepts_gzip_of_list : (acceptsGzip (acceptEncoding (ascii "GZIP,gzip")) = true ↔
    ∃ c ∈ codings [gzipCapital.element, gzipCoding.element], c.isGzip = true ∧ c.thousandths ≠ 0) := by
  have hmem : gzipCoding ∈ codings [gzipCapital.element, gzipCoding.element] :=
    List.mem_cons_of_mem _ List.mem_cons_self
  refine (accepts_gzip_iff _ _ (by decide)).2.2 ⟨fun h => ?_, fun h => ?_⟩
  · exact absurd (h.2 gzipCoding hmem rfl) (by decide)
  · exact h.2 gzipCoding hmem rfl

/-- A client that refuses gzip is sent gzip; one that accepts `GZIP` is not. -/
theorem weight_and_case_are_ignored :
    (listText [gzipRefused.element] = ascii "gzip;q=0" ∧ gzipRefused.thousandths = 0 ∧
      acceptsGzip (acceptEncoding (listText [gzipRefused.element])) = true) ∧
    listText [gzipCapital.element] = ascii "GZIP" ∧ gzipCapital.isGzip = true ∧
      gzipCapital.thousandths ≠ 0 ∧
      acceptsGzip (acceptEncoding (listText [gzipCapital.element])) = false := by
  decide

end PoseidonServer.Middleware.AcceptEncoding
