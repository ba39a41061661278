import PoseidonServer.Server.Response

/-! The h2c upgrade: the HTTP/1.1 request that becomes the first stream (`server/h2c.go`). -/

namespace PoseidonServer.Server.Upgrade

open HttpFields

def tokenChar (c : UInt8) : Bool :=
  (0x61 ≤ c && c ≤ 0x7a) || (0x41 ≤ c && c ≤ 0x5a) || (0x30 ≤ c && c ≤ 0x39) ||
  [0x21, 0x23, 0x24, 0x25, 0x26, 0x27, 0x2a, 0x2b, 0x2d, 0x2e, 0x5e, 0x5f, 0x60, 0x7c, 0x7e].contains c

def validFieldName (name : Bytes) : Bool := name ≠ [] && name.all tokenChar

def connectionSpecificFields : List Bytes :=
  [ascii "connection", ascii "upgrade", ascii "http2-settings", ascii "keep-alive",
    ascii "proxy-connection", ascii "transfer-encoding", ascii "host"]

/-- What `http.ReadRequest` returns. It lets only a token pass for the method, and the request URI of
a parsed URL is neither empty nor has it spaces or control characters. -/
structure HTTP1Request where
  method : Bytes
  protoMajor : Int
  protoMinor : Int
  host : Bytes
  requestURI : Bytes
  header : HeaderMap
  contentLength : Int
  transferEncoding : List Bytes
  method_form : hasProhibitedFieldChar method = false
  uri_ne : requestURI ≠ []
  uri_form : hasProhibitedFieldChar requestURI = false

structure UpgradeLib extends Lib where
  /-- `strings.TrimSpace`. -/
  trimSpace : Bytes → Bytes
  /-- `base64.RawURLEncoding.DecodeString`. -/
  decodeString : Bytes → Option Bytes

variable (lib : UpgradeLib)

def hasListToken (values : List Bytes) (want : Bytes) : Bool :=
  values.any fun v => (v.splitOn 0x2c).any fun tok => equalFold (lib.trimSpace tok) want

def hasUpgradeToken (values : List Bytes) : Bool := hasListToken lib values (ascii "h2c")

def validHTTP2SettingsPayload (v : Bytes) : Bool :=
  match lib.decodeString v with
  | none => false
  | some raw => raw.length % 6 == 0

def pseudoFields (req : HTTP1Request) : List HeaderField :=
  [{ name := ascii ":method", value := some req.method },
    { name := ascii ":scheme", value := some (ascii "http") },
    { name := ascii ":authority", value := some req.host },
    { name := ascii ":path", value := some req.requestURI }]

def regularFields (e : Bytes × List Bytes) : List HeaderField :=
  let lower := lib.toLower e.1
  if lower ∈ connectionSpecificFields then []
  else e.2.map fun v => { name := lower, value := some v }

def upgradeRequestFields (req : HTTP1Request) : List HeaderField :=
  pseudoFields req ++ (lib.range req.header).flatMap (regularFields lib)

def handleHTTP1Upgrade : Option HTTP1Request → Except Bytes (List HeaderField)
  | none => .error (ascii "Malformed request")
  | some req =>
    if req.header.any fun e => !validFieldName e.1 then .error (ascii "Malformed field name")
    else if req.protoMajor ≠ 1 ∨ req.protoMinor < 1 then .error (ascii "Only h2c supported")
    else if req.host = [] then .error (ascii "Missing Host header field")
    else if !hasUpgradeToken lib (req.header.values (ascii "Upgrade")) then
      .error (ascii "Only h2c supported")
    else if hasListToken lib (req.header.values (ascii "Connection")) (ascii "close") then
      .error (ascii "Upgrade request must not request connection close")
    else match req.header.values (ascii "Http2-Settings") with
      | [payload] =>
        if !validHTTP2SettingsPayload lib payload then
          .error (ascii "Upgrade requires exactly one valid HTTP2-Settings header field")
        else if req.contentLength ≠ 0 ∨ req.transferEncoding ≠ [] then
          .error (ascii "Upgrade request must not carry content")
        else .ok (upgradeRequestFields lib req)
      | _ => .error (ascii "Upgrade requires exactly one valid HTTP2-Settings header field")

/-- The message rules for a request that the upgrade carries over. -/
structure Obeys (req : HTTP1Request) (fields : List HeaderField) : Prop where
  pseudo : validRequestPseudoHeaders fields = true
  permitted : ∀ f ∈ fields, prohibited f.name f.val false = false
  /-- Every field that is not dropped is there once for each value. -/
  once : ∀ n v, n.head? ≠ some 0x3a → n ∉ connectionSpecificFields →
    (fields.map fun f => (f.name, f.val)).count (n, v) =
      (req.header.flatMap fun e => e.2.map fun v => (lowerASCII e.1, v)).count (n, v)

/-- What the upgrade does not look at: the authority, the form of the values and the value of `TE`. -/
structure Clean (req : HTTP1Request) : Prop where
  host_form : hasProhibitedFieldChar req.host = false
  host_user : 0x40 ∉ req.host
  values_form : ∀ e ∈ req.header, lowerASCII e.1 ∉ connectionSpecificFields →
    ∀ v ∈ e.2, hasProhibitedFieldChar v = false
  te : ∀ e ∈ req.header, lowerASCII e.1 = ascii "te" → ∀ v ∈ e.2,
    equalFold v (ascii "trailers") = true

section Accepted

variable {lib} {req : HTTP1Request} {fields : List HeaderField}

theorem accepted (h : handleHTTP1Upgrade lib (some req) = .ok fields) :
    fields = upgradeRequestFields lib req ∧ ∀ e ∈ req.header, validFieldName e.1 = true := by
  simp only [handleHTTP1Upgrade] at h
  split at h
  · cases h
  rename_i hnames
  refine ⟨?_, by simpa using hnames⟩
  clear hnames
  grind

theorem toLower_token {name : Bytes} (h : validFieldName name = true) :
    lib.toLower name = lowerASCII name := by
  have hascii : ∀ c, tokenChar c = true → c < 0x80 := forall_octet (by decide +kernel)
  simp only [validFieldName, Bool.and_eq_true, List.all_eq_true] at h
  exact lib.toLower_ascii fun c hc => hascii c (h.2 c hc)

theorem lowerASCII_token {name : Bytes} (h : validFieldName name = true) :
    lowerASCII name ≠ [] ∧ 0x3a ∉ lowerASCII name ∧
      ∀ c ∈ lowerASCII name, 0x20 < c ∧ c < 0x7f ∧ ¬(0x41 ≤ c ∧ c ≤ 0x5a) := by
  have hlower : ∀ c, tokenChar c = true → let d := if 0x41 ≤ c && c ≤ 0x5a then c + 0x20 else c
      d ≠ 0x3a ∧ 0x20 < d ∧ d < 0x7f ∧ ¬(0x41 ≤ d ∧ d ≤ 0x5a) := forall_octet (by decide +kernel)
  simp only [validFieldName, Bool.and_eq_true, List.all_eq_true, decide_eq_true_eq] at h
  refine ⟨by simpa [lowerASCII] using h.1, fun hmem => ?_, fun c hmem => ?_⟩
  · obtain ⟨c, hc, hd⟩ := List.mem_map.1 hmem
    exact (hlower c (h.2 c hc)).1 hd
  · obtain ⟨d, hd, rfl⟩ := List.mem_map.1 hmem
    exact (hlower d (h.2 d hd)).2

variable (hnames : ∀ e ∈ req.header, validFieldName e.1 = true)

include hnames

theorem mem_regular {f : HeaderField} :
    f ∈ (lib.range req.header).flatMap (regularFields lib) ↔
      ∃ e ∈ req.header, lowerASCII e.1 ∉ connectionSpecificFields ∧
        ∃ v ∈ e.2, f = { name := lowerASCII e.1, value := some v } := by
  simp only [List.mem_flatMap, (lib.range_perm _).mem_iff]
  refine exists_congr fun e => and_congr_right fun he => ?_
  rw [regularFields, toLower_token (hnames e he)]
  split
  · rename_i hs
    simp [hs]
  · rename_i hs
    rw [List.mem_map, and_iff_right hs]
    simp only [eq_comm]

theorem regular_names {f : HeaderField} (hf : f ∈ (lib.range req.header).flatMap (regularFields lib)) :
    f.name ≠ [] ∧ pseudo f = false := by
  obtain ⟨e, he, -, v, -, rfl⟩ := (mem_regular hnames).1 hf
  obtain ⟨hne, hcolon, -⟩ := lowerASCII_token (hnames e he)
  refine ⟨hne, beq_false_of_ne fun h => hcolon ?_⟩
  exact List.mem_of_head? h

theorem pseudo_iff : validRequestPseudoHeaders (upgradeRequestFields lib req) = true ↔
    0x40 ∉ req.host := by
  have hscan : scanRequestPseudoHeaders {} false (upgradeRequestFields lib req) = some
      { method := some req.method, scheme := some (ascii "http"), path := some req.requestURI,
        authority := some req.host, seenPath := true } := by
    have hregular : ∀ ph, scanRequestPseudoHeaders ph false
        ((lib.range req.header).flatMap (regularFields lib)) = some ph := by
      intro ph
      refine scan_iff.2 ⟨?_, (scanned_regular fun f hf => (regular_names hnames hf).2).2 rfl⟩
      exact ⟨[], _, rfl, by simp, fun f hf => regular_names hnames hf⟩
    rw [upgradeRequestFields, pseudoFields]
    simp only [List.cons_append, List.nil_append]
    have hscheme : ascii ":scheme" ≠ ascii ":method" := by decide
    have hauthority : ascii ":authority" ≠ ascii ":method" ∧ ascii ":authority" ≠ ascii ":scheme" ∧
        ascii ":authority" ≠ ascii ":path" := by decide
    have hpath : ascii ":path" ≠ ascii ":method" ∧ ascii ":path" ≠ ascii ":scheme" := by decide
    rw [scan_cons_pseudo rfl, if_pos rfl, if_neg (by simp)]
    rw [scan_cons_pseudo rfl, if_neg hscheme, if_pos rfl, if_neg (by simp)]
    rw [scan_cons_pseudo rfl, if_neg hauthority.1, if_neg hauthority.2.1, if_neg hauthority.2.2,
      if_pos rfl, if_neg (by simp)]
    rw [scan_cons_pseudo rfl, if_neg hpath.1, if_neg hpath.2, if_pos rfl, if_neg (by simp), hregular]
  rw [valid_iff, hscan]
  constructor
  · rintro ⟨ph, hph, hform⟩
    cases hph
    exact hform.userinfo (by decide : httpScheme (ascii "http") = true)
  · intro hhost
    exact ⟨_, rfl, rfl, fun _ => hhost, fun _ => ⟨rfl, rfl, fun _ => req.uri_ne⟩⟩

theorem permitted_iff : (∀ f ∈ upgradeRequestFields lib req, prohibited f.name f.val false = false) ↔
    hasProhibitedFieldChar req.host = false ∧
    ∀ e ∈ req.header, lowerASCII e.1 ∉ connectionSpecificFields → ∀ v ∈ e.2,
      hasProhibitedFieldChar v = false ∧
        (lowerASCII e.1 = ascii "te" → equalFold v (ascii "trailers") = true) := by
  rw [upgradeRequestFields, List.forall_mem_append]
  refine and_congr ?_ ?_
  · have hplain {name value : Bytes} (hname : hasProhibitedFieldName name = false)
        (hte : name ≠ ascii "te") (hspecific : isConnectionSpecificName name = false) :
        prohibited name value false = false ↔ hasProhibitedFieldChar value = false := by
      simp [prohibited, hname, hte, hspecific]
    have hscheme : hasProhibitedFieldChar (ascii "http") = false := by decide
    simp only [pseudoFields, List.forall_mem_cons, List.not_mem_nil, HeaderField.val, Option.getD_some]
    rw [hplain (by decide) (by decide) (by decide), hplain (by decide) (by decide) (by decide),
      hplain (by decide) (by decide) (by decide), hplain (by decide) (by decide) (by decide)]
    simp [req.method_form, req.uri_form, hscheme]
  · constructor
    · intro h e he hs v hv
      have hf := (prohibited_eq_false.1 (h _ ((mem_regular hnames).2 ⟨e, he, hs, v, hv, rfl⟩))).1
      exact ⟨hasProhibitedFieldChar_eq_false.2 ⟨hf.breaks, hf.spaces⟩, hf.te⟩
    · intro h f hf
      obtain ⟨e, he, hs, v, hv, rfl⟩ := (mem_regular hnames).1 hf
      obtain ⟨hne, hcolon, hoctets⟩ := lowerASCII_token (hnames e he)
      obtain ⟨hvalue, hte⟩ := h e he hs v hv
      obtain ⟨hbreaks, hspaces⟩ := hasProhibitedFieldChar_eq_false.1 hvalue
      refine prohibited_eq_false.2 ⟨⟨hne, hoctets, fun hmem => hcolon (List.mem_of_mem_tail hmem),
        hbreaks, hspaces, fun hmem => hs ?_, hte⟩, by simp⟩
      have hsub : [ascii "upgrade", ascii "connection", ascii "keep-alive", ascii "proxy-connection",
          ascii "transfer-encoding"] ⊆ connectionSpecificFields := by decide
      exact hsub hmem

theorem carried_once (n v : Bytes) (hn : n.head? ≠ some 0x3a) (hspecific : n ∉ connectionSpecificFields) :
    ((upgradeRequestFields lib req).map fun f => (f.name, f.val)).count (n, v) =
      (req.header.flatMap fun e => e.2.map fun v => (lowerASCII e.1, v)).count (n, v) := by
  have hpseudo : ((pseudoFields req).map fun f => (f.name, f.val)).count (n, v) = 0 := by
    refine List.count_eq_zero.2 fun hmem => ?_
    obtain ⟨f, hf, hnv⟩ := List.mem_map.1 hmem
    cases hnv
    have hcolon : ∀ f ∈ pseudoFields req, f.name.head? = some 0x3a := by
      simp +decide [pseudoFields]
    exact hn (hcolon f hf)
  have hentry : ∀ e ∈ req.header, ((regularFields lib e).map fun f => (f.name, f.val)).count (n, v) =
      (e.2.map fun v => (lowerASCII e.1, v)).count (n, v) := by
    intro e he
    rw [regularFields, toLower_token (hnames e he)]
    split
    · rename_i hs
      refine (List.count_eq_zero.2 fun hmem => ?_).symm
      obtain ⟨w, -, hnv⟩ := List.mem_map.1 hmem
      cases hnv
      exact hspecific hs
    · rw [List.map_map]
      rfl
  rw [upgradeRequestFields, List.map_append, List.count_append, hpseudo, Nat.zero_add, List.map_flatMap,
    ((lib.range_perm req.header).flatMap_right _).count_eq, List.count_flatMap, List.count_flatMap]
  exact congrArg List.sum (List.map_congr_left hentry)

end Accepted

/-- The request that an upgrade carries over obeys the rules for a HEADERS frame exactly if its
authority has no user information, its values have no prohibited octet, and `TE` says `trailers`. -/
theorem upgraded_request_iff (req : HTTP1Request) (fields : List HeaderField)
    (h : handleHTTP1Upgrade lib (some req) = .ok fields) : Obeys req fields ↔ Clean req := by
  obtain ⟨rfl, hnames⟩ := accepted h
  have hte : ascii "te" ∉ connectionSpecificFields := by decide
  constructor
  · intro ho
    obtain ⟨hhost, hvalues⟩ := (permitted_iff hnames).1 ho.permitted
    refine ⟨hhost, (pseudo_iff hnames).1 ho.pseudo, fun e he hs v hv => (hvalues e he hs v hv).1, ?_⟩
    intro e he hname v hv
    exact (hvalues e he (hname ▸ hte) v hv).2 hname
  · intro hc
    refine ⟨(pseudo_iff hnames).2 hc.host_user, (permitted_iff hnames).2 ⟨hc.host_form, ?_⟩,
      carried_once hnames⟩
    intro e he hs v hv
    exact ⟨hc.values_form e he hs v hv, fun hname => hc.te e he hname v hv⟩

def plainUpgradeLib : UpgradeLib where
  toLib := plainLib
  trimSpace := id
  decodeString _ := some []

def upgradeRequest (host : String) (name value : String) : HTTP1Request where
  method := ascii "GET"
  protoMajor := 1
  protoMinor := 1
  host := ascii host
  requestURI := ascii "/"
  header := [(ascii "Upgrade", [ascii "h2c"]), (ascii "Connection", [ascii "Upgrade,HTTP2-Settings"]),
    (ascii "Http2-Settings", [[]]), (ascii name, [ascii value])]
  contentLength := 0
  transferEncoding := []
  method_form := by decide
  uri_ne := by decide
  uri_form := by decide

theorem upgraded_request_of_trailers :
    Obeys (upgradeRequest "a" "Te" "trailers")
      (upgradeRequestFields plainUpgradeLib (upgradeRequest "a" "Te" "trailers")) := by
  refine (upgraded_request_iff plainUpgradeLib _ _ (by decide)).2 ⟨by decide, by decide, ?_, ?_⟩
  · decide
  · decide

/-- The upgrade carries a `TE` with a transfer coding over, and an authority with user information. -/
theorem upgrade_carries_te :
    (handleHTTP1Upgrade plainUpgradeLib (some (upgradeRequest "a" "Te" "gzip"))).toOption.map
      (·.any fun f => prohibited f.name f.val false) = some true ∧
    (handleHTTP1Upgrade plainUpgradeLib (some (upgradeRequest "u@a" "X" "y"))).toOption.map
      validRequestPseudoHeaders = some false := by
  decide

end PoseidonServer.Server.Upgrade
