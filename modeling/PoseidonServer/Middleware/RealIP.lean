import PoseidonServer.Decimal

/-! The middleware `RealIP`, which finds out who the client is behind trusted proxies. -/

namespace PoseidonServer.Middleware

/-- Package `net` and `strings.TrimSpace`. The addresses are those that `ParseIP` returns. -/
structure NetLib where
  IP : Type
  IPNet : Type
  parseIP : Bytes → Option IP
  string : IP → Bytes
  is4 : IP → Bool
  /-- The network of an address and `CIDRMask(bits, bits)`. -/
  hostRoute : IP → Nat → IPNet
  parseCIDR : Bytes → Option IPNet
  contains : IPNet → IP → Bool
  splitHostPort : Bytes → Option Bytes
  trimSpace : Bytes → Bytes
  parseIP_nil : parseIP [] = none
  parseIP_string : ∀ ip, parseIP (string ip) = some ip
  string_ne_nil : ∀ ip, string ip ≠ []
  comma_notMem_string : ∀ ip, 0x2c ∉ string ip
  trimSpace_nil : trimSpace [] = []
  trimSpace_string : ∀ ip, trimSpace (string ip) = string ip
  trimSpace_trimSpace : ∀ v, trimSpace (trimSpace v) = trimSpace v

def hdrXForwardedFor : Bytes := ascii "x-forwarded-for"
def hdrXRealIP : Bytes := ascii "x-real-ip"

structure RealIPConfig where
  trustedProxies : List Bytes

section Defs

variable (lib : NetLib)

def parseCIDR (e : Bytes) : Option lib.IPNet :=
  let e := lib.trimSpace e
  if e = [] then none
  else if 0x2f ∉ e then
    (lib.parseIP e).map fun ip => lib.hostRoute ip (if lib.is4 ip then 32 else 128)
  else lib.parseCIDR e

def parseCIDRs (entries : List Bytes) : List lib.IPNet := entries.filterMap (parseCIDR lib)

def ipInAny (ip : Bytes) (nets : List lib.IPNet) : Bool :=
  match lib.parseIP ip with
  | none => false
  | some parsed => nets.any (lib.contains · parsed)

def hostOnly (addr : Bytes) : Bytes :=
  if addr = [] then []
  else match lib.splitHostPort addr with
    | some host => host
    | none =>
      let addr := if addr.head? = some 0x5b then addr.tail else addr
      if addr.getLast? = some 0x5d then addr.dropLast else addr

def normalizeIP (s : Bytes) : Bytes :=
  match lib.parseIP (lib.trimSpace s) with
  | none => []
  | some ip => lib.string ip

def forwardHeader (headers : List HeaderField) (want : Bytes) : Bytes :=
  match headers.find? (·.name = want) with
  | none => []
  | some h => h.val

def walkHops (trusted : List lib.IPNet) (leftmost : Bytes) : List Bytes → Bytes
  | [] => leftmost
  | part :: parts =>
    let ip := normalizeIP lib (lib.trimSpace part)
    if ip = [] then walkHops trusted leftmost parts
    else if !ipInAny lib ip trusted then ip
    else walkHops trusted ip parts

def clientFromXFF (xff : Bytes) (trusted : List lib.IPNet) : Bytes :=
  walkHops lib trusted [] (xff.splitOn 0x2c).reverse

def resolveClientIP (peer : Bytes) (headers : List HeaderField) (trusted : List lib.IPNet) :
    Bytes :=
  let peerIP := hostOnly lib peer
  if !ipInAny lib peerIP trusted then peerIP
  else
    let ip := clientFromXFF lib (forwardHeader headers hdrXForwardedFor) trusted
    if forwardHeader headers hdrXForwardedFor ≠ [] ∧ ip ≠ [] then ip
    else
      let ip := normalizeIP lib (forwardHeader headers hdrXRealIP)
      if forwardHeader headers hdrXRealIP ≠ [] ∧ ip ≠ [] then ip
      else peerIP

structure Context where
  peerAddr : Bytes := []
  clientIP : Option Bytes := none

def clientIP (ctx : Context) : Bytes := ctx.clientIP.getD []

def realIP (cfg : RealIPConfig) (ctx : Context) (headers : List HeaderField) : Context :=
  let trusted := parseCIDRs lib cfg.trustedProxies
  let clientIP := resolveClientIP lib ctx.peerAddr headers trusted
  if clientIP ≠ [] then { ctx with clientIP := some clientIP } else ctx

end Defs

variable {lib : NetLib} {trusted : List lib.IPNet} {headers pre post : List HeaderField} {v : Bytes}
  {ip : lib.IP} {cfg : RealIPConfig} {peer : Bytes}

theorem clientIP_realIP (lib : NetLib) (cfg : RealIPConfig) (peer : Bytes)
    (headers : List HeaderField) : clientIP (realIP lib cfg { peerAddr := peer } headers) =
      resolveClientIP lib peer headers (parseCIDRs lib cfg.trustedProxies) := by
  rw [realIP]
  split
  · rfl
  · rename_i h
    exact (not_not.1 h).symm

def forwardedFor (headers : List HeaderField) : List Bytes :=
  (headers.filter (·.name = hdrXForwardedFor)).flatMap fun h => h.val.splitOn 0x2c

def LastHop (lib : NetLib) (headers : List HeaderField) (ip : lib.IP) : Prop :=
  ∃ e, (forwardedFor headers).getLast? = some e ∧ lib.parseIP (lib.trimSpace e) = some ip

def Trusted (lib : NetLib) (trusted : List lib.IPNet) (ip : lib.IP) : Prop :=
  ∃ n ∈ trusted, lib.contains n ip = true

def Unforwarded (headers : List HeaderField) : Prop := ∀ h ∈ headers, h.name ≠ hdrXForwardedFor

theorem ipInAny_string (ip : lib.IP) :
    ipInAny lib (lib.string ip) trusted = true ↔ Trusted lib trusted ip := by
  rw [ipInAny, lib.parseIP_string, List.any_eq_true, Trusted]

theorem string_injective {ip ip' : lib.IP} (h : lib.string ip = lib.string ip') : ip = ip' := by
  have := lib.parseIP_string ip
  rw [h, lib.parseIP_string] at this
  exact (Option.some.inj this).symm

theorem walkHops_last {e leftmost : Bytes} {es : List Bytes}
    (h : lib.parseIP (lib.trimSpace e) = some ip) (hip : ¬Trusted lib trusted ip) :
    walkHops lib trusted leftmost (e :: es) = lib.string ip := by
  have hnorm : normalizeIP lib (lib.trimSpace e) = lib.string ip := by
    rw [normalizeIP, lib.trimSpace_trimSpace, h]
  rw [← ipInAny_string, Bool.not_eq_true] at hip
  simp only [walkHops, hnorm, lib.string_ne_nil, hip, if_false, Bool.not_false, if_true]

theorem forwardedFor_last {line : HeaderField} (hline : line.name = hdrXForwardedFor)
    (hpost : Unforwarded post) :
    (forwardedFor (pre ++ line :: post)).getLast? = (line.val.splitOn 0x2c).getLast? := by
  have hnil : post.filter (·.name = hdrXForwardedFor) = [] :=
    List.filter_eq_nil_iff.2 fun h hh => by simpa using hpost h hh
  rw [forwardedFor, List.filter_append, List.filter_cons_of_pos (by simpa using hline), hnil,
    List.flatMap_append, List.flatMap_singleton]
  exact List.getLast?_append_of_ne_nil _ (List.splitOnP_ne_nil _ _)

theorem forwardHeader_append (hpre : ¬Unforwarded pre) :
    forwardHeader (pre ++ headers) hdrXForwardedFor = forwardHeader pre hdrXForwardedFor := by
  obtain ⟨h, hh⟩ := not_forall.1 hpre
  obtain ⟨hmem, hname⟩ := Classical.not_imp.1 hh
  have hsome : (pre.find? (·.name = hdrXForwardedFor)).isSome :=
    List.find?_isSome.2 ⟨h, hmem, by simpa using hname⟩
  rw [forwardHeader, List.find?_append, Option.or_of_isSome hsome, forwardHeader]

theorem forwardHeader_first {line : HeaderField} (hline : line.name = hdrXForwardedFor)
    (hpre : Unforwarded pre) :
    forwardHeader (pre ++ line :: post) hdrXForwardedFor = line.val := by
  have hnone : pre.find? (·.name = hdrXForwardedFor) = none :=
    List.find?_eq_none.2 fun h hh => by simpa using hpre h hh
  rw [forwardHeader, List.find?_append, hnone, Option.none_or,
    List.find?_cons_of_pos (by simpa using hline)]

theorem forwardHeader_realIP {line : HeaderField} (hline : line.name = hdrXForwardedFor) :
    forwardHeader (pre ++ line :: post) hdrXRealIP = forwardHeader (pre ++ post) hdrXRealIP := by
  have hne : line.name ≠ hdrXRealIP := by
    rw [hline]
    decide
  rw [forwardHeader, List.find?_append, List.find?_cons_of_neg (by simpa using hne),
    ← List.find?_append, forwardHeader]

theorem resolveClientIP_untrusted (h : ipInAny lib (hostOnly lib peer) trusted = false) :
    resolveClientIP lib peer headers trusted = hostOnly lib peer := by
  simp only [resolveClientIP, h, Bool.not_false, if_true]

theorem resolveClientIP_last {line : HeaderField} (hline : line.name = hdrXForwardedFor)
    (hpeer : ipInAny lib (hostOnly lib peer) trusted = true) (hpre : Unforwarded pre)
    (hpost : Unforwarded post) (hlast : LastHop lib (pre ++ line :: post) ip)
    (hip : ¬Trusted lib trusted ip) :
    resolveClientIP lib peer (pre ++ line :: post) trusted = lib.string ip := by
  obtain ⟨e, he, hparse⟩ := hlast
  rw [forwardedFor_last hline hpost] at he
  obtain ⟨es, hes⟩ := List.getLast?_eq_some_iff.1 he
  have hwalk : clientFromXFF lib line.val trusted = lib.string ip := by
    rw [clientFromXFF, hes, List.reverse_concat]
    exact walkHops_last hparse hip
  have hval : line.val ≠ [] := by
    intro hnil
    rw [hnil, List.splitOn_nil, List.getLast?_singleton] at he
    cases he
    rw [lib.trimSpace_nil, lib.parseIP_nil] at hparse
    cases hparse
  simp only [resolveClientIP, hpeer, forwardHeader_first hline hpre, hwalk]
  rw [if_neg (by decide), if_pos ⟨hval, lib.string_ne_nil ip⟩]

theorem resolveClientIP_ignores (line line' : HeaderField) (hline : line.name = hdrXForwardedFor)
    (hline' : line'.name = hdrXForwardedFor) (hpre : ¬Unforwarded pre) :
    resolveClientIP lib peer (pre ++ line :: post) trusted =
      resolveClientIP lib peer (pre ++ line' :: post) trusted := by
  simp only [resolveClientIP, forwardHeader_append hpre, forwardHeader_realIP hline,
    forwardHeader_realIP hline']

theorem lastHop_string {line : HeaderField} (hline : line.name = hdrXForwardedFor)
    (hval : line.val = lib.string ip) (hpost : Unforwarded post) :
    LastHop lib (pre ++ line :: post) ip := by
  refine ⟨lib.string ip, ?_, ?_⟩
  · have hsplit : List.splitOn 0x2c ([0x2c].intercalate [lib.string ip]) = [lib.string ip] :=
      List.splitOn_intercalate _ (by simpa using lib.comma_notMem_string ip) (List.cons_ne_nil _ _)
    rw [List.intercalate_singleton] at hsplit
    rw [forwardedFor_last hline hpost, hval, hsplit]
    rfl
  · rw [lib.trimSpace_string, lib.parseIP_string]

/-- Whatever the proxy puts last, the handler learns it: a request with the fields `pre`, a line of
the proxy and the fields `post`. -/
def Attributes (lib : NetLib) (cfg : RealIPConfig) (peer : Bytes) (pre post : List HeaderField) :
    Prop :=
  ∀ line ip, line.name = hdrXForwardedFor → LastHop lib (pre ++ line :: post) ip →
    ¬Trusted lib (parseCIDRs lib cfg.trustedProxies) ip →
    clientIP (realIP lib cfg { peerAddr := peer } (pre ++ line :: post)) = lib.string ip

/-- The fields of a request do not matter to a peer that is not trusted. Behind a trusted one the
client is the one that the proxy has seen exactly if no line of `X-Forwarded-For` comes before the
line of the proxy. -/
theorem client_ip_noninterference (lib : NetLib) (cfg : RealIPConfig) (peer : Bytes) :
    (ipInAny lib (hostOnly lib peer) (parseCIDRs lib cfg.trustedProxies) = false →
      ∀ headers headers', clientIP (realIP lib cfg { peerAddr := peer } headers) =
        clientIP (realIP lib cfg { peerAddr := peer } headers')) ∧
    (ipInAny lib (hostOnly lib peer) (parseCIDRs lib cfg.trustedProxies) = true →
      ∀ pre post, Unforwarded post →
        (Unforwarded pre → Attributes lib cfg peer pre post) ∧
        ((∃ ip ip', ip ≠ ip' ∧ ¬Trusted lib (parseCIDRs lib cfg.trustedProxies) ip ∧
            ¬Trusted lib (parseCIDRs lib cfg.trustedProxies) ip') →
          Attributes lib cfg peer pre post → Unforwarded pre)) := by
  constructor
  · intro h headers headers'
    rw [clientIP_realIP, clientIP_realIP, resolveClientIP_untrusted h, resolveClientIP_untrusted h]
  · intro hpeer pre post hpost
    constructor
    · intro hpre line ip hline hlast hip
      rw [clientIP_realIP]
      exact resolveClientIP_last hline hpeer hpre hpost hlast hip
    · rintro ⟨ip, ip', hne, hip, hip'⟩ hattr
      by_contra hpre
      -- the handler would have to learn two addresses at once
      let line (ip : lib.IP) : HeaderField := ⟨hdrXForwardedFor, lib.string ip, .incremental⟩
      have h := hattr (line ip) ip rfl (lastHop_string rfl rfl hpost) hip
      have h' := hattr (line ip') ip' rfl (lastHop_string rfl rfl hpost) hip'
      rw [clientIP_realIP] at h h'
      rw [resolveClientIP_ignores (line ip) (line ip') rfl rfl hpre, h'] at h
      exact hne (string_injective h).symm

abbrev IPv4 : Type := UInt8 × UInt8 × UInt8 × UInt8

namespace IPv4

def octets (ip : IPv4) : List UInt8 := [ip.1, ip.2.1, ip.2.2.1, ip.2.2.2]

def string (ip : IPv4) : Bytes := [0x2e].intercalate (ip.octets.map fun a => Decimal.format a.toNat)

def parse (v : Bytes) : Option IPv4 :=
  match (v.splitOn 0x2e).map (Decimal.parseUint 8) with
  | [some a, some b, some c, some d] => some (.ofNat a, .ofNat b, .ofNat c, .ofNat d)
  | _ => none

def net (ip : IPv4) (bits : Nat) : Nat :=
  (ip.octets.foldl (fun n a => n * 256 + a.toNat) 0) / 2 ^ (32 - bits)

theorem notMem_format {c : UInt8} (h : Decimal.isDigit c = false) (n : Nat) :
    c ∉ Decimal.format n := by
  intro hc
  rw [List.all_eq_true.1 (Decimal.all_isDigit_format n) c hc] at h
  cases h

theorem parse_string (ip : IPv4) : parse ip.string = some ip := by
  have hparse (a : UInt8) : Decimal.parseUint 8 (Decimal.format a.toNat) = some a.toNat :=
    Decimal.parseUint_format (UInt8.toNat_lt a)
  have hdot : ∀ v ∈ ip.octets.map fun a => Decimal.format a.toNat, 0x2e ∉ v := by
    intro v hv
    obtain ⟨a, -, rfl⟩ := List.mem_map.1 hv
    exact notMem_format (by decide) _
  rw [parse, string, List.splitOn_intercalate _ hdot (by simp [octets]), List.map_map]
  simp [octets, hparse]

theorem comma_notMem_string (ip : IPv4) : 0x2c ∉ ip.string := by
  have hcomma (a : UInt8) : 0x2c ∉ Decimal.format a.toNat := notMem_format (by decide) _
  simp [string, octets, List.intercalate, hcomma]

theorem string_ne_nil (ip : IPv4) : ip.string ≠ [] := by
  simp [string, octets, List.intercalate, Decimal.format_ne_nil]

end IPv4

/-- `net` where there are no addresses but those of four octets, and no space to trim. -/
def ipv4Lib : NetLib where
  IP := IPv4
  IPNet := IPv4 × Nat
  parseIP := IPv4.parse
  string := IPv4.string
  is4 _ := true
  hostRoute ip bits := (ip, bits)
  parseCIDR v := match v.splitOn 0x2f with
    | [ip, bits] => do return (← IPv4.parse ip, ← (Decimal.parseUint 8 bits).filter (· ≤ 32))
    | _ => none
  contains n ip := ip.net n.2 == n.1.net n.2
  splitHostPort v := match v.splitOn 0x3a with
    | [host, _] => some host
    | _ => none
  trimSpace v := v
  parseIP_nil := rfl
  parseIP_string := IPv4.parse_string
  string_ne_nil := IPv4.string_ne_nil
  comma_notMem_string := IPv4.comma_notMem_string
  trimSpace_nil := rfl
  trimSpace_string _ := rfl
  trimSpace_trimSpace _ := rfl

def behindTen : RealIPConfig := ⟨[ascii "10.0.0.0/8"]⟩

def xForwardedFor (v : String) : HeaderField := ⟨hdrXForwardedFor, ascii v, .incremental⟩

def client : ipv4Lib.IP := ((203, 0, 113, 7) : IPv4)

theorem client_not_trusted :
    ¬Trusted ipv4Lib (parseCIDRs ipv4Lib behindTen.trustedProxies) client := by
  intro h
  have hin := (ipInAny_string client).2 h
  revert hin
  decide +kernel

theorem lastHop_client {headers : List HeaderField}
    (h : (forwardedFor headers).getLast? = some (ascii "203.0.113.7")) :
    LastHop ipv4Lib headers client :=
  ⟨_, h, IPv4.parse_string client⟩

theorem client_ip_noninterference_appended :
    clientIP (realIP ipv4Lib behindTen { peerAddr := ascii "10.0.0.1:54321" }
      [xForwardedFor "198.51.100.9,203.0.113.7"]) = ipv4Lib.string client :=
  ((client_ip_noninterference ipv4Lib behindTen (ascii "10.0.0.1:54321")).2 (by decide +kernel)
    [] [] (by simp [Unforwarded])).1 (by simp [Unforwarded])
    (xForwardedFor "198.51.100.9,203.0.113.7") client rfl (lastHop_client (by decide +kernel))
    client_not_trusted

/-- The line of the client hides the line that the proxy has added. -/
theorem client_line_is_believed :
    clientIP (realIP ipv4Lib behindTen { peerAddr := ascii "10.0.0.1:54321" }
      [xForwardedFor "198.51.100.9", xForwardedFor "203.0.113.7"]) = ascii "198.51.100.9" ∧
    LastHop ipv4Lib [xForwardedFor "198.51.100.9", xForwardedFor "203.0.113.7"] client ∧
    ¬Trusted ipv4Lib (parseCIDRs ipv4Lib behindTen.trustedProxies) client :=
  ⟨by decide +kernel, lastHop_client (by decide +kernel), client_not_trusted⟩

end PoseidonServer.Middleware
