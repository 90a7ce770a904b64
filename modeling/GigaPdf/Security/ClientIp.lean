import GigaPdf.Lib.Text
import Mathlib.Algebra.Group.Nat.Defs

/-!
# The address of a client

`_resolve_client_ip` of the rate limiter, with what it uses of Python's `ipaddress`. The header
`X-Forwarded-For` grows to the right: each proxy appends the address that it has seen, and what a
client sends itself stands in front.
-/

namespace GigaPdf.ClientIp

open Text (strip)

/-! ## Addresses -/

inductive IpVersion
  | v4 | v6
deriving DecidableEq

def IpVersion.maxPrefixlen : IpVersion → Nat
  | .v4 => 32
  | .v6 => 128

structure IpAddress where
  version : IpVersion
  ip : Nat
deriving DecidableEq

def decimalDigits (text : List Char) : Nat :=
  text.foldl (fun n c => 10 * n + (c.toNat - '0'.toNat)) 0

/-- `_parse_octet` -/
def parseOctet (octet : List Char) : Option Nat :=
  if octet = [] ∨ octet.any (fun c => !c.isDigit) ∨ 3 < octet.length ∨
      (octet ≠ ['0'] ∧ octet.head? = some '0') ∨ 255 < decimalDigits octet then none
  else some (decimalDigits octet)

/-- `IPv4Address` -/
def parseIpv4 (text : List Char) : Option Nat :=
  let octets := text.splitOn '.'
  if octets.length ≠ 4 then none
  else (octets.mapM parseOctet).map fun bytes => bytes.foldl (fun n byte => 256 * n + byte) 0

def hexValue (c : Char) : Option Nat :=
  if c.isDigit then some (c.toNat - '0'.toNat)
  else if 'a' ≤ c ∧ c ≤ 'f' then some (c.toNat - 'a'.toNat + 10)
  else if 'A' ≤ c ∧ c ≤ 'F' then some (c.toNat - 'A'.toNat + 10)
  else none

/-- `_parse_hextet` -/
def parseHextet (hextet : List Char) : Option Nat :=
  if hextet = [] ∨ 4 < hextet.length then none
  else (hextet.mapM hexValue).map fun digits => digits.foldl (fun n digit => 16 * n + digit) 0

/-- An IPv4 address at the end is two hextets. -/
def expandSuffix (parts : List (List Char)) : Option (List (List Char)) :=
  let suffix := parts.getLastD []
  if '.' ∈ suffix then
    (parseIpv4 suffix).map fun ip =>
      parts.dropLast ++ [Nat.toDigits 16 (ip / 65536 % 65536), Nat.toDigits 16 (ip % 65536)]
  else some parts

/-- How many parts are before a `::` and how many behind it; those at the ends may be empty. -/
def aroundSkip (parts : List (List Char)) (skipIndex : Nat) : Option (Nat × Nat) :=
  let first := parts.headD []
  let last := parts.getLastD []
  let high := if first = [] then skipIndex - 1 else skipIndex
  let rest := parts.length - skipIndex - 1
  let low := if last = [] then rest - 1 else rest
  if (first = [] ∧ high ≠ 0) ∨ (last = [] ∧ low ≠ 0) ∨ 8 < high + low + 1 then none
  else some (high, low)

/-- `_ip_int_from_string` of IPv6 -/
def ipv6FromString (text : List Char) : Option Nat :=
  let split := text.splitOn ':'
  if split.length < 3 then none
  else
    (expandSuffix split).bind fun parts =>
      if 9 < parts.length then none
      else
        let skips := (List.range parts.length).filter fun i =>
          1 ≤ i ∧ i + 1 < parts.length ∧ parts.getD i [] = []
        let hextets : Option (List Nat) :=
          match skips with
          | [] =>
            if parts.length ≠ 8 ∨ parts.headD [] = [] ∨ parts.getLastD [] = [] then none
            else parts.mapM parseHextet
          | [skipIndex] =>
            (aroundSkip parts skipIndex).bind fun (high, low) =>
              ((parts.take high).mapM parseHextet).bind fun front =>
                ((parts.drop (parts.length - low)).mapM parseHextet).map fun back =>
                  front ++ List.replicate (8 - (high + low)) 0 ++ back
          | _ => none
        hextets.map fun hextets => hextets.foldl (fun n hextet => 65536 * n + hextet) 0

/-- `IPv6Address`; a scope may follow the address. -/
def parseIpv6 (text : List Char) : Option Nat :=
  if '/' ∈ text then none
  else
    match text.splitOn '%' with
    | [address] => ipv6FromString address
    | [address, scope] => if scope = [] then none else ipv6FromString address
    | _ => none

/-- `ip_address` -/
def ipAddress (text : List Char) : Option IpAddress :=
  match parseIpv4 text with
  | some ip => some ⟨.v4, ip⟩
  | none => (parseIpv6 text).map fun ip => ⟨.v6, ip⟩

example : ipAddress "2001:db8::192.0.2.33".toList =
    some ⟨.v6, 0x20010db80000000000000000c0000221⟩ := by decide

/-! ## Networks -/

/-- The bits of a network's addresses that are the same. -/
def netmask (version : IpVersion) (prefixLength : Nat) : Nat :=
  let allOnes := 2 ^ version.maxPrefixlen - 1
  allOnes ^^^ (allOnes >>> prefixLength)

structure IpNetwork where
  version : IpVersion
  prefixLength : Nat
  networkAddress : Nat
  fits : prefixLength ≤ version.maxPrefixlen
  masked : networkAddress &&& netmask version prefixLength = networkAddress

def IpNetwork.contains (network : IpNetwork) (address : IpAddress) : Bool :=
  network.version = address.version &&
    address.ip &&& netmask network.version network.prefixLength = network.networkAddress

/-! ## Requests -/

/-- `client` is the host of the connection. -/
structure Request where
  client : Option (List Char)
  forwardedFor : Option (List Char)

namespace Request

variable (request : Request)

def peerIp : List Char := request.client.getD []

def forwarded : List Char := request.forwardedFor.getD []

end Request

def orUnknown (ip : List Char) : List Char := if ip = [] then "unknown".toList else ip

section
variable (networks : List IpNetwork)

def isTrustedProxy (ip : List Char) : Bool :=
  match networks with
  | [] => false
  | _ =>
    match ipAddress ip with
    | none => false
    | some address => networks.any fun network => network.contains address

def resolveClientIp (request : Request) : List Char :=
  if !isTrustedProxy networks request.peerIp then orUnknown request.peerIp
  else
    let entries := request.forwarded.splitOn ','
    let ips := entries.map strip
    match ips.reverse.find? fun ip => !ip.isEmpty && !isTrustedProxy networks ip with
    | some ip => ip
    | none =>
      let leftmost := strip (entries.headD [])
      if leftmost ≠ [] then leftmost else orUnknown request.peerIp

/-- An empty user id is none. -/
def getRateLimitKey (request : Request) (userId : Option (List Char)) : List Char :=
  match userId.filter (· ≠ []) with
  | some user => "user:".toList ++ user
  | none => "ip:".toList ++ resolveClientIp networks request

/-! ## Chains -/

/-- The text from an address to the end of the header: behind the address there are only trusted
proxies and blanks. -/
def Chain (c text : List Char) : Prop :=
  ∃ entry hops, text.splitOn ',' = entry :: hops ∧ strip entry = c ∧ c ≠ [] ∧
    isTrustedProxy networks c = false ∧
    ∀ hop ∈ hops, strip hop = [] ∨ isTrustedProxy networks (strip hop) = true

/-- The header is such a text, with anything in front of it. -/
def Forwarded (c header : List Char) : Prop :=
  ∃ text, Chain networks c text ∧ (header = text ∨ ∃ front, header = front ++ ',' :: text)

/-- The request comes from the client itself, or through trusted proxies. -/
def Request.From (c : List Char) (request : Request) : Prop :=
  if isTrustedProxy networks request.peerIp then Forwarded networks c request.forwarded
  else orUnknown request.peerIp = c

variable {networks} {c header : List Char} {request : Request}

/-- What is in front of the chain is more entries on the left. -/
theorem Forwarded.entries (forwarded : Forwarded networks c header) :
    ∃ front entry hops, header.splitOn ',' = front ++ entry :: hops ∧ strip entry = c ∧ c ≠ [] ∧
      isTrustedProxy networks c = false ∧
      ∀ hop ∈ hops, strip hop = [] ∨ isTrustedProxy networks (strip hop) = true := by
  obtain ⟨text, ⟨entry, hops, split, chain⟩, rfl | ⟨front, rfl⟩⟩ := forwarded
  · exact ⟨[], entry, hops, split, chain⟩
  · have longer : (front ++ ',' :: text).splitOn ',' = front.splitOn ',' ++ entry :: hops := by
      rw [List.splitOn_append_cons_self, split]
    exact ⟨front.splitOn ',', entry, hops, longer, chain⟩

theorem resolveClientIp_of_untrusted (untrusted : isTrustedProxy networks request.peerIp = false) :
    resolveClientIp networks request = orUnknown request.peerIp := by
  rw [resolveClientIp, untrusted]
  rfl

/-- From the right the hops are passed over, and the client's entry is the first to stop at. -/
theorem resolveClientIp_of_forwarded (trusted : isTrustedProxy networks request.peerIp = true)
    (forwarded : Forwarded networks c request.forwarded) :
    resolveClientIp networks request = c := by
  obtain ⟨front, entry, hops, split, rfl, named, untrusted, passed⟩ := forwarded.entries
  let stops := fun ip : List Char => !ip.isEmpty && !isTrustedProxy networks ip
  have hopsFail : (hops.map strip).reverse.find? stops = none := by
    rw [List.find?_eq_none]
    intro ip mem
    obtain ⟨hop, hopMem, rfl⟩ := List.mem_map.mp (List.mem_reverse.mp mem)
    rcases passed hop hopMem with blank | proxy
    · simp [stops, blank]
    · simp [stops, proxy]
  have entryStops : stops (strip entry) = true := by
    simp [stops, named, untrusted]
  have found : ((front ++ entry :: hops).map strip).reverse.find? stops = some (strip entry) := by
    rw [List.map_append, List.map_cons, List.reverse_append, List.reverse_cons, List.find?_append,
      List.find?_append, hopsFail]
    simp [entryStops]
  simp only [resolveClientIp, trusted, Bool.not_true, Bool.false_eq_true, ↓reduceIte, split]
  rw [found]

theorem resolveClientIp_of_from (sent : request.From networks c) :
    resolveClientIp networks request = c := by
  unfold Request.From at sent
  split at sent
  next trusted => exact resolveClientIp_of_forwarded trusted sent
  next untrusted =>
    rw [resolveClientIp_of_untrusted (Bool.not_eq_true _ ▸ untrusted)]
    exact sent

end

/-- A client has no part in its address: a peer that is not trusted is itself, and behind a trusted
one the header counts from the right, whatever is in front. -/
theorem clientIp_unspoofable (networks : List IpNetwork) (c : List Char) (request : Request) :
    (isTrustedProxy networks request.peerIp = false →
      resolveClientIp networks request = orUnknown request.peerIp) ∧
    (isTrustedProxy networks request.peerIp = true → Forwarded networks c request.forwarded →
      resolveClientIp networks request = c) ∧
    (request.From networks c → ∀ request' : Request, request'.From networks c →
      ∀ userId, getRateLimitKey networks request userId =
        getRateLimitKey networks request' userId) := by
  refine ⟨resolveClientIp_of_untrusted, resolveClientIp_of_forwarded, ?_⟩
  intro sent request' sent' userId
  have same : resolveClientIp networks request = resolveClientIp networks request' := by
    rw [resolveClientIp_of_from sent, resolveClientIp_of_from sent']
  rw [getRateLimitKey, getRateLimitKey, same]

/-! A proxy's network, and two requests of one client through it, the second with addresses that
the client has put in front. -/

def proxies : List IpNetwork := [⟨.v4, 8, 10 * 2 ^ 24, by decide, by decide⟩]

def plain : Request := ⟨some "10.0.0.1".toList, some "203.0.113.9, 10.0.0.2".toList⟩

def spoofed : Request := ⟨some "10.0.0.7".toList, some "10.9.9.9,::1,203.0.113.9, ,10.0.0.2".toList⟩

theorem plain_from : plain.From proxies "203.0.113.9".toList := by
  rw [Request.From, if_pos (by decide)]
  have chain : Chain proxies "203.0.113.9".toList "203.0.113.9, 10.0.0.2".toList := by
    refine ⟨"203.0.113.9".toList, [" 10.0.0.2".toList], ?_⟩
    decide
  exact ⟨_, chain, .inl rfl⟩

theorem spoofed_from : spoofed.From proxies "203.0.113.9".toList := by
  rw [Request.From, if_pos (by decide)]
  have chain : Chain proxies "203.0.113.9".toList "203.0.113.9, ,10.0.0.2".toList := by
    refine ⟨"203.0.113.9".toList, [" ".toList, "10.0.0.2".toList], ?_⟩
    decide
  exact ⟨_, chain, .inr ⟨"10.9.9.9,::1".toList, by decide⟩⟩

theorem clientIp_unspoofable_spoofed :
    getRateLimitKey proxies plain none = getRateLimitKey proxies spoofed none :=
  (clientIp_unspoofable proxies "203.0.113.9".toList plain).2.2 plain_from spoofed spoofed_from none

end GigaPdf.ClientIp
