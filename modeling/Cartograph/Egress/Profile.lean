/-
Who a bounded call goes to (`ProviderProfile::validate`).

A profile names a protocol, a provider, a model and an endpoint.  The endpoint must be an address
without credentials, query or fragment; a local provider is only spoken to over plain HTTP on the
loopback interface, and so is a cloud provider that does not use TLS.

Addresses are taken apart by another library: `Url` is what it tells of one.  `ipAddr` is the
reading of a host as an IP address.
-/
import Cartograph.Sources.Origin
import Cartograph.Specialist.Loop

namespace Egress

open Checked Specialist
open Sources (isControl)

/-! ### Addresses -/

/-- The components of a parsed address. -/
structure Url where
  scheme : String
  username : String
  password : Option String
  host : Option String
  query : Option String
  fragment : Option String

/-- An address as its groups of bytes or of 16-bit words. -/
inductive IpAddr
  | v4 (octets : List ℕ)
  | v6 (groups : List ℕ)
  deriving DecidableEq

/-- `is_loopback`: `127.0.0.0/8`, and `::1`. -/
def IpAddr.isLoopback : IpAddr → Bool
  | .v4 octets => octets.head? == some 127
  | .v6 groups => groups == [0, 0, 0, 0, 0, 0, 0, 1]

/-- `char::to_digit`. -/
def toDigit (radix : ℕ) (c : Char) : Option ℕ :=
  let value :=
    if c.isDigit then some (c.toNat - 48)
    else if 'a'.toNat ≤ c.toNat ∧ c.toNat ≤ 'f'.toNat then some (c.toNat - 87)
    else if 'A'.toNat ≤ c.toNat ∧ c.toNat ≤ 'F'.toNat then some (c.toNat - 55)
    else none
  value.filter (· < radix)

/-- A number of at most `maxDigits` digits, and what follows it. -/
def readNumber (radix maxDigits bound : ℕ) (zeroPrefix : Bool) (text : List Char) :
    Option (ℕ × List Char) :=
  let digits := text.takeWhile fun c => (toDigit radix c).isSome
  let value := digits.foldl (fun n c => n * radix + (toDigit radix c).getD 0) 0
  if digits = [] ∨ digits.length > maxDigits ∨ value > bound
      ∨ (zeroPrefix = false ∧ digits.head? = some '0' ∧ digits.length > 1) then none
  else some (value, text.drop digits.length)

/-- `read_separator`: every item but the first stands after `separator`. -/
def readSeparator {α : Type} (separator : Char) (index : ℕ)
    (item : List Char → Option (α × List Char)) (text : List Char) : Option (α × List Char) :=
  if index = 0 then item text
  else match text with
    | c :: rest => if c = separator then item rest else none
    | [] => none

/-- `read_ipv4_addr`. -/
def readIpv4 (text : List Char) : Option (List ℕ × List Char) := do
  let octet (index : ℕ) := readSeparator '.' index (readNumber 10 3 255 false)
  let (a, text) ← octet 0 text
  let (b, text) ← octet 1 text
  let (c, text) ← octet 2 text
  let (d, text) ← octet 3 text
  pure ([a, b, c, d], text)

/-- `read_groups`: the groups from `index` on, with `room` of them left, whether an IPv4 address
ended them, and what follows. -/
def readGroups (index : ℕ) : ℕ → List Char → List ℕ × Bool × List Char
  | 0, text => ([], false, text)
  | room + 1, text =>
    let embedded := if 0 < room then readSeparator ':' index readIpv4 text else none
    match embedded with
    | some (octets, rest) =>
      ([octets.getD 0 0 * 256 + octets.getD 1 0, octets.getD 2 0 * 256 + octets.getD 3 0],
        true, rest)
    | none =>
      match readSeparator ':' index (readNumber 16 4 0xffff true) text with
      | none => ([], false, text)
      | some (group, rest) =>
        let (groups, ipv4, rest) := readGroups (index + 1) room rest
        (group :: groups, ipv4, rest)

/-- `read_ipv6_addr`. -/
def readIpv6 (text : List Char) : Option (List ℕ × List Char) :=
  let (head, ipv4, rest) := readGroups 0 8 text
  if head.length = 8 then some (head, rest)
  else if ipv4 then none
  else match rest with
    | ':' :: ':' :: rest =>
      let (tail, _, rest) := readGroups 0 (8 - (head.length + 1)) rest
      some (head ++ List.replicate (8 - head.length - tail.length) 0 ++ tail, rest)
    | _ => none

/-- `parse::<IpAddr>`: the whole text is the address. -/
def ipAddr (text : List Char) : Option IpAddr :=
  match readIpv4 text with
  | some (octets, rest) => if rest = [] then some (.v4 octets) else none
  | none =>
    match readIpv6 text with
    | some (groups, rest) => if rest = [] then some (.v6 groups) else none
    | none => none

example : ipAddr "127.0.0.1".toList = some (.v4 [127, 0, 0, 1])
    ∧ ipAddr "::1".toList = some (.v6 [0, 0, 0, 0, 0, 0, 0, 1])
    ∧ ipAddr "127.0.0.01".toList = none := by decide

def trimBrackets (host : List Char) : List Char :=
  ((host.dropWhile (· == '[')).reverse.dropWhile (· == ']')).reverse

def loopback (url : Url) : Bool :=
  match url.host with
  | none => false
  | some host =>
    host.toList.map Char.toLower == "localhost".toList
      || (ipAddr (trimBrackets host.toList)).any IpAddr.isLoopback

/-! ### Profiles -/

def PROTOCOL_VERSION : String := "bounded-json-completion@2"

def identifier (value : String) (max : ℕ) : Bool :=
  !value.isEmpty && decide (value.utf8ByteSize ≤ max) && !value.toList.any isControl

/-- What the firewall does not compute itself: the word characters of the redaction, the hash of
a consent, and the reading of an address. -/
structure Env where
  words : Redaction.Words
  hash : String → String
  parseUrl : String → Option Url

abbrev Bounded := Except BoundedCallError

def validateProfile (env : Env) (profile : ProviderProfile) : Bounded Unit := do
  ensure (profile.protocolVersion = PROTOCOL_VERSION ∧ identifier profile.providerId 1024 = true
    ∧ identifier profile.requestedModel 256 = true ∧ profile.endpointId.utf8ByteSize ≤ 4096)
    (notSent .invalidProfile)
  let url ← orFail (env.parseUrl profile.endpointId) (notSent .invalidProfile)
  ensure (url.username.isEmpty = true ∧ url.password = none ∧ url.query = none
    ∧ url.fragment = none ∧ (url.scheme = "http" ∨ url.scheme = "https")
    ∧ ¬(profile.locality = .onDevice ∧ (url.scheme ≠ "http" ∨ loopback url = false))
    -- the only HTTP endpoint of a cloud provider is the offline fixture
    ∧ ¬(profile.locality = .cloud ∧ url.scheme = "http" ∧ loopback url = false))
    (notSent .invalidProfile)

end Egress
