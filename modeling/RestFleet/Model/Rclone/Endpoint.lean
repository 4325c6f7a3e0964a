import RestFleet.Model.Strings
import RestFleet.Shared.Utf8

/-! # WebDAV endpoints

`webDAVURL` of `backends.go`, with what it uses of `net/url` and `net/netip`. A path that was
unescaped is a string of bytes; each byte stands as the character with its number. -/

namespace RestFleet.Rclone

/-! ## Addresses -/

inductive Addr where
  | v4 (bits : BitVec 32)
  | v6 (bits : BitVec 128) (zone : Text)
  deriving DecidableEq

namespace Addr

def is6 : Addr → Bool
  | .v4 _ => false
  | .v6 _ _ => true

def zone : Addr → Text
  | .v4 _ => []
  | .v6 _ zone => zone

def unmap : Addr → Addr
  | .v4 bits => .v4 bits
  | .v6 bits zone =>
    if bits >>> 32 = 0xffff then .v4 (bits.setWidth 32) else .v6 bits zone

def isGlobalUnicast : Addr → Bool
  | .v4 b => b ≠ 0 && b ≠ 0xffffffff && b >>> 24 ≠ 127 && b >>> 28 ≠ 14 && b >>> 16 ≠ 0xa9fe
  | .v6 b _ => b ≠ 0 && b ≠ 1 && b >>> 120 ≠ 0xff && b >>> 118 ≠ 0x3fa

def isPrivate : Addr → Bool
  | .v4 b => b >>> 24 = 10 || b >>> 20 = 0xac1 || b >>> 16 = 0xc0a8
  | .v6 b _ => b >>> 121 = 0x7e

def nonPublicPrefixes4 : List (BitVec 32 × ℕ) := [
  (0x00000000, 8), (0x0a000000, 8), (0x64400000, 10), (0x7f000000, 8), (0xa9fe0000, 16),
  (0xac100000, 12), (0xc0000000, 24), (0xc0000200, 24), (0xc0586300, 24), (0xc0a80000, 16),
  (0xc6120000, 15), (0xc6336400, 24), (0xcb007100, 24), (0xe0000000, 4), (0xf0000000, 4),
  (0xa83f8110, 32)]

def nonPublicPrefixes6 : List (BitVec 128 × ℕ) := [
  (0x20010000000000000000000000000000, 23), (0x20010db8000000000000000000000000, 32),
  (0x20020000000000000000000000000000, 16), (0x3fff0000000000000000000000000000, 20)]

/-- `Prefix.Contains`, for any of the prefixes. -/
def inPrefixes : Addr → Bool
  | .v4 b => nonPublicPrefixes4.any fun p => b >>> (32 - p.2) = p.1 >>> (32 - p.2)
  | .v6 b _ => nonPublicPrefixes6.any fun p => b >>> (128 - p.2) = p.1 >>> (128 - p.2)

/-- Inside `ipv6Global`, for an IPv6 address. -/
def inGlobal : Addr → Bool
  | .v4 _ => true
  | .v6 b _ => b >>> 125 = 1

end Addr

def publicIP (ip : Addr) : Bool :=
  ip.zone = [] && ip.unmap.isGlobalUnicast && !ip.unmap.isPrivate && ip.unmap.inGlobal &&
    !ip.unmap.inPrefixes

def isAddrChar (c : Char) : Bool :=
  c.isDigit || ('a' ≤ c && c ≤ 'f') || ('A' ≤ c && c ≤ 'F') || c = ':' || c = '.'

/-- `netip.ParseAddr`, and what its grammar says about the texts that it accepts. -/
structure Netip where
  parseAddr : Text → Option Addr
  empty : parseAddr [] = none
  chars : ∀ s a, parseAddr s = some a → a.zone = [] → ∀ c ∈ s, isAddrChar c = true
  colon : ∀ s a, parseAddr s = some a → (a.is6 = true ↔ ':' ∈ s)

/-! ## URLs -/

def bytesOf (s : Text) : Text := (Utf8.encode s).map fun b => Char.ofNat b.toNat

def textOf (bytes : Text) : Text := Utf8.decode (bytes.map fun c => UInt8.ofNat c.toNat)

/-- `encodePath`, `encodeHost` and `encodeZone`. -/
inductive Encoding where
  | path | host | zone
  deriving DecidableEq

def isAlnum (c : Char) : Bool := c.isDigit || ('a' ≤ c && c ≤ 'z') || ('A' ≤ c && c ≤ 'Z')

def shouldEscape (c : Char) (mode : Encoding) : Bool :=
  if isAlnum c then false
  else if mode ≠ .path && "!$&'()*+,;=:[]<>\"".toList.contains c then false
  else if "-_.~".toList.contains c then false
  else if mode = .path && "$&+,/:;=?@".toList.contains c then c = '?'
  else true

def upperHex (n : ℕ) : Char := (Nat.digitChar n).toUpper

def escape (s : Text) (mode : Encoding) : Text :=
  s.flatMap fun c =>
    if shouldEscape c mode then ['%', upperHex (c.toNat / 16), upperHex (c.toNat % 16)] else [c]

/-- What a mode allows behind a percent sign. -/
def allowedEscape (mode : Encoding) (hi lo : ℕ) : Bool :=
  match mode with
  | .path => true
  | .host => 8 ≤ hi || (hi = 2 && lo = 5)
  | .zone =>
    (hi = 2 && lo = 5) || 16 * hi + lo = 0x20 || !shouldEscape (Char.ofNat (16 * hi + lo)) .host

def unescape (mode : Encoding) : Text → Option Text
  | [] => some []
  | c :: rest =>
    if c = '%' then
      match rest with
      | x :: y :: rest =>
        match Text.hexValue x, Text.hexValue y with
        | some hi, some lo =>
          if allowedEscape mode hi lo then
            (unescape mode rest).map (Char.ofNat (16 * hi + lo) :: ·)
          else none
        | _, _ => none
      | _ => none
    else if mode ≠ .path && c.toNat < 0x80 && shouldEscape c mode then none
    else (unescape mode rest).map (c :: ·)

structure URL where
  host : Text
  path : Text
  rawPath : Text
  deriving DecidableEq

def validOptionalPort : Text → Bool
  | [] => true
  | c :: rest => c = ':' && rest.all Char.isDigit

def cutLast (s : Text) (sep : Char) : Option (Text × Text) :=
  (Text.cut s.reverse sep).map fun p => (p.2.reverse, p.1.reverse)

def breakAt (pattern : Text) : Text → Text × Text
  | [] => ([], [])
  | c :: rest =>
    if Text.hasPrefix (c :: rest) pattern then ([], c :: rest)
    else (c :: (breakAt pattern rest).1, (breakAt pattern rest).2)

/-- The address between the brackets of a host; its zone begins with an escaped percent sign. -/
def parseLiteral (netip : Netip) (literal : Text) : Option Text := do
  let parts := breakAt "%25".toList (bytesOf literal)
  let host ← unescape .host parts.1
  let zone ← unescape .zone parts.2
  let name := textOf (host ++ zone)
  let ip ← netip.parseAddr name
  if ip.is6 then some name else none

def parseHost (netip : Netip) (authority : Text) : Option Text :=
  if authority.head? = some '[' then
    if authority.tail.contains '[' then none
    else match cutLast authority.tail ']' with
      | none => none
      | some (literal, colonPort) =>
        if validOptionalPort colonPort then
          (parseLiteral netip literal).map fun name => '[' :: name ++ ']' :: colonPort
        else none
  else if authority.contains '[' then none
  else match authority.cut ':' with
    | none => (unescape .host (bytesOf authority)).map textOf
    | some (_, port) =>
      -- A second colon is no digit.
      if port.all Char.isDigit then (unescape .host (bytesOf authority)).map textOf else none

/-- `url.Parse`, for a text with the scheme `https` and with neither user, query nor fragment;
`webDAVURL` refuses all others. -/
def URL.parse (netip : Netip) (raw : Text) : Option URL :=
  if raw.any (fun c => c.toNat < 0x20 || c.toNat = 0x7f) || raw.contains '#' then none
  else match raw.cut ':' with
    | none => none
    | some (scheme, rest) =>
      if scheme.map Char.toLower ≠ "https".toList || rest.contains '?' || !rest.hasPrefix ['/', '/']
      then none
      else
        let authority := (rest.drop 2).takeWhile (· ≠ '/')
        let path := bytesOf ((rest.drop 2).dropWhile (· ≠ '/'))
        if authority.contains '@' then none
        else match parseHost netip authority, unescape .path path with
          | some host, some unescaped =>
            some ⟨host, unescaped, if escape unescaped .path = path then [] else path⟩
          | _, _ => none

/-- `validEncoded` of a path. -/
def validEncoded (s : Text) : Bool :=
  s.all fun c => "!$&'()*+,;=:@[]%".toList.contains c || !shouldEscape c .path

namespace URL

def escapedPath (u : URL) : Text :=
  if u.rawPath ≠ [] && validEncoded u.rawPath && unescape .path u.rawPath = some u.path then u.rawPath
  else if u.path = ['*'] then ['*']
  else escape u.path .path

def splitHostPort (u : URL) : Text × Text :=
  match cutLast u.host ':' with
  | some (host, port) => if port.all Char.isDigit then (host, port) else (u.host, [])
  | none => (u.host, [])

def hostname (u : URL) : Text :=
  let host := u.splitHostPort.1
  if host.head? = some '[' && host.getLast? = some ']' then host.tail.dropLast else host

def port (u : URL) : Text := u.splitHostPort.2

def string (u : URL) : Text :=
  let path := u.escapedPath
  "https://".toList ++ escape u.host .host ++
    (if path ≠ [] && path.head? ≠ some '/' then '/' :: path else path)

end URL

/-! ## Endpoints -/

/-- `unicode.ToLower`, as far as its result can be part of a host name: no other character has an
ASCII letter as its lower case. -/
def lowerChar (c : Char) : Char :=
  if c.toNat = 0x212a then 'k' else if c.toNat = 0x130 then 'i' else c.toLower

def toLower (s : Text) : Text := s.map lowerChar

def dnsLabel (label : Text) : Bool :=
  label ≠ [] && label.length ≤ 63 && label.all (fun c => isAlnum c || c = '-') &&
    label.head? ≠ some '-' && label.getLast? ≠ some '-'

/-- A host that is a public address or a name with a dot. -/
def validHost (netip : Netip) (host : Text) : Bool :=
  match netip.parseAddr host with
  | some ip => publicIP ip
  | none => host.byteLength ≤ 253 && host.contains '.' && (host.split '.').all dnsLabel

/-- The port of an endpoint: none, or a number in its shortest form. -/
def validPort (u : URL) : Bool :=
  if u.port ≠ [] then
    match u.port.atoi with
    | some n => 1 ≤ n && n ≤ 65535 && Nat.toDigits 10 n.toNat = u.port
    | none => false
  else u.host.getLast? ≠ some ':'

/-- `strings.IndexFunc(path, unicode.IsControl) >= 0`; behind ASCII, the control characters are the
byte `c2` and one from `80` to `9f`. -/
def pathControl : Text → Bool
  | [] => false
  | c :: rest =>
    c.toNat < 0x20 || c.toNat = 0x7f ||
      (c.toNat = 0xc2 && rest.head?.any fun d => 0x80 ≤ d.toNat && d.toNat < 0xa0) ||
      pathControl rest

/-- The checks of a path; `path.Clean` may take nothing but a slash from its end. -/
def validEndpointPath (path : Text) : Bool :=
  !path.hasPrefix ['/', '/'] && !path.contains '\\' && !pathControl path &&
    (path = [] || path = ['/'] ||
      path.cleanAbs = if path.getLast? = some '/' then path.dropLast else path)

/-- The host of the canonical URL; `net.JoinHostPort` puts an IPv6 address in brackets. -/
def canonicalHost (host port : Text) : Text :=
  let bracketed := if host.contains ':' then '[' :: host ++ [']'] else host
  if port ≠ [] && port ≠ "443".toList then bracketed ++ ':' :: port else bracketed

def webDAVURL (netip : Netip) (raw : Text) : Option URL := do
  let u ← URL.parse netip raw
  if 4096 < raw.byteLength || u.host = [] || !validEndpointPath u.path then none
  else
    let host := toLower u.hostname
    if !validHost netip host || !validPort u then none
    else
      let u := { u with host := canonicalHost host u.port }
      if u.path.getLast? = some '/' then some u
      else some { u with path := u.path ++ ['/'], rawPath := [] }

end RestFleet.Rclone
