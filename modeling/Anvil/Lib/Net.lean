import Anvil.Lib.Strings

/-!
# Addresses (`std::net`)

An address is its octets, in network order.

* `Ipv6Addr.toIpv4Mapped`, `Ipv4Addr.toIpv6Mapped` : `::ffff:a.b.c.d`;
* `canonicalIp` : an IPv4-mapped address folded to IPv4;
* `isIpv6Addr` : the texts that `Ipv6Addr::from_str` reads.
-/

namespace Anvil.Lib

structure Ipv4Addr where
  a : UInt8
  b : UInt8
  c : UInt8
  d : UInt8
deriving DecidableEq

def Ipv4Addr.octets (ip : Ipv4Addr) : List UInt8 := [ip.a, ip.b, ip.c, ip.d]

structure Ipv6Addr where
  octets : List UInt8
  length_octets : octets.length = 16
deriving DecidableEq

inductive IpAddr where
  | v4 (ip : Ipv4Addr)
  | v6 (ip : Ipv6Addr)
deriving DecidableEq

def IpAddr.isIpv4 : IpAddr → Bool
  | .v4 _ => true
  | .v6 _ => false

structure SocketAddr where
  ip : IpAddr
  port : UInt16
deriving DecidableEq

/-- The `i`-th of the eight 16-bit segments. -/
def Ipv6Addr.segment (ip : Ipv6Addr) (i : Nat) : Nat :=
  (ip.octets.getD (2 * i) 0).toNat * 256 + (ip.octets.getD (2 * i + 1) 0).toNat

/-- `::ffff:0:0/96`. -/
def mappedPrefix : List UInt8 := [0, 0, 0, 0, 0, 0, 0, 0, 0, 0, 0xFF, 0xFF]

/-- The last four octets. -/
def Ipv6Addr.embedded (ip : Ipv6Addr) : Ipv4Addr :=
  ⟨ip.octets.getD 12 0, ip.octets.getD 13 0, ip.octets.getD 14 0, ip.octets.getD 15 0⟩

def Ipv6Addr.toIpv4Mapped (ip : Ipv6Addr) : Option Ipv4Addr :=
  if ip.octets.take 12 = mappedPrefix then some ip.embedded else none

def Ipv4Addr.toIpv6Mapped (ip : Ipv4Addr) : Ipv6Addr := ⟨mappedPrefix ++ ip.octets, rfl⟩

def canonicalIp : IpAddr → IpAddr
  | .v4 ip => .v4 ip
  | .v6 ip =>
    match ip.toIpv4Mapped with
    | some v4 => .v4 v4
    | none => .v6 ip

def canonical (a : SocketAddr) : SocketAddr := ⟨canonicalIp a.ip, a.port⟩

theorem canonicalIp_canonicalIp (ip : IpAddr) : canonicalIp (canonicalIp ip) = canonicalIp ip := by
  cases ip with
  | v4 ip => rfl
  | v6 ip =>
    unfold canonicalIp
    cases h : ip.toIpv4Mapped with
    | none => simp only [h]
    | some v4 => simp only [h]

theorem canonicalIp_toIpv6Mapped (ip : Ipv4Addr) : canonicalIp (.v6 ip.toIpv6Mapped) = .v4 ip := rfl

/-! ## Text -/

def isAsciiHexdigit (c : Char) : Bool := c.isDigit || ('a' ≤ c && c ≤ 'f') || ('A' ≤ c && c ≤ 'F')

/-- `read_number(16, Some(4), true)`: what stands after the number. -/
def readGroup (t : Text) : Option Text :=
  let digits := t.takeWhile isAsciiHexdigit
  if digits.isEmpty || 4 < digits.length then none else some (t.dropWhile isAsciiHexdigit)

/-- `read_number(10, Some(3), false)` of a `u8`. -/
def readOctet (t : Text) : Option Text :=
  let digits := t.takeWhile Char.isDigit
  if digits.isEmpty || 3 < digits.length || (1 < digits.length && digits.head? = some '0') ||
      !(digitsOf digits).any (· < 256) then none
  else some (t.dropWhile Char.isDigit)

def readSeparator (sep : Char) (index : Nat) (inner : Text → Option Text) (t : Text) : Option Text :=
  if index = 0 then inner t else if t.head? = some sep then inner t.tail else none

/-- `read_ipv4_addr`. -/
def readIpv4Addr (t : Text) : Option Text := do
  let t ← readOctet t
  let t ← readSeparator '.' 1 readOctet t
  let t ← readSeparator '.' 2 readOctet t
  readSeparator '.' 3 readOctet t

/-- `read_groups` from group `index` on, with room for as many: how many groups there are, whether an IPv4 address is the
last of them, and what stands after them. -/
def readGroups : Nat → Nat → Text → Nat × Bool × Text
  | 0, index, t => (index, false, t)
  | room + 1, index, t =>
    match if 0 < room then readSeparator ':' index readIpv4Addr t else none with
    | some t => (index + 2, true, t)
    | none =>
      match readSeparator ':' index readGroup t with
      | some t => readGroups room (index + 1) t
      | none => (index, false, t)

/-- `t.parse::<Ipv6Addr>().is_ok()`. -/
def isIpv6Addr (t : Text) : Bool :=
  let head := readGroups 8 0 t
  if head.1 = 8 then head.2.2.isEmpty
  else if head.2.1 then false
  else if "::".toList.isPrefixOf head.2.2 then (readGroups (8 - (head.1 + 1)) 0 (head.2.2.drop 2)).2.2.isEmpty
  else false

example : ["::1", "fe80::a:0", "1:2:3:4:5:6:7:8", "::ffff:192.0.2.1"].all (fun t => isIpv6Addr t.toList) = true ∧
    ["1:2:3:4:5:6:7:8:9", "12345::", "::1::", "::1.2.3", "[::1]", ""].all (fun t => !isIpv6Addr t.toList) = true := by
  decide

end Anvil.Lib
