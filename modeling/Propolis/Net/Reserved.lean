import Propolis.Scoring.Domain

/-!
# Reserved addresses

The ranges no address that leaves the system may lie in (`core-scoring/src/net.rs`),
with the IPv6 forms that carry an IPv4 address judged by that address too.
-/

namespace Propolis

namespace IpAddr

/-- The bits of an address as a number. -/
def bits : IpAddr → ℕ
  | .v4 a b c d => ((a.toNat * 256 + b.toNat) * 256 + c.toNat) * 256 + d.toNat
  | .v6 s0 s1 s2 s3 s4 s5 s6 s7 =>
      [s0, s1, s2, s3, s4, s5, s6, s7].foldl (fun bits segment => bits * 65536 + segment.toNat) 0

end IpAddr

/-- `ipnet::IpNet`: the addresses of one family that share the first bits of one. -/
structure IpNet where
  address : IpAddr
  prefixLen : ℕ
  deriving DecidableEq

/-- An address of the other family lies in no range. -/
def IpNet.contains (net : IpNet) (ip : IpAddr) : Bool :=
  match net.address, ip with
  | .v4 .., .v4 .. =>
      net.address.bits / 2 ^ (32 - net.prefixLen) == ip.bits / 2 ^ (32 - net.prefixLen)
  | .v6 .., .v6 .. =>
      net.address.bits / 2 ^ (128 - net.prefixLen) == ip.bits / 2 ^ (128 - net.prefixLen)
  | _, _ => false

def reservedRanges : List IpNet :=
  [ -- Private address space.
    ⟨.v4 10 0 0 0, 8⟩, ⟨.v4 172 16 0 0, 12⟩, ⟨.v4 192 168 0 0, 16⟩,
    -- Documentation.
    ⟨.v4 192 0 2 0, 24⟩, ⟨.v4 198 51 100 0, 24⟩, ⟨.v4 203 0 113 0, 24⟩,
    -- Loopback.
    ⟨.v4 127 0 0 0, 8⟩, ⟨.v6 0 0 0 0 0 0 0 1, 128⟩,
    -- Link-local.
    ⟨.v4 169 254 0 0, 16⟩, ⟨.v6 0xfe80 0 0 0 0 0 0 0, 10⟩,
    -- Multicast.
    ⟨.v4 224 0 0 0, 4⟩, ⟨.v6 0xff00 0 0 0 0 0 0 0, 8⟩,
    -- Limited broadcast.
    ⟨.v4 255 255 255 255, 32⟩,
    -- Unique local addresses.
    ⟨.v6 0xfc00 0 0 0 0 0 0 0, 7⟩,
    -- IPv6 documentation.
    ⟨.v6 0x2001 0xdb8 0 0 0 0 0 0, 32⟩,
    -- This network.
    ⟨.v4 0 0 0 0, 8⟩,
    -- Carrier-grade NAT.
    ⟨.v4 100 64 0 0, 10⟩,
    -- Protocol assignments.
    ⟨.v4 192 0 0 0, 24⟩,
    -- 6a44 relay anycast.
    ⟨.v4 192 88 99 2, 32⟩,
    -- Benchmarking.
    ⟨.v4 198 18 0 0, 15⟩,
    -- Reserved for future use.
    ⟨.v4 240 0 0 0, 4⟩,
    -- Unspecified.
    ⟨.v6 0 0 0 0 0 0 0 0, 128⟩,
    -- Local-use translation.
    ⟨.v6 0x64 0xff9b 1 0 0 0 0 0, 48⟩,
    -- Discard-only and dummy.
    ⟨.v6 0x100 0 0 0 0 0 0 0, 64⟩, ⟨.v6 0x100 0 0 1 0 0 0 0, 64⟩,
    -- IPv6 protocol assignments.
    ⟨.v6 0x2001 0 0 0 0 0 0 0, 23⟩,
    -- The second documentation range.
    ⟨.v6 0x3fff 0 0 0 0 0 0 0, 20⟩,
    -- Segment identifiers.
    ⟨.v6 0x5f00 0 0 0 0 0 0 0, 16⟩ ]

/-- The IPv4 address of two segments. -/
def ipv4OfSegments (high low : UInt16) : IpAddr :=
  .v4 (high >>> 8).toUInt8 high.toUInt8 (low >>> 8).toUInt8 low.toUInt8

/-- `embedded_ipv4`: the IPv4 address an IPv6 address carries, for the forms that name an IPv4 host:
mapped, NAT64 and 6to4. -/
def embeddedIpv4 : IpAddr → Option IpAddr
  | .v4 .. => none
  | .v6 s0 s1 s2 s3 s4 s5 s6 s7 =>
      if s0 = 0 ∧ s1 = 0 ∧ s2 = 0 ∧ s3 = 0 ∧ s4 = 0 ∧ s5 = 0xffff then
        some (ipv4OfSegments s6 s7)
      else if s0 = 0x64 ∧ s1 = 0xff9b ∧ s2 = 0 ∧ s3 = 0 ∧ s4 = 0 ∧ s5 = 0 then
        some (ipv4OfSegments s6 s7)
      else if s0 = 0x2002 then some (ipv4OfSegments s1 s2)
      else none

def inReservedRanges (ip : IpAddr) : Bool :=
  reservedRanges.any fun net => net.contains ip

def isReservedIp (ip : IpAddr) : Bool :=
  match ip with
  | .v4 .. => inReservedRanges ip
  | .v6 .. => inReservedRanges ip || (embeddedIpv4 ip).any inReservedRanges

example : isReservedIp (.v6 0x2002 0xc0a8 0x101 0 0 0 0 5) = true := by decide

end Propolis
