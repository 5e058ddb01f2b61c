import Tollgate.Model.Core.Text

/-! # Packets of the tunnel

Lifting a UDP datagram out of a raw IP packet and writing the reply packet. Cutting a packet into
its headers and writing headers with their checksums is done by a library, whose results are
parameters here; what is done with them is not. `PacketLibrary.Writes` is what is assumed of it.
-/

namespace Tollgate.Dns

inductive IpAddr where
  | v4 (address : BitVec 32)
  | v6 (address : BitVec 128)
deriving DecidableEq, Repr

structure SocketAddr where
  ip : IpAddr
  port : UInt16
deriving DecidableEq, Repr

/-- The network layer of a sliced packet. -/
inductive NetSlice where
  | ipv4 (source destination : BitVec 32) (fragmented : Bool)
  | ipv6 (source destination : BitVec 128) (fragmented : Bool)
  | other

/-- The transport layer of a sliced packet. -/
inductive TransportSlice where
  | udp (sourcePort destinationPort : UInt16) (payload : Bytes)
  | other

structure SlicedPacket where
  net : Option NetSlice
  transport : Option TransportSlice

/-- The operations of the packet library: `SlicedPacket::from_ip`, and a `PacketBuilder` for either
family with its hop limit and ports, written around a payload. -/
structure PacketLibrary where
  fromIp : Bytes → Option SlicedPacket
  writeV4 (source destination : BitVec 32) (hops : UInt8) (sourcePort destinationPort : UInt16)
    (payload : Bytes) : Option Bytes
  writeV6 (source destination : BitVec 128) (hops : UInt8) (sourcePort destinationPort : UInt16)
    (payload : Bytes) : Option Bytes

/-- A datagram of at most 1,232 bytes always fits in one packet. -/
structure PacketLibrary.Writes (library : PacketLibrary) : Prop where
  v4 : ∀ source destination hops sourcePort destinationPort payload, payload.length ≤ 1232 →
    (library.writeV4 source destination hops sourcePort destinationPort payload).isSome
  v6 : ∀ source destination hops sourcePort destinationPort payload, payload.length ≤ 1232 →
    (library.writeV6 source destination hops sourcePort destinationPort payload).isSome

/-- A UDP datagram inside one raw IP packet. -/
structure UdpDatagram where
  source : SocketAddr
  destination : SocketAddr
  payload : Bytes
deriving DecidableEq, Repr

/-- Source and destination of a packet that is not a fragment. -/
def NetSlice.addresses : NetSlice → Option (IpAddr × IpAddr)
  | .ipv4 source destination fragmented => if fragmented then none else some (.v4 source, .v4 destination)
  | .ipv6 source destination fragmented => if fragmented then none else some (.v6 source, .v6 destination)
  | .other => none

/-- Parses a raw IP packet; nothing for anything that is not one whole UDP datagram. -/
def parseUdp (library : PacketLibrary) (packet : Bytes) : Option UdpDatagram := do
  let sliced ← library.fromIp packet
  let net ← sliced.net
  let (source, destination) ← net.addresses
  match sliced.transport with
  | some (.udp sourcePort destinationPort payload) =>
      some ⟨⟨source, sourcePort⟩, ⟨destination, destinationPort⟩, payload⟩
  | _ => none

/-- Writes one UDP packet with a hop limit of 64; nothing when the addresses are of different
families or the payload does not fit. -/
def buildUdp (library : PacketLibrary) (source destination : SocketAddr) (payload : Bytes) : Option Bytes :=
  match source.ip, destination.ip with
  | .v4 sender, .v4 receiver => library.writeV4 sender receiver 64 source.port destination.port payload
  | .v6 sender, .v6 receiver => library.writeV6 sender receiver 64 source.port destination.port payload
  | _, _ => none

end Tollgate.Dns
