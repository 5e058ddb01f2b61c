import Tollgate.Model.Dns.Handler

/-! # A reference for the assumed libraries

A decoder that knows the messages of a table, and packets with plain IPv4 or IPv6 headers around UDP
datagrams. They compute what the assumed libraries compute on these inputs and meet every assumption
made of them, so that concrete runs of the handler can be evaluated.
-/

namespace Tollgate.Dns

/-- The presentation form of a name whose labels need no escapes, with the final dot. -/
def Question.toAscii (question : Question) : Text :=
  question.labels.flatMap fun label => label.bytes.map (fun byte => Char.ofNat byte.toNat) ++ ['.']

/-- `test`. -/
def testLabel : Label := ⟨[116, 101, 115, 116], by decide, by decide⟩

/-- `nas.lan`. -/
def nasLan : List Label := [⟨[110, 97, 115], by decide, by decide⟩, ⟨[108, 97, 110], by decide, by decide⟩]

theorem nasLan_short : (encodeLabels nasLan).length < 255 := by decide

/-- What a decoder reports of a message. -/
def Decoded.of (message : Message) : Decoded where
  id := message.id
  recursionDesired := message.recursionDesired
  opCode := message.opcode
  queries := [⟨message.question.toAscii, message.question.qtype⟩]
  edns := message.opt?.map fun opt => ⟨opt.rclass, opt.dnssecOk⟩

theorem Decoded.of_reports (message : Message) : (Decoded.of message).Reports message := by
  refine ⟨rfl, rfl, rfl, rfl, ?_, ?_⟩
  · simp only [Decoded.of, Option.map_map]
    rfl
  · simp only [Decoded.of, Option.map_map]
    rfl

/-- The decoder that accepts the messages of a table. -/
def Decoder.knowing (known : List Message) : Decoder := fun msg =>
  (known.find? fun message => message.encode == msg).map Decoded.of

theorem Decoder.knowing_eq_some {known : List Message} {msg : Bytes} {decoded : Decoded}
    (accepted : Decoder.knowing known msg = some decoded) :
    ∃ message, msg = message.encode ∧ decoded = Decoded.of message := by
  obtain ⟨message, found, rfl⟩ := Option.map_eq_some_iff.mp accepted
  have same := List.find?_some found
  exact ⟨message, (beq_iff_eq.mp same).symm, rfl⟩

theorem Decoder.knowing_faithful (known : List Message) : (Decoder.knowing known).Faithful := by
  constructor
  · intro msg decoded accepted
    obtain ⟨message, rfl, -⟩ := Decoder.knowing_eq_some accepted
    simp only [Message.encode, Message.header, be16, List.length_append, Endian.length_beBytes, List.length_cons]
    omega
  · intro msg decoded accepted question rest one asked
    obtain ⟨message, rfl, rfl⟩ := Decoder.knowing_eq_some accepted
    exact ⟨message, [], (List.append_nil _).symm, Decoded.of_reports message⟩

/-- The sum of 16-bit words that IP checksums are made of. -/
def wordSum : Bytes → ℕ
  | high :: low :: rest => high.toNat * 256 + low.toNat + wordSum rest
  | [high] => high.toNat * 256
  | [] => 0

/-- The checksum of a header or pseudo-header: the complement of the folded sum. -/
def internetChecksum (bytes : Bytes) : Bytes :=
  let folded := wordSum bytes % 65536 + wordSum bytes / 65536
  Endian.beBytes 2 (65535 - (folded % 65536 + folded / 65536))

/-- A UDP datagram; `pseudo` is the part of the pseudo-header in front of the length. -/
def writeUdp (pseudo : Bytes) (sourcePort destinationPort : UInt16) (payload : Bytes) : Bytes :=
  let length := Endian.beBytes 2 (8 + payload.length)
  let header := be16 sourcePort ++ be16 destinationPort ++ length
  header ++ internetChecksum (pseudo ++ length ++ header ++ [0, 0] ++ payload) ++ payload

def writeIpv4 (source destination : BitVec 32) (hops : UInt8) (sourcePort destinationPort : UInt16)
    (payload : Bytes) : Option Bytes :=
  if payload.length + 28 < 2 ^ 16 then
    let addresses := Endian.beBytes 4 source.toNat ++ Endian.beBytes 4 destination.toNat
    let front := [0x45, 0] ++ Endian.beBytes 2 (28 + payload.length) ++ [0, 0, 0x40, 0, hops, 17]
    some (front ++ internetChecksum (front ++ [0, 0] ++ addresses) ++ addresses ++
      writeUdp (addresses ++ [0, 17]) sourcePort destinationPort payload)
  else none

def writeIpv6 (source destination : BitVec 128) (hops : UInt8) (sourcePort destinationPort : UInt16)
    (payload : Bytes) : Option Bytes :=
  if payload.length + 8 < 2 ^ 16 then
    let addresses := Endian.beBytes 16 source.toNat ++ Endian.beBytes 16 destination.toNat
    some ([0x60, 0, 0, 0] ++ Endian.beBytes 2 (8 + payload.length) ++ [17, hops] ++ addresses ++
      writeUdp (addresses ++ [0, 17]) sourcePort destinationPort payload)
  else none

/-- The transport layer of a packet whose next header is `next`. -/
def sliceTransport (next : UInt8) (bytes : Bytes) : Option TransportSlice :=
  if next = 17 then
    some (.udp (UInt16.ofNat (Endian.ofBe (bytes.take 2))) (UInt16.ofNat (Endian.ofBe ((bytes.drop 2).take 2)))
      (bytes.drop 8))
  else some .other

/-- Cuts a packet into its headers; packets with IP options are not read. -/
def sliceIp (packet : Bytes) : Option SlicedPacket :=
  let number (first count : ℕ) := Endian.ofBe ((packet.drop first).take count)
  if packet.head? = some 0x45 ∧ 28 ≤ packet.length then
    some ⟨some (.ipv4 (.ofNat 32 (number 12 4)) (.ofNat 32 (number 16 4)) (number 6 2 % 0x4000 ≠ 0)),
      sliceTransport (UInt8.ofNat (number 9 1)) (packet.drop 20)⟩
  else if packet.head? = some 0x60 ∧ 48 ≤ packet.length then
    some ⟨some (.ipv6 (.ofNat 128 (number 8 16)) (.ofNat 128 (number 24 16)) false),
      sliceTransport (UInt8.ofNat (number 6 1)) (packet.drop 40)⟩
  else none

def PacketLibrary.plain : PacketLibrary := ⟨sliceIp, writeIpv4, writeIpv6⟩

theorem PacketLibrary.plain_writes : PacketLibrary.plain.Writes := by
  constructor
  · intro source destination hops sourcePort destinationPort payload short
    simp only [PacketLibrary.plain, writeIpv4, if_pos (by omega : payload.length + 28 < 2 ^ 16)]
    rfl
  · intro source destination hops sourcePort destinationPort payload short
    simp only [PacketLibrary.plain, writeIpv6, if_pos (by omega : payload.length + 8 < 2 ^ 16)]
    rfl

/-- The libraries for runs over a table of messages. -/
def Libraries.knowing (known : List Message) : Libraries := ⟨.knowing known, .plain⟩

end Tollgate.Dns
