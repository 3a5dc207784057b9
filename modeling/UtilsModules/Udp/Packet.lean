import UtilsModules.Common.Timeval
import UtilsModules.Udp.Seq

/-!
Packets of the reliable UDP layer, in memory and on the wire.

`PacketAll` is `s_packet_all`: a header, the buffer and the length of header
plus valid data.  A `Datagram` is what `sendto` puts on the wire, and
`PacketAll.ofBytes` what `recvfrom` leaves in a cleared packet.
-/

namespace UtilsModules.Udp

open Bytes

def maxPacketSize : Nat := 1472

def lenPacketHead : Nat := 8

def maxPacketDataSize : Nat := 1464

def exUdpVer : Nat := 18

inductive PacketType where
  | defaultNull
  | linkSyn
  | linkSynAck
  | linkAck
  | userData
  | seqCheck
  | seqReport
  | seqLack
  | linkFin
  deriving DecidableEq, Repr

namespace PacketType

def toNat : PacketType → Nat
  | defaultNull => 0
  | linkSyn => 1
  | linkSynAck => 2
  | linkAck => 3
  | userData => 4
  | seqCheck => 5
  | seqReport => 6
  | seqLack => 7
  | linkFin => 8

def ofNat? : Nat → Option PacketType
  | 0 => some defaultNull
  | 1 => some linkSyn
  | 2 => some linkSynAck
  | 3 => some linkAck
  | 4 => some userData
  | 5 => some seqCheck
  | 6 => some seqReport
  | 7 => some seqLack
  | 8 => some linkFin
  | _ => none

@[simp]
theorem ofNat?_toNat (type : PacketType) : ofNat? type.toNat = some type := by
  cases type <;> rfl

theorem toNat_lt (type : PacketType) : type.toNat < 256 := by
  cases type <;> decide

end PacketType

structure PacketHead where
  type : PacketType
  state : Nat
  seq : Nat
  seqCheck : Nat
  checksum : Nat
  deriving DecidableEq, Repr

structure PacketAll where
  head : PacketHead
  buf : List UInt8
  len : Nat
  deriving DecidableEq, Repr

def PacketAll.cleared : PacketAll := ⟨⟨.defaultNull, 0, 0, 0, 0⟩, [], 0⟩

def PacketAll.payload (pa : PacketAll) : List UInt8 := pa.buf.take (pa.len - lenPacketHead)

def memcpy (buf source : List UInt8) : List UInt8 := source ++ buf.drop source.length

@[simp]
theorem take_memcpy (buf source : List UInt8) :
    (memcpy buf source).take source.length = source := by
  simp [memcpy]

/-- The bytes handed to `sendto`, still split into header and data. -/
structure Datagram where
  head : PacketHead
  data : List UInt8
  deriving DecidableEq, Repr

namespace Datagram

def packet (datagram : Datagram) : PacketAll :=
  ⟨datagram.head, datagram.data, lenPacketHead + datagram.data.length⟩

def bytes (datagram : Datagram) : List UInt8 :=
  UInt8.ofNat datagram.head.type.toNat :: UInt8.ofNat datagram.head.state ::
    (ushortBytes datagram.head.seq ++ ushortBytes datagram.head.seqCheck ++
      ushortBytes datagram.head.checksum ++ datagram.data)

/-- The header fields fit their C types and the data fits a packet. -/
structure WellFormed (datagram : Datagram) : Prop where
  state : datagram.head.state < 256
  seq : datagram.head.seq < 65536
  seqCheck : datagram.head.seqCheck < 65536
  checksum : datagram.head.checksum < 65536
  data : datagram.data.length ≤ maxPacketDataSize

@[simp]
theorem packet_head (datagram : Datagram) : datagram.packet.head = datagram.head := rfl

@[simp]
theorem packet_payload (datagram : Datagram) : datagram.packet.payload = datagram.data := by
  simp [packet, PacketAll.payload]

end Datagram

/-- What `recvfrom` leaves in the cleared packet: at most `MAX_PACKET_SIZE`
bytes, and `len` set to their number.  A type byte outside the enumeration has
no packet; the receiving thread drops it. -/
def PacketAll.ofBytes (received : List UInt8) : Option PacketAll :=
  let bytes := received.take maxPacketSize
  (PacketType.ofNat? (byteAt bytes 0)).map fun type =>
    ⟨⟨type, byteAt bytes 1, ushortAt bytes 2, ushortAt bytes 4, ushortAt bytes 6⟩,
      bytes.drop lenPacketHead, bytes.length⟩

/-- Sending a well-formed datagram and receiving its bytes is the identity. -/
theorem PacketAll.ofBytes_bytes {datagram : Datagram} (formed : datagram.WellFormed) :
    PacketAll.ofBytes datagram.bytes = some datagram.packet := by
  have fits : datagram.bytes.length ≤ maxPacketSize := by
    have := formed.data
    simp only [Datagram.bytes, List.length_cons, List.length_append, length_ushortBytes,
      maxPacketDataSize, maxPacketSize] at *
    omega
  have whole : datagram.bytes.take maxPacketSize = datagram.bytes := List.take_of_length_le fits
  have typeByte : byteAt datagram.bytes 0 = datagram.head.type.toNat := by
    have := datagram.head.type.toNat_lt
    simp only [byteAt, Datagram.bytes, List.getD_cons_zero, UInt8.toNat_ofNat']
    omega
  have stateByte : byteAt datagram.bytes 1 = datagram.head.state := by
    have := formed.state
    simp only [byteAt, Datagram.bytes, List.getD_cons_succ, List.getD_cons_zero,
      UInt8.toNat_ofNat']
    omega
  have seqField : ushortAt datagram.bytes 2 = datagram.head.seq :=
    ushort_bytes_value formed.seq
  have seqCheckField : ushortAt datagram.bytes 4 = datagram.head.seqCheck :=
    ushort_bytes_value formed.seqCheck
  have checksumField : ushortAt datagram.bytes 6 = datagram.head.checksum :=
    ushort_bytes_value formed.checksum
  simp only [PacketAll.ofBytes, whole, typeByte, stateByte, seqField, seqCheckField,
    checksumField, PacketType.ofNat?_toNat, Option.map_some]
  simp [Datagram.packet, Datagram.bytes, ushortBytes, lenPacketHead]
  omega

end UtilsModules.Udp
