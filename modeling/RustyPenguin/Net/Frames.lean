import RustyPenguin.Crypto.Hashing
import RustyPenguin.Foundation.Act

/-!
# Frames

The network card as its polls and sends show it, and frames that carry TCP segments: how they are
built with their checksums, and what is read of a frame that arrives. A frame is built in a
buffer of the caller, which it must fit.
-/

set_option autoImplicit false

namespace RustyPenguin.Net

open Crypto

/-! ## The network card -/

/-- The network card: its address, if there is one, what the next polls find, and the frames that
were sent. -/
structure Nic where
  mac : Option (Vector UInt8 6)
  polls : List (Option (List UInt8))
  sent : List (List UInt8)

/-- A piece of the network stack. It may return nothing, and then ends with the error. -/
abbrev NetAct (α : Type) : Type := Act Nic Unit α

/-- Return nothing. -/
def giveUp {α : Type} : NetAct α := .fail ()

/-- Give up without a card. -/
def nic : NetAct (Vector UInt8 6) := fun s =>
  match s.mac with
  | some mac => some (.ok mac, s)
  | none => some (.error (), s)

def send (frame : List UInt8) : NetAct Unit := fun s =>
  some (.ok (), { s with sent := s.sent ++ [frame] })

/-- The frame that has arrived, as far as it fits a buffer of `size` bytes. -/
def pollRx (size : Nat) : NetAct (Option (List UInt8)) := fun s =>
  match s.polls with
  | [] => some (.ok none, s)
  | found :: polls => some (.ok (found.map (List.take size)), { s with polls := polls })

/-! ## Checksums -/

/-- The big-endian number of two bytes at a position. -/
def beShort (bytes : List UInt8) (i : Nat) : Nat :=
  (byte bytes i).toNat * 256 + (byte bytes (i + 1)).toNat

/-- The big-endian number of four bytes at a position. -/
def beLong (bytes : List UInt8) (i : Nat) : UInt32 :=
  UInt32.ofNat (beShort bytes i * 65536 + beShort bytes (i + 2))

/-- The bytes of a short word. -/
def shortBytes (x : UInt16) : List UInt8 := [(x >>> 8).toUInt8, x.toUInt8]

theorem beShort_shortBytes (x : UInt16) (back : List UInt8) :
    beShort (shortBytes x ++ back) 0 = x.toNat := by
  show (x >>> 8).toUInt8.toNat * 256 + x.toUInt8.toNat = x.toNat
  rw [UInt16.toNat_toUInt8, UInt16.toNat_toUInt8, UInt16.toNat_shiftRight]
  have bound := x.toNat_lt
  have shift : x.toNat >>> ((8 : UInt16).toNat % 16) = x.toNat / 256 :=
    Nat.shiftRight_eq_div_pow _ _
  rw [shift]
  omega

theorem toNat_shifted (x k : UInt32) (small : k.toNat < 32) :
    (x >>> k).toUInt8.toNat = x.toNat / 2 ^ k.toNat % 256 := by
  rw [UInt32.toNat_toUInt8, UInt32.toNat_shiftRight, Nat.mod_eq_of_lt small,
    Nat.shiftRight_eq_div_pow]

theorem beLong_beBytes (x : UInt32) (back : List UInt8) : beLong (beBytes x ++ back) 0 = x := by
  show UInt32.ofNat (((x >>> 24).toUInt8.toNat * 256 + (x >>> 16).toUInt8.toNat) * 65536 +
    ((x >>> 8).toUInt8.toNat * 256 + x.toUInt8.toNat)) = x
  rw [toNat_shifted x 24 (by decide), toNat_shifted x 16 (by decide),
    toNat_shifted x 8 (by decide), UInt32.toNat_toUInt8]
  have bound := x.toNat_lt
  have same : (x.toNat / 2 ^ 24 % 256 * 256 + x.toNat / 2 ^ 16 % 256) * 65536 +
      (x.toNat / 2 ^ 8 % 256 * 256 + x.toNat % 2 ^ 8) = x.toNat := by
    omega
  exact (congrArg UInt32.ofNat same).trans UInt32.ofNat_toNat

/-- The sum of the big-endian short words of a string. -/
def wordSum : List UInt8 → UInt32
  | [] => 0
  | [a] => a.toUInt32 <<< 8
  | a :: b :: rest => (a.toUInt32 <<< 8 ||| b.toUInt32) + wordSum rest

theorem carry_lt {sum : UInt32} (high : sum >>> 16 ≠ 0) :
    ((sum &&& (0xFFFF : UInt32)) + (sum >>> 16)).toNat < sum.toNat := by
  have quotient : (sum >>> 16).toNat = sum.toNat / 65536 := by
    rw [UInt32.toNat_shiftRight, Nat.shiftRight_eq_div_pow]
    rfl
  have remainder : (sum &&& (0xFFFF : UInt32)).toNat = sum.toNat % 65536 := by
    rw [UInt32.toNat_and]
    exact Nat.and_two_pow_sub_one_eq_mod sum.toNat 16
  have bound := sum.toNat_lt
  have some : sum.toNat / 65536 ≠ 0 := by
    intro none
    exact high (UInt32.toNat_inj.mp (quotient.trans none))
  rw [UInt32.toNat_add, quotient, remainder]
  refine Nat.lt_of_le_of_lt (Nat.mod_le _ _) ?_
  have split := Nat.mod_add_div sum.toNat 65536
  omega

/-- The carries added back. -/
def carry (sum : UInt32) : UInt32 :=
  if sum >>> 16 ≠ 0 then carry ((sum &&& (0xFFFF : UInt32)) + (sum >>> 16)) else sum
termination_by sum.toNat
decreasing_by exact carry_lt ‹_›

def inetChecksum (data : List UInt8) : UInt16 := ~~~ (carry (wordSum data)).toUInt16

/-! ## TCP segments -/

def protoTcp : UInt8 := 6

def tcpFin : UInt8 := 0x01
def tcpSyn : UInt8 := 0x02
def tcpRst : UInt8 := 0x04
def tcpPsh : UInt8 := 0x08
def tcpAck : UInt8 := 0x10

def ourPort : UInt16 := 49152

def ourIp : Vector UInt8 4 := #v[10, 0, 2, 15]

/-- One of the flags is set. -/
def has (flags bit : UInt8) : Bool := flags &&& bit != 0

/-- The checksum of a segment with its pseudo header. -/
def tcpChecksum (src dst : Vector UInt8 4) (seg : List UInt8) : UInt16 :=
  ~~~ (carry (wordSum (src.toList ++ dst.toList) + protoTcp.toUInt32 + UInt32.ofNat seg.length +
    wordSum seg)).toUInt16

def ethernetHeader (dstMac srcMac : Vector UInt8 6) : List UInt8 :=
  dstMac.toList ++ srcMac.toList ++ [0x08, 0x00]

/-- The IPv4 header around a given checksum. -/
def ipHeaderWith (proto : UInt8) (srcIp dstIp : Vector UInt8 4) (total ck : UInt16) :
    List UInt8 :=
  [0x45, 0] ++ shortBytes total ++ [0, 0, 0x40, 0, 64, proto] ++ shortBytes ck ++ srcIp.toList ++
    dstIp.toList

def ipHeader (proto : UInt8) (srcIp dstIp : Vector UInt8 4) (total : UInt16) : List UInt8 :=
  ipHeaderWith proto srcIp dstIp total (inetChecksum (ipHeaderWith proto srcIp dstIp total 0))

/-- The segment around a given checksum, with a header of five words. -/
def tcpSegmentWith (dport : UInt16) (seq ack : UInt32) (flags : UInt8) (payload : List UInt8)
    (ck : UInt16) : List UInt8 :=
  shortBytes ourPort ++ shortBytes dport ++ beBytes seq ++ beBytes ack ++
    [(5 : UInt8) <<< 4, flags, 0x20, 0x00] ++ shortBytes ck ++ [0, 0] ++ payload

def tcpSegment (srcIp dstIp : Vector UInt8 4) (dport : UInt16) (seq ack : UInt32) (flags : UInt8)
    (payload : List UInt8) : List UInt8 :=
  tcpSegmentWith dport seq ack flags payload
    (tcpChecksum srcIp dstIp (tcpSegmentWith dport seq ack flags payload 0))

/-- Build a frame in a buffer of `cap` bytes, which it may not exceed. -/
def buildTcp (cap : Nat) (dstMac srcMac : Vector UInt8 6) (srcIp dstIp : Vector UInt8 4)
    (dport : UInt16) (seq ack : UInt32) (flags : UInt8) (payload : List UInt8) :
    Option (List UInt8) :=
  if 54 + payload.length ≤ cap then
    let total := UInt16.ofNat (20 + (20 + payload.length))
    some ((ethernetHeader dstMac srcMac ++ ipHeader protoTcp srcIp dstIp total ++
      tcpSegment srcIp dstIp dport seq ack flags payload).take (14 + total.toNat))
  else none

/-- Build a frame and send it. A frame that does not fit its buffer stops the machine. -/
def sendTcp (cap : Nat) (dstMac srcMac : Vector UInt8 6) (dstIp : Vector UInt8 4) (dport : UInt16)
    (seq ack : UInt32) (flags : UInt8) (payload : List UInt8) : NetAct Unit :=
  match buildTcp cap dstMac srcMac ourIp dstIp dport seq ack flags payload with
  | some frame => send frame
  | none => .stuck

/-- What is read of the segment in a frame: its numbers and flags, and where the payload is. -/
structure TcpHeader where
  seq : UInt32
  ackn : UInt32
  flags : UInt8
  poff : Nat
  plen : Nat

/-- The segment in a frame that is addressed to our port. -/
def parseTcp (rx : List UInt8) : Option TcpHeader :=
  if rx.length < 54 then none
  else if ¬ (byte rx 12 = 0x08 ∧ byte rx 13 = 0x00 ∧ byte rx 23 = protoTcp) then none
  else if ¬ (byte rx 36 = (ourPort >>> 8).toUInt8 ∧ byte rx 37 = ourPort.toUInt8) then none
  else
    let dataOff := (byte rx 46 >>> 4).toNat * 4
    let poff := 34 + dataOff
    let segEnd := min (14 + beShort rx 16) rx.length
    some ⟨beLong rx 38, beLong rx 42, byte rx 47, poff, segEnd - poff⟩

/-- The payload of a segment. -/
def TcpHeader.payload (h : TcpHeader) (rx : List UInt8) : List UInt8 := (rx.drop h.poff).take h.plen

/-- The payload lies in the frame. -/
theorem poff_add_plen_le {rx : List UInt8} {h : TcpHeader} (parsed : parseTcp rx = some h)
    (some : 0 < h.plen) : h.poff + h.plen ≤ rx.length := by
  rw [parseTcp] at parsed
  split at parsed
  · cases parsed
  split at parsed
  · cases parsed
  split at parsed
  · cases parsed
  cases parsed
  simp only at some ⊢
  omega

theorem length_payload {rx : List UInt8} {h : TcpHeader} (parsed : parseTcp rx = some h) :
    (h.payload rx).length = h.plen := by
  rw [TcpHeader.payload, List.length_take, List.length_drop]
  rcases Nat.eq_zero_or_pos h.plen with none | some
  · rw [none, Nat.zero_min]
  · have inside := poff_add_plen_le parsed some
    omega

/-- A frame without options and with a payload that fits it is sent as it is built. -/
theorem sendTcp_eq {cap : Nat} {dstMac srcMac : Vector UInt8 6} {dstIp : Vector UInt8 4}
    {dport : UInt16} {seq ack : UInt32} {flags : UInt8} {payload : List UInt8}
    (fits : 54 + payload.length ≤ cap) :
    ∃ frame, sendTcp cap dstMac srcMac dstIp dport seq ack flags payload = send frame := by
  rw [sendTcp, buildTcp, if_pos fits]
  exact ⟨_, rfl⟩

end RustyPenguin.Net
