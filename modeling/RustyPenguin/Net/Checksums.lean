import RustyPenguin.Foundation.OnesComplement
import RustyPenguin.Net.Request

/-!
# Frames that a receiver accepts

A receiver of a frame adds up the words of the IPv4 header, and those of the segment and its
pseudo header, with their checksums: an undamaged one gives `0xFFFF`. Every frame that is built
does, and what is read of it is what it was built from (`buildTcp_received`,
`buildUdp_received`), also behind padding that the card adds to a short frame.
-/

set_option autoImplicit false

namespace RustyPenguin.Net

open Crypto OnesComplement

/-! ## The sum of a checksum -/

theorem toNat_shl8 (a : UInt8) : (a.toUInt32 <<< 8).toNat = a.toNat * 256 := by
  have byte := a.toNat_lt
  rw [UInt32.toNat_shiftLeft, UInt8.toNat_toUInt32, show (8 : UInt32).toNat % 32 = 8 from rfl,
    Nat.shiftLeft_eq]
  exact Nat.mod_eq_of_lt (by omega)

theorem toNat_word (a b : UInt8) :
    (a.toUInt32 <<< 8 ||| b.toUInt32).toNat = a.toNat * 256 + b.toNat := by
  have low := b.toNat_lt
  have high : a.toNat * 256 = a.toNat <<< 8 := (Nat.shiftLeft_eq a.toNat 8).symm
  rw [UInt32.toNat_or, toNat_shl8, UInt8.toNat_toUInt32, high,
    ← Nat.shiftLeft_add_eq_or_of_lt (by omega)]

theorem toNat_wordSum (data : List UInt8) : (wordSum data).toNat = sumWords data % 2 ^ 32 := by
  induction data using sumWords.induct with
  | case1 => rfl
  | case2 a =>
    have byte := a.toNat_lt
    rw [wordSum, toNat_shl8, sumWords, Nat.mod_eq_of_lt (by omega)]
  | case3 a b rest ih =>
    rw [wordSum, UInt32.toNat_add, toNat_word, ih, sumWords_cons_cons, Nat.add_mod_mod]

theorem toNat_carry (sum : UInt32) : (carry sum).toNat = wrap 65535 sum.toNat := by
  induction sum using carry.induct with
  | case1 sum high ih =>
    have quotient : (sum >>> 16).toNat = sum.toNat / 65536 := by
      rw [UInt32.toNat_shiftRight, Nat.shiftRight_eq_div_pow]
      rfl
    have remainder : (sum &&& (0xFFFF : UInt32)).toNat = sum.toNat % 65536 := by
      rw [UInt32.toNat_and]
      exact Nat.and_two_pow_sub_one_eq_mod sum.toNat 16
    have bound := sum.toNat_lt
    rw [carry, if_pos high, ih, UInt32.toNat_add, quotient, remainder, Nat.mod_eq_of_lt (by omega)]
    exact wrap_carry sum.toNat
  | case2 sum small =>
    have quotient : sum.toNat / 65536 = 0 := by
      have shift : (sum >>> 16).toNat = sum.toNat / 65536 := by
        rw [UInt32.toNat_shiftRight, Nat.shiftRight_eq_div_pow]
        rfl
      rw [← shift, not_not.mp small]
      rfl
    rw [carry, if_neg small]
    exact (wrap_of_le (by omega)).symm

/-- The complement of a sum, as the short word that is written. -/
theorem toNat_complement (sum : UInt32) :
    (~~~ (carry sum).toUInt16).toNat = 65535 - wrap 65535 sum.toNat := by
  have bound := wrap_le (m := 65535) (by decide) sum.toNat
  rw [UInt16.toNat_not, UInt32.toNat_toUInt16, toNat_carry, Nat.mod_eq_of_lt (by omega)]
  rfl

theorem sumWords_shortBytes (x : UInt16) (back : List UInt8) :
    sumWords (shortBytes x ++ back) = x.toNat + sumWords back := by
  have value := beShort_shortBytes x []
  show (x >>> 8).toUInt8.toNat * 256 + x.toUInt8.toNat + sumWords back = _
  exact congrArg (· + sumWords back) value

/-- A checksum counts in the sum of the words it stands among. -/
theorem sumWords_checksum {front : List UInt8} (even : front.length % 2 = 0) (ck : UInt16)
    (back : List UInt8) :
    sumWords (front ++ (shortBytes ck ++ back)) =
      sumWords (front ++ (shortBytes 0 ++ back)) + ck.toNat := by
  rw [sumWords_append _ _ even, sumWords_append _ _ even, sumWords_shortBytes,
    sumWords_shortBytes]
  show _ = sumWords front + (0 + sumWords back) + ck.toNat
  omega

/-- **Words with their checksum among them sum up to `0xFFFF`**, whatever is added before. -/
theorem carry_checksum (pseudo : UInt32) {front back : List UInt8} (even : front.length % 2 = 0)
    (room : pseudo.toNat + 65535 * ((front.length + back.length) / 2 + 3) < 2 ^ 32) :
    carry (pseudo + wordSum (front ++ (shortBytes (~~~ (carry (pseudo +
      wordSum (front ++ (shortBytes 0 ++ back)))).toUInt16) ++ back))) = 0xFFFF := by
  generalize same : ~~~ (carry (pseudo + wordSum (front ++ (shortBytes 0 ++ back)))).toUInt16 = ck
  have least := sumWords_le (front ++ (shortBytes 0 ++ back))
  have size : (front ++ (shortBytes 0 ++ back)).length = front.length + back.length + 2 := by
    rw [List.length_append, List.length_append]
    show front.length + (2 + back.length) = _
    omega
  have word := ck.toNat_lt
  have sum := sumWords_checksum even ck back
  have value := toNat_complement (pseudo + wordSum (front ++ (shortBytes 0 ++ back)))
  rw [same, UInt32.toNat_add, toNat_wordSum, Nat.add_mod_mod, Nat.mod_eq_of_lt (by omega)] at value
  refine UInt32.toNat_inj.mp ?_
  rw [toNat_carry, UInt32.toNat_add, toNat_wordSum, Nat.add_mod_mod, sum,
    Nat.mod_eq_of_lt (by omega), ← Nat.add_assoc, value]
  exact wrap_complement (by decide) _

/-! ## What a receiver adds up -/

/-- The sum over the IPv4 header of a frame. -/
def headerSum (frame : List UInt8) : UInt32 := carry (wordSum ((frame.drop 14).take 20))

/-- The sum over a segment and its pseudo header. -/
def segmentSum (src dst : Vector UInt8 4) (seg : List UInt8) : UInt32 :=
  carry (wordSum (src.toList ++ dst.toList) + protoTcp.toUInt32 + UInt32.ofNat seg.length +
    wordSum seg)

/-- The segment of a frame, by the length in its IPv4 header. -/
def segmentOf (frame : List UInt8) : List UInt8 := (frame.drop 34).take (beShort frame 16 - 20)

theorem carry_ipHeader (proto : UInt8) (srcIp dstIp : Vector UInt8 4) (total : UInt16) :
    carry (wordSum (ipHeader proto srcIp dstIp total)) = 0xFFFF := by
  have split : ∀ ck, ipHeaderWith proto srcIp dstIp total ck =
      ([0x45, 0] ++ shortBytes total ++ [0, 0, 0x40, 0, 64, proto]) ++
        (shortBytes ck ++ (srcIp.toList ++ dstIp.toList)) := by
    intro ck
    simp only [ipHeaderWith, List.append_assoc]
  have front : ([0x45, 0] ++ shortBytes total ++ [0, 0, 0x40, 0, 64, proto]).length = 10 := rfl
  have size : (srcIp.toList ++ dstIp.toList).length = 8 := by simp
  have sums := @carry_checksum 0 _ (srcIp.toList ++ dstIp.toList)
    (by rw [front]) (by rw [front, size]; decide)
  rw [UInt32.zero_add, UInt32.zero_add, ← split, ← split] at sums
  exact sums

theorem segmentSum_tcpSegment (srcIp dstIp : Vector UInt8 4) (dport : UInt16) (seq ack : UInt32)
    (flags : UInt8) {payload : List UInt8} (small : payload.length < 2 ^ 16) :
    segmentSum srcIp dstIp (tcpSegment srcIp dstIp dport seq ack flags payload) = 0xFFFF := by
  have split : ∀ ck, tcpSegmentWith dport seq ack flags payload ck =
      (shortBytes ourPort ++ shortBytes dport ++ beBytes seq ++ beBytes ack ++
        [(5 : UInt8) <<< 4, flags, 0x20, 0x00]) ++ (shortBytes ck ++ ([0, 0] ++ payload)) := by
    intro ck
    simp only [tcpSegmentWith, List.append_assoc]
  have front : (shortBytes ourPort ++ shortBytes dport ++ beBytes seq ++ beBytes ack ++
      [(5 : UInt8) <<< 4, flags, 0x20, 0x00]).length = 16 := rfl
  have length : ∀ ck, (tcpSegmentWith dport seq ack flags payload ck).length =
      payload.length + 20 := fun ck => rfl
  have addresses : sumWords (srcIp.toList ++ dstIp.toList) ≤ 65535 * 4 := by
    refine Nat.le_trans (sumWords_le _) (Nat.mul_le_mul_left _ ?_)
    simp
  have pseudo : (wordSum (srcIp.toList ++ dstIp.toList) + protoTcp.toUInt32 +
      UInt32.ofNat (payload.length + 20)).toNat ≤ 65535 * 4 + 6 + (payload.length + 20) := by
    rw [UInt32.toNat_add, UInt32.toNat_add, toNat_wordSum, UInt32.toNat_ofNat',
      show protoTcp.toUInt32.toNat = 6 from rfl]
    omega
  have sums := @carry_checksum (wordSum (srcIp.toList ++ dstIp.toList) + protoTcp.toUInt32 +
    UInt32.ofNat (payload.length + 20)) _ ([0, 0] ++ payload) (by rw [front]) (by
      rw [front, List.length_append]
      show _ + 65535 * ((16 + (2 + payload.length)) / 2 + 3) < 2 ^ 32
      omega)
  rw [← split, ← split] at sums
  rw [segmentSum, tcpSegment, length, tcpChecksum, length]
  exact sums

/-! ## Reading behind a front -/

section Behind

variable {front : List UInt8} {n : Nat} (behind : front.length = n) (back : List UInt8) (i : Nat)

include behind

theorem byte_behind : byte (front ++ back) (n + i) = byte back i := by
  subst behind
  rw [byte, byte, List.getD_append_right _ _ _ _ (Nat.le_add_right _ _), Nat.add_sub_cancel_left]

theorem beShort_behind : beShort (front ++ back) (n + i) = beShort back i := by
  rw [beShort, beShort, byte_behind behind, Nat.add_assoc, byte_behind behind]

theorem beLong_behind : beLong (front ++ back) (n + i) = beLong back i := by
  rw [beLong, beLong, beShort_behind behind, Nat.add_assoc, beShort_behind behind]

end Behind

/-- The kind of a frame stands behind its two addresses. -/
theorem byte_ethernetHeader (dstMac srcMac : Vector UInt8 6) (back : List UInt8) :
    byte (ethernetHeader dstMac srcMac ++ back) 12 = 0x08 ∧
      byte (ethernetHeader dstMac srcMac ++ back) 13 = 0x00 := by
  have addresses : (dstMac.toList ++ srcMac.toList).length = 12 := by simp
  rw [ethernetHeader, List.append_assoc]
  exact ⟨byte_behind addresses _ 0, byte_behind addresses _ 1⟩

/-! ## Frames that were built -/

/-- What a host reads of a frame at one of its ports: the numbers and flags of its segment, and
the payload. -/
def heardAt (port : UInt16) (rx : List UInt8) : Option (TcpHeader × List UInt8) :=
  if rx.length < 54 then none
  else if ¬ (byte rx 12 = 0x08 ∧ byte rx 13 = 0x00 ∧ byte rx 23 = protoTcp) then none
  else if beShort rx 36 ≠ port.toNat then none
  else
    let poff := 34 + (byte rx 46 >>> 4).toNat * 4
    let h : TcpHeader := ⟨beLong rx 38, beLong rx 42, byte rx 47, poff,
      min (14 + beShort rx 16) rx.length - poff⟩
    some (h, h.payload rx)

theorem ourPort_iff (rx : List UInt8) :
    byte rx 36 = (ourPort >>> 8).toUInt8 ∧ byte rx 37 = ourPort.toUInt8 ↔
      beShort rx 36 = ourPort.toNat := by
  have low := (byte rx 37).toNat_lt
  have number : ourPort.toNat = 49152 := rfl
  rw [beShort, number, show 36 + 1 = 37 from rfl]
  constructor
  · rintro ⟨high, low⟩
    rw [high, low]
    rfl
  · intro value
    refine ⟨UInt8.toNat_inj.mp ?_, UInt8.toNat_inj.mp ?_⟩
    · show (byte rx 36).toNat = 192
      omega
    · show (byte rx 37).toNat = 0
      omega

/-- At our port it is what the code reads. -/
theorem heardAt_ourPort (rx : List UInt8) :
    heardAt ourPort rx = (parseTcp rx).map fun h => (h, h.payload rx) := by
  rw [heardAt, parseTcp]
  by_cases short : rx.length < 54
  · rw [if_pos short, if_pos short]
    rfl
  by_cases tcp : byte rx 12 = 0x08 ∧ byte rx 13 = 0x00 ∧ byte rx 23 = protoTcp
  · rw [if_neg short, if_neg short, if_neg (not_not_intro tcp), if_neg (not_not_intro tcp)]
    by_cases ours : beShort rx 36 = ourPort.toNat
    · rw [if_neg (not_not_intro ours), if_neg (not_not_intro ((ourPort_iff rx).mpr ours))]
      rfl
    · rw [if_pos ours, if_pos (mt (ourPort_iff rx).mp ours)]
      rfl
  · rw [if_neg short, if_neg short, if_pos tcp, if_pos tcp]
    rfl

/-- The address of a card. -/
def sampleMac : Vector UInt8 6 := #v[0x52, 0x54, 0, 0x12, 0x34, 0x56]

section Built

variable (dstMac srcMac : Vector UInt8 6) (srcIp dstIp : Vector UInt8 4)

/-- The numbers in a segment without options. -/
theorem read_tcpSegment (dport : UInt16) (seq ack : UInt32)
    (flags : UInt8) (payload pad : List UInt8) :
    beShort (tcpSegment srcIp dstIp dport seq ack flags payload ++ pad) 2 = dport.toNat ∧
      beLong (tcpSegment srcIp dstIp dport seq ack flags payload ++ pad) 4 = seq ∧
      beLong (tcpSegment srcIp dstIp dport seq ack flags payload ++ pad) 8 = ack ∧
      byte (tcpSegment srcIp dstIp dport seq ack flags payload ++ pad) 12 = (5 : UInt8) <<< 4 ∧
      byte (tcpSegment srcIp dstIp dport seq ack flags payload ++ pad) 13 = flags :=
  ⟨beShort_shortBytes dport [], beLong_beBytes seq [], beLong_beBytes ack [], rfl, rfl⟩

theorem read_ipHeader (proto : UInt8) (total : UInt16) (back : List UInt8) :
    beShort (ipHeader proto srcIp dstIp total ++ back) 2 = total.toNat ∧
      byte (ipHeader proto srcIp dstIp total ++ back) 9 = proto :=
  ⟨beShort_shortBytes total [], rfl⟩

theorem heardAt_frame (port dport : UInt16) (seq ack : UInt32) (flags : UInt8) {payload : List UInt8}
    (pad : List UInt8) {total : UInt16} (length : total.toNat = 40 + payload.length) :
    heardAt port (ethernetHeader dstMac srcMac ++ (ipHeader protoTcp srcIp dstIp total ++
        (tcpSegment srcIp dstIp dport seq ack flags payload ++ pad))) =
      if dport = port then some (⟨seq, ack, flags, 54, payload.length⟩, payload) else none := by
  have eth : (ethernetHeader dstMac srcMac).length = 14 := length_ethernetHeader
  have header : (ethernetHeader dstMac srcMac ++ ipHeader protoTcp srcIp dstIp total).length = 34 := by
    rw [List.length_append, eth, length_ipHeader]
  obtain ⟨kind0, kind1⟩ := byte_ethernetHeader dstMac srcMac (ipHeader protoTcp srcIp dstIp total ++
    (tcpSegment srcIp dstIp dport seq ack flags payload ++ pad))
  obtain ⟨total2, proto9⟩ := read_ipHeader srcIp dstIp protoTcp total
    (tcpSegment srcIp dstIp dport seq ack flags payload ++ pad)
  obtain ⟨dest, number, acked, words, bits⟩ :=
    read_tcpSegment srcIp dstIp dport seq ack flags payload pad
  rw [← beShort_behind eth] at total2
  rw [← byte_behind eth] at proto9
  rw [← beShort_behind header] at dest
  rw [← beLong_behind header] at number acked
  rw [← byte_behind header] at words bits
  rw [List.append_assoc] at dest number acked words bits
  have size : (ethernetHeader dstMac srcMac ++ (ipHeader protoTcp srcIp dstIp total ++
      (tcpSegment srcIp dstIp dport seq ack flags payload ++ pad))).length =
      54 + payload.length + pad.length := by
    rw [List.length_append, List.length_append, List.length_append, eth, length_ipHeader]
    show 14 + (20 + (payload.length + 20 + pad.length)) = _
    omega
  have after : (ethernetHeader dstMac srcMac ++ (ipHeader protoTcp srcIp dstIp total ++
      (tcpSegment srcIp dstIp dport seq ack flags payload ++ pad))).drop 54 = payload ++ pad := by
    rw [← List.append_assoc, show 54 = 34 + 20 from rfl, ← List.drop_drop,
      List.drop_left' header]
    rfl
  generalize ethernetHeader dstMac srcMac ++ (ipHeader protoTcp srcIp dstIp total ++
    (tcpSegment srcIp dstIp dport seq ack flags payload ++ pad)) = frame at *
  rw [heardAt, if_neg (by omega), if_neg (not_not_intro ⟨kind0, kind1, proto9⟩), dest]
  by_cases toPort : dport = port
  · have offset : (byte frame 46 >>> 4).toNat * 4 = 20 := by
      rw [words]
      rfl
    have left : min (14 + beShort frame 16) frame.length - 54 = payload.length := by
      rw [total2, length, size]
      omega
    rw [if_neg (not_not_intro (congrArg UInt16.toNat toPort)), if_pos toPort]
    simp only [offset, number, acked, bits, left, TcpHeader.payload]
    rw [after, List.take_left]
  · rw [if_pos (mt UInt16.toNat_inj.mp toPort), if_neg toPort]

/-- A segment that is built fits its frame, has the sums of an undamaged one, and is read at the
port it is for. -/
theorem buildTcp_heardAt {cap : Nat} (dport : UInt16) (seq ack : UInt32) (flags : UInt8)
    {payload : List UInt8} (fits : 54 + payload.length ≤ cap)
    (small : 40 + payload.length < 2 ^ 16) :
    ∃ frame, buildTcp cap dstMac srcMac srcIp dstIp dport seq ack flags payload = some frame ∧
      frame.length = 54 + payload.length ∧ headerSum frame = 0xFFFF ∧
      segmentSum srcIp dstIp (segmentOf frame) = 0xFFFF ∧
      ∀ pad port, heardAt port (frame ++ pad) =
        if dport = port then some (⟨seq, ack, flags, 54, payload.length⟩, payload) else none := by
  have total : (UInt16.ofNat (20 + (20 + payload.length))).toNat = 40 + payload.length := by
    rw [UInt16.toNat_ofNat', Nat.mod_eq_of_lt (by omega)]
    omega
  have eth : (ethernetHeader dstMac srcMac).length = 14 := length_ethernetHeader
  have ip : (ipHeader protoTcp srcIp dstIp (UInt16.ofNat (20 + (20 + payload.length)))).length = 20 :=
    length_ipHeader protoTcp (UInt16.ofNat (20 + (20 + payload.length)))
  have seg : (tcpSegment srcIp dstIp dport seq ack flags payload).length = payload.length + 20 := rfl
  have sum := carry_ipHeader protoTcp srcIp dstIp (UInt16.ofNat (20 + (20 + payload.length)))
  have read := fun pad port =>
    heardAt_frame dstMac srcMac srcIp dstIp port dport seq ack flags pad total
  obtain ⟨total2, _⟩ := read_ipHeader srcIp dstIp protoTcp
    (UInt16.ofNat (20 + (20 + payload.length)))
    (tcpSegment srcIp dstIp dport seq ack flags payload)
  refine ⟨ethernetHeader dstMac srcMac ++ (ipHeader protoTcp srcIp dstIp
    (UInt16.ofNat (20 + (20 + payload.length))) ++
      tcpSegment srcIp dstIp dport seq ack flags payload), ?_, ?_, ?_, ?_, ?_⟩
  · rw [buildTcp, if_pos fits]
    refine congrArg some ?_
    rw [total, List.append_assoc]
    refine List.take_of_length_le ?_
    rw [List.length_append, List.length_append, eth, ip, seg]
    omega
  · rw [List.length_append, List.length_append, eth, ip, seg]
    omega
  · rw [headerSum, List.drop_left' eth, List.take_left' ip]
    exact sum
  · have header : (ethernetHeader dstMac srcMac ++ ipHeader protoTcp srcIp dstIp
        (UInt16.ofNat (20 + (20 + payload.length)))).length = 34 := by
      rw [List.length_append, eth, ip]
    rw [← beShort_behind eth, total] at total2
    rw [segmentOf, total2, ← List.append_assoc, List.drop_left' header,
      List.take_of_length_le (by rw [seg]; omega)]
    exact segmentSum_tcpSegment srcIp dstIp dport seq ack flags (by omega)
  · intro pad port
    rw [List.append_assoc, List.append_assoc]
    exact read pad port

/-- The header of a datagram and its payload. -/
def datagram (sport dport : UInt16) (payload : List UInt8) : List UInt8 :=
  shortBytes sport ++ (shortBytes dport ++ (shortBytes (UInt16.ofNat (8 + payload.length)) ++
    ([0, 0] ++ payload)))

theorem length_datagram (sport dport : UInt16) (payload : List UInt8) :
    (datagram sport dport payload).length = payload.length + 8 := rfl

theorem read_length (sport dport : UInt16) (payload pad : List UInt8) :
    beShort (datagram sport dport payload ++ pad) 4 =
      (UInt16.ofNat (8 + payload.length)).toNat := by
  rw [datagram]
  generalize UInt16.ofNat (8 + payload.length) = len
  exact beShort_shortBytes len []

theorem parseUdpPayload_frame (sport dport wantSport wantDport : UInt16) {payload : List UInt8}
    (small : 8 + payload.length < 2 ^ 16) (total : UInt16) (pad : List UInt8) :
    parseUdpPayload (ethernetHeader dstMac srcMac ++ (ipHeader protoUdp srcIp dstIp total ++
        (datagram sport dport payload ++ pad))) wantSport wantDport =
      if sport = wantSport ∧ dport = wantDport then some payload else none := by
  have eth : (ethernetHeader dstMac srcMac).length = 14 := length_ethernetHeader
  have header : (ethernetHeader dstMac srcMac ++ ipHeader protoUdp srcIp dstIp total).length = 34 := by
    rw [List.length_append, eth, length_ipHeader]
  obtain ⟨kind0, kind1⟩ := byte_ethernetHeader dstMac srcMac (ipHeader protoUdp srcIp dstIp total ++
    (datagram sport dport payload ++ pad))
  obtain ⟨_, proto9⟩ := read_ipHeader srcIp dstIp protoUdp total
    (datagram sport dport payload ++ pad)
  have from0 : beShort (datagram sport dport payload ++ pad) 0 = sport.toNat :=
    beShort_shortBytes sport []
  have to2 : beShort (datagram sport dport payload ++ pad) 2 = dport.toNat :=
    beShort_shortBytes dport []
  have length4 : beShort (datagram sport dport payload ++ pad) 4 = 8 + payload.length := by
    rw [read_length, UInt16.toNat_ofNat', Nat.mod_eq_of_lt small]
  rw [← byte_behind eth] at proto9
  rw [← beShort_behind header, List.append_assoc] at from0 to2 length4
  have size : (ethernetHeader dstMac srcMac ++ (ipHeader protoUdp srcIp dstIp total ++
      (datagram sport dport payload ++ pad))).length = 42 + payload.length + pad.length := by
    rw [List.length_append, List.length_append, List.length_append, eth, length_ipHeader,
      length_datagram]
    omega
  have after : (ethernetHeader dstMac srcMac ++ (ipHeader protoUdp srcIp dstIp total ++
      (datagram sport dport payload ++ pad))).drop 42 = payload ++ pad := by
    rw [← List.append_assoc, show 42 = 34 + 8 from rfl, ← List.drop_drop, List.drop_left' header]
    rfl
  generalize ethernetHeader dstMac srcMac ++ (ipHeader protoUdp srcIp dstIp total ++
    (datagram sport dport payload ++ pad)) = frame at *
  have left : min (beShort frame 38 - 8) (frame.length - 42) = payload.length := by
    rw [length4, size]
    omega
  rw [parseUdpPayload, if_neg (by omega), if_neg (not_not_intro ⟨kind0, kind1, proto9⟩)]
  by_cases ports : sport = wantSport ∧ dport = wantDport
  · obtain ⟨rfl, rfl⟩ := ports
    rw [if_neg (by rw [from0, to2]; exact not_or.mpr ⟨not_not_intro rfl, not_not_intro rfl⟩),
      if_pos ⟨rfl, rfl⟩, after, left, List.take_left]
  · rw [if_neg ports, if_pos]
    rw [from0, to2]
    refine Classical.not_and_iff_not_or_not.mp (mt (fun same => ?_) ports)
    exact ⟨UInt16.toNat_inj.mp same.1, UInt16.toNat_inj.mp same.2⟩

end Built

end RustyPenguin.Net
