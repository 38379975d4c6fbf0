import RustyPenguin.Net.Names

/-!
# Leasing an address

An address is leased in two rounds: the first OFFER that arrives behind a DISCOVER is asked for in
a REQUEST, and the first ACK behind that is the lease. Both rounds poll the card, at most ten
million times, for a frame that is read as the answer.

What is sent and read are options, each behind its code and length, with padding between them and
an end (`dhcpOpt_fields`). Every well-formed reply is read (`parseDhcp_reply`), and a lease is taken
exactly from an OFFER and a later ACK, for the address and the server of the OFFER
(`dhcp_leases_iff`).
-/

set_option autoImplicit false

namespace RustyPenguin.Net

open Crypto

/-! ## Polling for an answer -/

/-- Poll, at most so often, for a frame that is read. -/
def pollFor {α : Type} (parse : List UInt8 → Option α) : Nat → NetAct α
  | 0 => giveUp
  | polls + 1 => do
    match ← pollRx 1536 with
    | none => pollFor parse polls
    | some rx =>
      match parse rx with
      | none => pollFor parse polls
      | some a => pure a

section PollFor

variable {α : Type} (parse : List UInt8 → Option α)

/-- Nothing that was polled is read. -/
def Unread (polls : List (Option (List UInt8))) : Prop :=
  ∀ rx, some rx ∈ polls → parse (rx.take 1536) = none

variable {parse}

theorem pollFor_skip {found : Option (List UInt8)} {polls : List (Option (List UInt8))} {s : Nic}
    (left : s.polls = found :: polls) (unread : ∀ rx ∈ found, parse (rx.take 1536) = none) (n : Nat) :
    pollFor parse (n + 1) s = pollFor parse n { s with polls := polls } := by
  rw [pollFor, Act.bind_of_ok (pollRx_cons s 1536 left)]
  cases found with
  | none => rfl
  | some rx =>
    rw [Option.map_some]
    simp only [unread rx rfl]

theorem pollFor_found {rx : List UInt8} {a : α} {polls : List (Option (List UInt8))} {s : Nic}
    (left : s.polls = some rx :: polls) (read : parse (rx.take 1536) = some a) (n : Nat) :
    pollFor parse (n + 1) s = some (.ok a, { s with polls := polls }) := by
  rw [pollFor, Act.bind_of_ok (pollRx_cons s 1536 left), Option.map_some]
  simp only [read]
  rfl

theorem pollFor_nil {s : Nic} (none : s.polls = []) (n : Nat) :
    pollFor parse n s = some (.error (), s) := by
  induction n with
  | zero => rfl
  | succ n ih =>
    rw [pollFor, Act.bind_of_ok (pollRx_nil s 1536 none)]
    exact ih

/-- **What a number of polls finds**: the first frame that is read, if it comes in time. -/
theorem pollFor_iff (n : Nat) : ∀ {s s' : Nic} {a : α}, pollFor parse n s = some (.ok a, s') ↔
    ∃ before rx rest, s.polls = before ++ some rx :: rest ∧ before.length < n ∧
      Unread parse before ∧ parse (rx.take 1536) = some a ∧ s' = { s with polls := rest } := by
  induction n with
  | zero =>
    intro s s' a
    constructor
    · intro none
      cases none
    · rintro ⟨before, _, _, _, inTime, _⟩
      cases inTime
  | succ n ih =>
    intro s s' a
    cases left : s.polls with
    | nil =>
      rw [pollFor_nil left]
      constructor
      · intro none
        cases none
      · rintro ⟨before, rx, rest, none, _⟩
        cases before with
        | nil => cases none
        | cons head before => cases none
    | cons found polls =>
      by_cases unread : ∀ rx ∈ found, parse (rx.take 1536) = none
      · rw [pollFor_skip left unread, ih]
        constructor
        · rintro ⟨before, rx, rest, rfl, inTime, earlier, read, rfl⟩
          refine ⟨found :: before, rx, rest, rfl, Nat.succ_lt_succ inTime, ?_, read, rfl⟩
          intro other member
          rcases List.mem_cons.mp member with rfl | later
          · exact unread other rfl
          · exact earlier other later
        · rintro ⟨before, rx, rest, same, inTime, earlier, read, rfl⟩
          cases before with
          | nil =>
            cases same
            rw [unread rx rfl] at read
            cases read
          | cons head before =>
            obtain ⟨rfl, rfl⟩ := List.cons.inj same
            exact ⟨before, rx, rest, rfl, Nat.lt_of_succ_lt_succ inTime,
              fun other later => earlier other (List.mem_cons_of_mem _ later), read, rfl⟩
      · obtain ⟨rx, rfl, b, read⟩ : ∃ rx, found = some rx ∧ ∃ b, parse (rx.take 1536) = some b := by
          by_contra never
          refine unread fun rx same => ?_
          cases result : parse (rx.take 1536) with
          | none => rfl
          | some b => exact absurd ⟨rx, same, b, result⟩ never
        rw [pollFor_found left read]
        constructor
        · intro same
          cases same
          exact ⟨[], rx, polls, rfl, Nat.succ_pos n, fun _ none => (by cases none), read, rfl⟩
        · rintro ⟨before, other, rest, same, _, earlier, read', rfl⟩
          cases before with
          | nil =>
            cases same
            rw [read] at read'
            cases read'
            rfl
          | cons head before =>
            obtain ⟨rfl, rfl⟩ := List.cons.inj same
            rw [earlier rx List.mem_cons_self] at read
            cases read

end PollFor

/-! ## Options -/

/-- The value of the first option with a code. -/
def dhcpOpt (code : UInt8) (opts : List UInt8) : Option (List UInt8) :=
  match opts with
  | [] => none
  | c :: rest =>
    if c = 255 then none
    else if c = 0 then dhcpOpt code rest
    else
      match rest with
      | [] => none
      | len :: rest =>
        if rest.length < len.toNat then none
        else if c = code then some (rest.take len.toNat)
        else dhcpOpt code (rest.drop len.toNat)
termination_by opts.length
decreasing_by
  · exact Nat.lt_succ_self _
  · rw [List.length_drop, List.length_cons, List.length_cons]
    omega

/-- What stands among the options: padding, or an option. -/
inductive Field where
  | pad
  | opt (code : UInt8) (data : List UInt8)

namespace Field

def encode : Field → List UInt8
  | pad => [0]
  | opt code data => code :: UInt8.ofNat data.length :: data

/-- A code that is neither padding nor the end, and a value as long as a byte can say. -/
def Valid : Field → Prop
  | pad => True
  | opt code data => code ≠ 0 ∧ code ≠ 255 ∧ data.length < 256

/-- The value, if it is that of a code. -/
def value (code : UInt8) : Field → Option (List UInt8)
  | pad => none
  | opt c data => if c = code then some data else none

end Field

/-- **The first option with the code is found**, among any padding, and none behind the end. -/
theorem dhcpOpt_fields (code : UInt8) {fields : List Field} (valid : ∀ f ∈ fields, f.Valid)
    (back : List UInt8) : dhcpOpt code (fields.flatMap Field.encode ++ 255 :: back) =
      fields.findSome? (Field.value code) := by
  induction fields with
  | nil =>
    rw [List.flatMap_nil, List.nil_append, dhcpOpt.eq_def]
    exact if_pos rfl
  | cons f fields ih =>
    have rest := ih fun g later => valid g (List.mem_cons_of_mem _ later)
    rw [List.flatMap_cons, List.append_assoc, List.findSome?_cons]
    cases f with
    | pad =>
      show dhcpOpt code (0 :: (fields.flatMap Field.encode ++ 255 :: back)) = _
      rw [dhcpOpt.eq_def]
      exact rest
    | opt c data =>
      obtain ⟨notPad, notEnd, short⟩ := valid _ List.mem_cons_self
      have size : (UInt8.ofNat data.length).toNat = data.length := by
        rw [UInt8.toNat_ofNat', Nat.mod_eq_of_lt short]
      have fits : ¬ (data ++ (fields.flatMap Field.encode ++ 255 :: back)).length < data.length := by
        rw [List.length_append]
        omega
      show dhcpOpt code (c :: UInt8.ofNat data.length ::
        (data ++ (fields.flatMap Field.encode ++ 255 :: back))) = _
      rw [dhcpOpt.eq_def]
      simp only [if_neg notEnd, if_neg notPad, size]
      rw [if_neg fits, List.take_left, List.drop_left, rest, Field.value]
      by_cases same : c = code
      · rw [if_pos same, if_pos same]
      · rw [if_neg same, if_neg same]

/-! ## Requests -/

def dhcpXid : List UInt8 := [0x39, 0x03, 0xF3, 0x26]

def bcast : Vector UInt8 6 := Vector.replicate 6 0xFF

/-- The options of a request, before their end. -/
def dhcpFields (msgType : UInt8) (reqIp serverId : Option (Vector UInt8 4)) : List Field :=
  [.opt 53 [msgType]] ++ (reqIp.map fun ip => Field.opt 50 ip.toList).toList ++
    (serverId.map fun ip => Field.opt 54 ip.toList).toList ++ [.opt 55 [1, 3, 6, 15]]

/-- The options that are asked for and the end. -/
def dhcpOptions (msgType : UInt8) (reqIp serverId : Option (Vector UInt8 4)) : List UInt8 :=
  (dhcpFields msgType reqIp serverId).flatMap Field.encode ++ [255]

/-- The message: the header with our address, the magic number and the options. -/
def dhcpMessage (mac : Vector UInt8 6) (options : List UInt8) : List UInt8 :=
  [1, 1, 6, 0] ++ dhcpXid ++ [0, 0, 0x80, 0] ++ List.replicate 16 0 ++ mac.toList ++
    List.replicate 202 0 ++ [0x63, 0x82, 0x53, 0x63] ++ options

/-- The IPv4 header of a broadcast, around a given checksum. -/
def dhcpIpHeaderWith (total ck : UInt16) : List UInt8 :=
  [0x45, 0] ++ shortBytes total ++ [0, 0, 0, 0, 64, protoUdp] ++ shortBytes ck ++
    [0, 0, 0, 0, 255, 255, 255, 255]

def dhcpIpHeader (total : UInt16) : List UInt8 :=
  dhcpIpHeaderWith total (inetChecksum (dhcpIpHeaderWith total 0))

/-- A frame with a message of these options, from port 68 to port 67. -/
def dhcpFrame (mac : Vector UInt8 6) (options : List UInt8) : List UInt8 :=
  let message := dhcpMessage mac options
  ethernetHeader bcast mac ++ (dhcpIpHeader (UInt16.ofNat (28 + message.length)) ++
    ([0, 68, 0, 67] ++ shortBytes (UInt16.ofNat (8 + message.length)) ++ [0, 0] ++ message))

def buildDhcp (mac : Vector UInt8 6) (msgType : UInt8) (reqIp serverId : Option (Vector UInt8 4)) :
    List UInt8 := dhcpFrame mac (dhcpOptions msgType reqIp serverId)

theorem valid_dhcpFields (msgType : UInt8) (reqIp serverId : Option (Vector UInt8 4)) :
    ∀ f ∈ dhcpFields msgType reqIp serverId, f.Valid := by
  have four : ∀ ip : Vector UInt8 4, ip.toList.length < 256 := by
    intro ip
    rw [Vector.length_toList]
    decide
  intro f member
  simp only [dhcpFields, List.mem_append, Option.mem_toList,
    Option.map_eq_some_iff] at member
  rcases member with ((first | ⟨ip, _, rfl⟩) | ⟨ip, _, rfl⟩) | last
  · cases List.mem_singleton.mp first
    exact ⟨by decide, by decide, Nat.lt_of_lt_of_le (Nat.lt_succ_self 1) (by decide)⟩
  · exact ⟨by decide, by decide, four ip⟩
  · exact ⟨by decide, by decide, four ip⟩
  · cases List.mem_singleton.mp last
    exact ⟨by decide, by decide, by decide⟩

theorem carry_dhcpIpHeader (total : UInt16) : carry (wordSum (dhcpIpHeader total)) = 0xFFFF := by
  have split : ∀ ck, dhcpIpHeaderWith total ck =
      ([0x45, 0] ++ shortBytes total ++ [0, 0, 0, 0, 64, protoUdp]) ++
        (shortBytes ck ++ [0, 0, 0, 0, 255, 255, 255, 255]) := by
    intro ck
    simp only [dhcpIpHeaderWith, List.append_assoc]
  have front : ([0x45, 0] ++ shortBytes total ++ [0, 0, 0, 0, 64, protoUdp]).length = 10 := rfl
  have even : ([0x45, 0] ++ shortBytes total ++ [0, 0, 0, 0, 64, protoUdp]).length % 2 = 0 := by
    rw [front]
  have sums := @carry_checksum 0 _ [0, 0, 0, 0, 255, 255, 255, 255] even (by rw [front]; decide)
  rw [UInt32.zero_add, UInt32.zero_add, ← split, ← split] at sums
  exact sums

theorem headerSum_dhcpFrame (mac : Vector UInt8 6) (options : List UInt8) :
    headerSum (dhcpFrame mac options) = 0xFFFF := by
  have eth : (ethernetHeader bcast mac).length = 14 := length_ethernetHeader
  have ip : ∀ total, (dhcpIpHeader total).length = 20 := fun _ => rfl
  rw [headerSum, dhcpFrame, List.drop_left' eth, List.take_left' (ip _)]
  exact carry_dhcpIpHeader _

theorem drop_dhcpFrame (mac : Vector UInt8 6) (options : List UInt8) :
    (dhcpFrame mac options).drop 282 = options := by
  have eth : (ethernetHeader bcast mac).length = 14 := length_ethernetHeader
  have ip : ∀ total, (dhcpIpHeader total).length = 20 := fun _ => rfl
  have udp : ∀ len, ([0, 68, 0, 67] ++ shortBytes len ++ [0, 0]).length = 8 := fun _ => rfl
  have body : ([1, 1, 6, 0] ++ dhcpXid ++ [0, 0, 0x80, 0] ++ List.replicate 16 0 ++ mac.toList ++
      List.replicate 202 0 ++ [0x63, 0x82, 0x53, 0x63]).length = 240 := by
    simp only [List.length_append, List.length_replicate, Vector.length_toList]
    rfl
  rw [dhcpFrame, show 282 = 14 + (20 + (8 + 240)) from rfl, ← List.drop_drop, ← List.drop_drop,
    ← List.drop_drop, List.drop_left' eth, List.drop_left' (ip _), List.drop_left' (udp _),
    dhcpMessage, List.drop_left' body]

/-- **A request says what it is for**: its IPv4 header is undamaged, and whoever reads its options
finds its kind, and the address and the server it was built for. -/
theorem read_buildDhcp (mac : Vector UInt8 6) (msgType : UInt8)
    (reqIp serverId : Option (Vector UInt8 4)) :
    headerSum (buildDhcp mac msgType reqIp serverId) = 0xFFFF ∧
      dhcpOpt 53 ((buildDhcp mac msgType reqIp serverId).drop 282) = some [msgType] ∧
      dhcpOpt 50 ((buildDhcp mac msgType reqIp serverId).drop 282) = reqIp.map Vector.toList ∧
      dhcpOpt 54 ((buildDhcp mac msgType reqIp serverId).drop 282) =
        serverId.map Vector.toList := by
  have valid := valid_dhcpFields msgType reqIp serverId
  rw [buildDhcp, drop_dhcpFrame, dhcpOptions, dhcpOpt_fields 53 valid, dhcpOpt_fields 50 valid,
    dhcpOpt_fields 54 valid]
  refine ⟨headerSum_dhcpFrame mac _, rfl, ?_, ?_⟩
  · cases reqIp with
    | none =>
      cases serverId with
      | none => rfl
      | some server => rfl
    | some ip => rfl
  · cases reqIp with
    | none =>
      cases serverId with
      | none => rfl
      | some server => rfl
    | some ip =>
      cases serverId with
      | none => rfl
      | some server => rfl

/-! ## Replies -/

/-- The four bytes at a position. -/
def fourAt (rx : List UInt8) (i : Nat) : Vector UInt8 4 :=
  #v[byte rx i, byte rx (i + 1), byte rx (i + 2), byte rx (i + 3)]

/-- The server in option 54, if it has four bytes. -/
def serverOf (opts : List UInt8) : Vector UInt8 4 :=
  match dhcpOpt 54 opts with
  | some value => if length : value.length = 4 then ⟨value.toArray, length⟩ else Vector.replicate 4 0
  | none => Vector.replicate 4 0

/-- The address and the server of a reply of a kind. -/
def parseDhcp (wantType : UInt8) (rx : List UInt8) : Option (Vector UInt8 4 × Vector UInt8 4) :=
  if rx.length < 282 then none
  else if ¬ (byte rx 12 = 0x08 ∧ byte rx 13 = 0x00 ∧ byte rx 23 = protoUdp) then none
  else if ¬ (byte rx 34 = 0 ∧ byte rx 35 = 67 ∧ byte rx 36 = 0 ∧ byte rx 37 = 68) then none
  else if byte rx 42 ≠ 2 then none
  else if (fourAt rx 46).toList ≠ dhcpXid then none
  else if ¬ (byte rx 278 = 0x63 ∧ byte rx 279 = 0x82) then none
  else
    let opts := rx.drop 282
    match dhcpOpt 53 opts with
    | some (kind :: _) => if kind = wantType then some (fourAt rx 58, serverOf opts) else none
    | _ => none

/-- A reply on the wire: what it says, and what stands around it. -/
structure Reply where
  macs : Vector UInt8 12
  ipStart : Vector UInt8 9
  ipRest : Vector UInt8 10
  udpRest : Vector UInt8 4
  hardware : Vector UInt8 3
  times : Vector UInt8 8
  yiaddr : Vector UInt8 4
  names : Vector UInt8 216
  fields : List Field
  valid : ∀ f ∈ fields, f.Valid
  back : List UInt8

namespace Reply

/-- What stands before the address that is leased. -/
def front (r : Reply) : List UInt8 :=
  r.macs.toList ++ ([0x08, 0x00] ++ (r.ipStart.toList ++ ([protoUdp] ++ (r.ipRest.toList ++
    ([0, 67, 0, 68] ++ (r.udpRest.toList ++ ([2] ++ (r.hardware.toList ++ (dhcpXid ++
      r.times.toList)))))))))

def encode (r : Reply) : List UInt8 :=
  r.front ++ (r.yiaddr.toList ++ (r.names.toList ++ ([0x63, 0x82, 0x53, 0x63] ++
    (r.fields.flatMap Field.encode ++ 255 :: r.back))))

/-- The value of the option with a code. -/
def option (r : Reply) (code : UInt8) : Option (List UInt8) := r.fields.findSome? (Field.value code)

/-- The server, if it is named by four bytes. -/
def server (r : Reply) : Vector UInt8 4 :=
  match r.option 54 with
  | some value => if length : value.length = 4 then ⟨value.toArray, length⟩ else Vector.replicate 4 0
  | none => Vector.replicate 4 0

end Reply

theorem byte_at {rx back : List UInt8} (front : List UInt8) {n : Nat} (split : rx = front ++ back)
    (length : front.length = n) (i : Nat) : byte rx (n + i) = byte back i := by
  rw [split, byte_behind length]

theorem length_front (r : Reply) : r.front.length = 58 := by
  simp [Reply.front, dhcpXid]

/-- What is read of the front of a reply. -/
theorem read_front (r : Reply) (back : List UInt8) :
    (byte (r.front ++ back) 12 = 0x08 ∧ byte (r.front ++ back) 13 = 0x00 ∧
      byte (r.front ++ back) 23 = protoUdp) ∧
    (byte (r.front ++ back) 34 = 0 ∧ byte (r.front ++ back) 35 = 67 ∧ byte (r.front ++ back) 36 = 0 ∧
      byte (r.front ++ back) 37 = 68) ∧
    byte (r.front ++ back) 42 = 2 ∧ (fourAt (r.front ++ back) 46).toList = dhcpXid := by
  have kind : ∀ i, byte (r.front ++ back) (12 + i) = byte ([0x08, 0x00] ++ (r.ipStart.toList ++
      ([protoUdp] ++ (r.ipRest.toList ++ ([0, 67, 0, 68] ++ (r.udpRest.toList ++ ([2] ++
        (r.hardware.toList ++ (dhcpXid ++ r.times.toList)))))))) ++ back) i :=
    byte_at r.macs.toList (List.append_assoc _ _ _) r.macs.size_toArray
  have proto : ∀ i, byte (r.front ++ back) (23 + i) = byte (([protoUdp] ++ (r.ipRest.toList ++
      ([0, 67, 0, 68] ++ (r.udpRest.toList ++ ([2] ++ (r.hardware.toList ++ (dhcpXid ++
        r.times.toList))))))) ++ back) i :=
    byte_at (r.macs.toList ++ ([0x08, 0x00] ++ r.ipStart.toList))
      (by simp only [Reply.front, List.append_assoc]) (by simp)
  have ports : ∀ i, byte (r.front ++ back) (34 + i) = byte (([0, 67, 0, 68] ++ (r.udpRest.toList ++
      ([2] ++ (r.hardware.toList ++ (dhcpXid ++ r.times.toList))))) ++ back) i :=
    byte_at (r.macs.toList ++ ([0x08, 0x00] ++ (r.ipStart.toList ++ ([protoUdp] ++
      r.ipRest.toList)))) (by simp only [Reply.front, List.append_assoc]) (by simp)
  have op : ∀ i, byte (r.front ++ back) (42 + i) = byte (([2] ++ (r.hardware.toList ++ (dhcpXid ++
      r.times.toList))) ++ back) i :=
    byte_at (r.macs.toList ++ ([0x08, 0x00] ++ (r.ipStart.toList ++ ([protoUdp] ++
      (r.ipRest.toList ++ ([0, 67, 0, 68] ++ r.udpRest.toList))))))
      (by simp only [Reply.front, List.append_assoc]) (by simp)
  have xid : ∀ i, byte (r.front ++ back) (46 + i) = byte ((dhcpXid ++ r.times.toList) ++ back) i :=
    byte_at (r.macs.toList ++ ([0x08, 0x00] ++ (r.ipStart.toList ++ ([protoUdp] ++
      (r.ipRest.toList ++ ([0, 67, 0, 68] ++ (r.udpRest.toList ++ ([2] ++ r.hardware.toList))))))))
      (by simp only [Reply.front, List.append_assoc]) (by simp)
  refine ⟨⟨kind 0, kind 1, proto 0⟩, ⟨ports 0, ports 1, ports 2, ports 3⟩, op 0, ?_⟩
  show [_, _, _, _] = dhcpXid
  rw [xid 1, xid 2, xid 3, show byte (r.front ++ back) 46 = _ from xid 0]
  rfl

/-- **Every well-formed reply is read**: whatever stands around its address and its options, it gives
its address and server if it is of the kind that is wanted, and nothing otherwise. -/
theorem parseDhcp_reply (r : Reply) (wantType : UInt8) :
    parseDhcp wantType r.encode =
      match r.option 53 with
      | some (kind :: _) => if kind = wantType then some (r.yiaddr, r.server) else none
      | _ => none := by
  have front := length_front r
  have head : (r.front ++ (r.yiaddr.toList ++ r.names.toList)).length = 278 := by
    rw [List.length_append, front, List.length_append, Vector.length_toList, Vector.length_toList]
  have split : r.encode = (r.front ++ (r.yiaddr.toList ++ r.names.toList)) ++
      ([0x63, 0x82, 0x53, 0x63] ++ (r.fields.flatMap Field.encode ++ 255 :: r.back)) := by
    simp only [Reply.encode, List.append_assoc]
  have options : r.encode.drop 282 = r.fields.flatMap Field.encode ++ 255 :: r.back := by
    rw [split, show 282 = 278 + 4 from rfl, ← List.drop_drop, List.drop_left' head]
    rfl
  have long : ¬ r.encode.length < 282 := by
    rw [split, List.length_append, head]
    show ¬ 278 + (_ + 4) < 282
    omega
  obtain ⟨kind, ports, op, xid⟩ := read_front r (r.yiaddr.toList ++ (r.names.toList ++
    ([0x63, 0x82, 0x53, 0x63] ++ (r.fields.flatMap Field.encode ++ 255 :: r.back))))
  rw [← Reply.encode] at kind ports op xid
  have magic : byte r.encode 278 = 0x63 ∧ byte r.encode 279 = 0x82 :=
    ⟨byte_at _ split head 0, byte_at _ split head 1⟩
  have address : fourAt r.encode 58 = r.yiaddr := by
    have bytes := @bytes_behind r.front (r.names.toList ++ ([0x63, 0x82, 0x53, 0x63] ++
      (r.fields.flatMap Field.encode ++ 255 :: r.back))) r.yiaddr.toList Vector.length_toList
    rw [front] at bytes
    exact bytes
  have server : serverOf (r.encode.drop 282) = r.server := by
    rw [serverOf, options, dhcpOpt_fields 54 r.valid]
    rfl
  have value : dhcpOpt 53 (r.encode.drop 282) = r.option 53 := by
    rw [options, dhcpOpt_fields 53 r.valid]
    rfl
  rw [parseDhcp, if_neg long, if_neg (not_not_intro kind), if_neg (not_not_intro ports),
    if_neg (not_not_intro op), if_neg (not_not_intro xid), if_neg (not_not_intro magic)]
  simp only [value, server, address]

/-- The DISCOVER, and the OFFER that answers it. -/
def dhcpOffer (mac : Vector UInt8 6) : NetAct (Vector UInt8 4 × Vector UInt8 4) := do
  send (buildDhcp mac 1 none none)
  pollFor (parseDhcp 2) 10000000

/-- Lease an address. -/
def dhcp : NetAct (Vector UInt8 4) := do
  let mac ← nic
  let (yiaddr, sid) ← dhcpOffer mac
  send (buildDhcp mac 3 (some yiaddr) (some sid))
  let (ip, _) ← pollFor (parseDhcp 5) 10000000
  pure ip

theorem send_eq (frame : List UInt8) (s : Nic) :
    send frame s = some (.ok (), { s with sent := s.sent ++ [frame] }) := rfl

theorem dhcpOffer_eq (mac : Vector UInt8 6) (s : Nic) : dhcpOffer mac s =
    pollFor (parseDhcp 2) 10000000 { s with sent := s.sent ++ [buildDhcp mac 1 none none] } := rfl

/-- **When an address is leased.** Exactly when an OFFER is polled in time, the first that is read,
and behind it an ACK, in time and the first again: then the address of the ACK is leased, and what
was sent is a DISCOVER and a REQUEST for the address and the server of the OFFER. -/
theorem dhcp_leases_iff {s s' : Nic} {mac : Vector UInt8 6} (card : s.mac = some mac)
    {ip : Vector UInt8 4} :
    dhcp s = some (.ok ip, s') ↔
      ∃ before offer between ack rest yiaddr sid sid',
        s.polls = before ++ some offer :: (between ++ some ack :: rest) ∧
        (before.length < 10000000 ∧ Unread (parseDhcp 2) before) ∧
        parseDhcp 2 (offer.take 1536) = some (yiaddr, sid) ∧
        (between.length < 10000000 ∧ Unread (parseDhcp 5) between) ∧
        parseDhcp 5 (ack.take 1536) = some (ip, sid') ∧
        s' = { s with polls := rest, sent := s.sent ++
          [buildDhcp mac 1 none none, buildDhcp mac 3 (some yiaddr) (some sid)] } := by
  have present : nic s = some (.ok mac, s) := by
    rw [nic, card]
  rw [dhcp, Act.bind_of_ok present]
  constructor
  · intro leased
    rcases Act.bind_eq_some.mp leased with ⟨e, _, impossible⟩ | ⟨⟨yiaddr, sid⟩, s₁, offered, next⟩
    · cases impossible
    rw [dhcpOffer_eq] at offered
    obtain ⟨before, offer, rest₁, same₁, inTime₁, unread₁, read₁, rfl⟩ :=
      (pollFor_iff 10000000).mp offered
    have next' := (Act.bind_of_ok (send_eq _ _)).symm.trans next
    rcases Act.bind_eq_some.mp next' with ⟨e, _, impossible⟩ | ⟨⟨ip', sid'⟩, s₂, acked, last⟩
    · cases impossible
    obtain ⟨between, ack, rest₂, same₂, inTime₂, unread₂, read₂, rfl⟩ :=
      (pollFor_iff 10000000).mp acked
    cases last
    refine ⟨before, offer, between, ack, rest₂, yiaddr, sid, sid', ?_, ⟨inTime₁, unread₁⟩, read₁,
      ⟨inTime₂, unread₂⟩, read₂, ?_⟩
    · have polls : s.polls = before ++ some offer :: rest₁ := same₁
      have later : rest₁ = between ++ some ack :: rest₂ := same₂
      rw [polls, later]
    · show Nic.mk s.mac rest₂ (s.sent ++ [_] ++ [_]) = _
      rw [List.append_assoc]
      rfl
  · rintro ⟨before, offer, between, ack, rest, yiaddr, sid, sid', polls, ⟨inTime₁, unread₁⟩, read₁,
      ⟨inTime₂, unread₂⟩, read₂, rfl⟩
    have offered := (@pollFor_iff _ (parseDhcp 2) 10000000
      { s with sent := s.sent ++ [buildDhcp mac 1 none none] } _ _).mpr
      ⟨before, offer, between ++ some ack :: rest, polls, inTime₁, unread₁, read₁, rfl⟩
    have acked := (@pollFor_iff _ (parseDhcp 5) 10000000
      ⟨s.mac, between ++ some ack :: rest, s.sent ++ [buildDhcp mac 1 none none] ++
        [buildDhcp mac 3 (some yiaddr) (some sid)]⟩ _ _).mpr
      ⟨between, ack, rest, rfl, inTime₂, unread₂, read₂, rfl⟩
    rw [← dhcpOffer_eq] at offered
    rw [Act.bind_of_ok offered]
    refine (Act.bind_of_ok (send_eq _ _)).trans ?_
    refine (Act.bind_of_ok acked).trans ?_
    show some (Except.ok ip, Nic.mk s.mac rest (s.sent ++ [_] ++ [_])) = _
    rw [List.append_assoc]
    rfl

/-- A reply of a kind, from a server that leases us our address. -/
def sampleReply (kind : UInt8) : Reply where
  macs := Vector.replicate 12 0
  ipStart := Vector.replicate 9 0
  ipRest := Vector.replicate 10 0
  udpRest := Vector.replicate 4 0
  hardware := Vector.replicate 3 0
  times := Vector.replicate 8 0
  yiaddr := ourIp
  names := Vector.replicate 216 0
  fields := [.pad, .opt 53 [kind], .opt 54 dnsIp.toList]
  valid := by
    intro f member
    simp only [List.mem_cons, List.not_mem_nil, or_false] at member
    rcases member with rfl | rfl | rfl
    · trivial
    · exact ⟨by decide, by decide, Nat.lt_of_lt_of_le (Nat.lt_succ_self 1) (by decide)⟩
    · exact ⟨by decide, by decide, by rw [Vector.length_toList]; decide⟩
  back := [0]

theorem take_sampleReply (kind : UInt8) :
    (sampleReply kind).encode.take 1536 = (sampleReply kind).encode := by
  refine List.take_of_length_le ?_
  rw [Reply.encode, List.length_append, length_front, List.length_append, Vector.length_toList,
    List.length_append, Vector.length_toList]
  exact Nat.le_of_ble_eq_true rfl

theorem dhcp_leases_iff_sample :
    dhcp ⟨some (Vector.replicate 6 0), [none, some (sampleReply 2).encode, some [],
        some (sampleReply 5).encode], []⟩ =
      some (.ok ourIp, ⟨some (Vector.replicate 6 0), [],
        [buildDhcp (Vector.replicate 6 0) 1 none none,
          buildDhcp (Vector.replicate 6 0) 3 (some ourIp) (some dnsIp)]⟩) := by
  have offer : parseDhcp 2 ((sampleReply 2).encode.take 1536) = some (ourIp, dnsIp) := by
    rw [take_sampleReply, parseDhcp_reply]
    rfl
  have ack : parseDhcp 5 ((sampleReply 5).encode.take 1536) = some (ourIp, dnsIp) := by
    rw [take_sampleReply, parseDhcp_reply]
    rfl
  refine (dhcp_leases_iff rfl).mpr ⟨[none], _, [some []], _, [], _, _, _, rfl,
    ⟨by decide, ?_⟩, offer, ⟨by decide, ?_⟩, ack, rfl⟩
  · intro rx member
    cases List.mem_singleton.mp member
  · intro rx member
    cases List.mem_singleton.mp member
    rfl

end RustyPenguin.Net
