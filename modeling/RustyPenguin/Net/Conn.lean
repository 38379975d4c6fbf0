import RustyPenguin.Foundation.Segments
import RustyPenguin.Net.Frames

/-!
# Receiving over a connection

A connection keeps the number of the next byte it expects. A receive polls the card until a
segment with that number arrives, acknowledges it and hands its payload over; segments with other
numbers are dropped. A FIN is reported by the receive after the one that hands over the last byte.

Against the stream as the peer numbers it, a connection is the receiver that takes segments in
order only (`recv_hears`), as long as no segment arrives from so far away that its 32-bit number
is the one expected.
-/

set_option autoImplicit false

namespace RustyPenguin.Net

open Crypto

structure TcpConn where
  gwMac : Vector UInt8 6
  ourMac : Vector UInt8 6
  dstIp : Vector UInt8 4
  dport : UInt16
  /-- Our next sequence number. -/
  snd : UInt32
  /-- The next sequence number expected from the peer. -/
  rcv : UInt32
  pendingFin : Bool
  closed : Bool

namespace TcpConn

/-- Acknowledge what was received. -/
def sendAck (conn : TcpConn) : NetAct Unit :=
  sendTcp 1600 conn.gwMac conn.ourMac conn.dstIp conn.dport conn.snd conn.rcv tcpAck []

/-- `plen` bytes received, and a FIN behind them. -/
def advance (conn : TcpConn) (plen : Nat) (fin : Bool) : TcpConn :=
  { conn with
    rcv := conn.rcv + UInt32.ofNat plen + if fin then 1 else 0
    pendingFin := conn.pendingFin || fin }

/-- A FIN received on its own. -/
def finish (conn : TcpConn) : TcpConn := { conn with rcv := conn.rcv + 1 }

def markClosed (conn : TcpConn) : TcpConn := { conn with closed := true }

/-- Poll for the next segment expected, with room for `room` bytes. -/
def recvLoop (room : Nat) (conn : TcpConn) : Nat → NetAct (List UInt8 × TcpConn)
  | 0 => giveUp
  | polls + 1 => do
    match ← pollRx 1600 with
    | none => recvLoop room conn polls
    | some rx =>
      match parseTcp rx with
      | none => recvLoop room conn polls
      | some h =>
        if has h.flags tcpRst then pure ([], conn.markClosed)
        else if 0 < h.plen ∧ h.seq = conn.rcv then do
          let conn := conn.advance h.plen (has h.flags tcpFin)
          conn.sendAck
          pure ((h.payload rx).take room, conn)
        else if has h.flags tcpFin ∧ h.seq = conn.rcv then do
          let conn := conn.finish
          conn.sendAck
          pure ([], conn.markClosed)
        else recvLoop room conn polls

/-- How often a receive polls. -/
def recvPolls : Nat := 20000000

/-- Receive the next bytes of the stream, or none at its end. -/
def recv (conn : TcpConn) (room : Nat) : NetAct (List UInt8 × TcpConn) :=
  if conn.pendingFin then pure ([], { conn with pendingFin := false, closed := true })
  else do
    let _ ← nic
    recvLoop room conn recvPolls

/-- One receive after another, each with room for so many bytes: what they return. A receive
that times out returns nothing. -/
def recvs : List Nat → TcpConn → Nic → List (Option (List UInt8))
  | [], _, _ => []
  | room :: rooms, conn, s =>
    match conn.recv room s with
    | some (.ok (data, conn'), s') => some data :: recvs rooms conn' s'
    | some (.error (), s') => none :: recvs rooms conn s'
    | none => []

end TcpConn

/-! ## Frames of the peer -/

/-- What a poll finds shows what has arrived of the peer's stream, whose first byte has the number
`start`: no segment for our port, one with nothing in it, or the segment. -/
def Shows (start : UInt32) (found : Option (List UInt8)) (seg? : Option (Segment UInt8)) : Prop :=
  match found.bind parseTcp with
  | none => seg? = none
  | some h =>
    match seg? with
    | none => h.plen = 0 ∧ has h.flags tcpFin = false
    | some seg => h.seq = start + UInt32.ofNat seg.offset ∧
        (∀ rx ∈ found, h.payload rx = seg.data) ∧ has h.flags tcpFin = seg.last

/-- What the polls of a card find, in buffers of `size` bytes. -/
def Arrive (size : Nat) (start : UInt32) (polls : List (Option (List UInt8)))
    (arrivals : List (Option (Segment UInt8))) : Prop :=
  List.Forall₂ (fun found seg? => Shows start (found.map (List.take size)) seg?) polls arrivals

/-- None of the frames carries a reset. -/
def NoReset (size : Nat) (polls : List (Option (List UInt8))) : Prop :=
  ∀ rx, some rx ∈ polls → ∀ h, parseTcp (rx.take size) = some h → has h.flags tcpRst = false

section Shows

variable {start : UInt32} {rx : List UInt8} {h : TcpHeader} {seg : Segment UInt8}
  {seg? : Option (Segment UInt8)} {r : Receiver UInt8}

theorem shows_none (shows : Shows start none seg?) : seg? = none := shows

theorem shows_foreign (shows : Shows start (some rx) seg?) (foreign : parseTcp rx = none) :
    seg? = none := by
  rw [Shows, Option.bind_some, foreign] at shows
  exact shows

theorem shows_parsed (shows : Shows start (some rx) seg?) (parsed : parseTcp rx = some h) :
    (seg? = none ∧ h.plen = 0 ∧ has h.flags tcpFin = false) ∨
      ∃ seg, seg? = some seg ∧ h.seq = start + UInt32.ofNat seg.offset ∧
        h.payload rx = seg.data ∧ has h.flags tcpFin = seg.last := by
  rw [Shows, Option.bind_some, parsed] at shows
  cases seg? with
  | none => exact .inl ⟨rfl, shows⟩
  | some seg => exact .inr ⟨seg, rfl, shows.1, shows.2.1 rx rfl, shows.2.2⟩

theorem ofNat_inj_iff (a b : Nat) :
    UInt32.ofNat a = UInt32.ofNat b ↔ a ≡ b [MOD 2 ^ 32] := by
  rw [← UInt32.toNat_inj, UInt32.toNat_ofNat', UInt32.toNat_ofNat']
  exact Iff.rfl

/-- The next number is that of the next place, for a segment that is near. -/
theorem number_expected (within : r.Within (2 ^ 32) seg) :
    start + UInt32.ofNat seg.offset = start + UInt32.ofNat r.next ↔ seg.offset = r.next := by
  rw [UInt32.add_right_inj, ofNat_inj_iff]
  exact Receiver.number_eq_iff within

end Shows

/-! ## The peer's frames -/

/-- A frame to our port. -/
def frameToUs (seq ack : UInt32) (flags : UInt8) (payload : List UInt8) : List UInt8 :=
  ethernetHeader (Vector.replicate 6 0) (Vector.replicate 6 0) ++
    (ipHeader protoTcp ourIp ourIp (UInt16.ofNat (40 + payload.length)) ++
      tcpSegment ourIp ourIp ourPort seq ack flags payload)

theorem length_frameToUs (seq ack : UInt32) (flags : UInt8) (payload : List UInt8) :
    (frameToUs seq ack flags payload).length = payload.length + 54 := rfl

theorem parseTcp_frameToUs (seq ack : UInt32) (flags : UInt8) {payload : List UInt8}
    (fits : payload.length ≤ 1460) :
    parseTcp (frameToUs seq ack flags payload) = some ⟨seq, ack, flags, 54, payload.length⟩ := by
  have total : beShort (frameToUs seq ack flags payload) 16 = 40 + payload.length := by
    refine (beShort_shortBytes (UInt16.ofNat (40 + payload.length)) []).trans ?_
    rw [UInt16.toNat_ofNat']
    omega
  have number : beLong (frameToUs seq ack flags payload) 38 = seq := beLong_beBytes seq []
  have acked : beLong (frameToUs seq ack flags payload) 42 = ack := beLong_beBytes ack []
  have bits : byte (frameToUs seq ack flags payload) 47 = flags := rfl
  have words : byte (frameToUs seq ack flags payload) 46 = (5 : UInt8) <<< 4 := rfl
  have header : ((5 : UInt8) <<< 4 >>> 4).toNat * 4 = 20 := by decide
  have left : min (14 + (40 + payload.length)) (payload.length + 54) - (34 + 20) =
      payload.length := by
    omega
  rw [parseTcp, if_neg (by rw [length_frameToUs]; omega),
    if_neg (not_not_intro ⟨rfl, rfl, rfl⟩), if_neg (not_not_intro ⟨rfl, rfl⟩)]
  simp only [number, acked, bits, total, words, header, length_frameToUs, left]

/-- The frame in which the peer sends a segment. -/
def peerFrame (start : UInt32) (seg : Segment UInt8) : List UInt8 :=
  frameToUs (start + UInt32.ofNat seg.offset) 0 (if seg.last then tcpFin ||| tcpAck else tcpAck)
    seg.data

/-- A card that finds the peer's segments one after the other. -/
def cardWith (start : UInt32) (segs : List (Segment UInt8)) : Nic where
  mac := some (Vector.replicate 6 0)
  polls := segs.map fun seg => some (peerFrame start seg)
  sent := []

section PeerFrame

variable {size : Nat} {start : UInt32} {seg : Segment UInt8}

theorem take_peerFrame (roomy : 1514 ≤ size) (fits : seg.data.length ≤ 1460) :
    (peerFrame start seg).take size = peerFrame start seg := by
  refine List.take_of_length_le ?_
  rw [peerFrame, length_frameToUs]
  omega

theorem parseTcp_peerFrame (fits : seg.data.length ≤ 1460) :
    ∃ h, parseTcp (peerFrame start seg) = some h ∧ h.seq = start + UInt32.ofNat seg.offset ∧
      h.payload (peerFrame start seg) = seg.data ∧ has h.flags tcpFin = seg.last ∧
      has h.flags tcpRst = false := by
  have flags : has (if seg.last then tcpFin ||| tcpAck else tcpAck) tcpFin = seg.last ∧
      has (if seg.last then tcpFin ||| tcpAck else tcpAck) tcpRst = false := by
    cases seg.last with
    | true => decide
    | false => decide
  exact ⟨_, parseTcp_frameToUs _ _ _ fits, rfl, List.take_length, flags⟩

theorem shows_peerFrame (roomy : 1514 ≤ size) (fits : seg.data.length ≤ 1460) :
    Shows start (some ((peerFrame start seg).take size)) (some seg) := by
  obtain ⟨h, parsed, number, payload, fin, _⟩ := @parseTcp_peerFrame start seg fits
  rw [take_peerFrame roomy fits, Shows, Option.bind_some, parsed]
  refine ⟨number, ?_, fin⟩
  intro rx same
  obtain rfl := Option.some.inj same
  exact payload

theorem arrive_cardWith (roomy : 1514 ≤ size) (start : UInt32) (segs : List (Segment UInt8))
    (fits : ∀ seg ∈ segs, seg.data.length ≤ 1460) :
    Arrive size start (cardWith start segs).polls (segs.map some) := by
  induction segs with
  | nil => exact .nil
  | cons seg segs ih =>
    refine .cons (shows_peerFrame roomy (fits seg List.mem_cons_self)) (ih ?_)
    intro later here
    exact fits later (List.mem_cons_of_mem _ here)

theorem noReset_cardWith (roomy : 1514 ≤ size) (start : UInt32) (segs : List (Segment UInt8))
    (fits : ∀ seg ∈ segs, seg.data.length ≤ 1460) : NoReset size (cardWith start segs).polls := by
  intro rx here h parsed
  obtain ⟨seg, found, same⟩ := List.mem_map.mp here
  obtain rfl := Option.some.inj same
  rw [take_peerFrame roomy (fits seg found)] at parsed
  obtain ⟨h', parsed', _, _, _, notReset⟩ := @parseTcp_peerFrame start seg (fits seg found)
  rw [parsed] at parsed'
  obtain rfl := Option.some.inj parsed'
  exact notReset

end PeerFrame

/-! ## A connection and its receiver -/

/-- The connection expects what the receiver expects, and remembers a FIN only at the end. -/
structure Tracks (start : UInt32) (conn : TcpConn) (r : Receiver UInt8) : Prop where
  rcv : conn.rcv = start + UInt32.ofNat r.next
  fin : conn.pendingFin = true → r.ended = true

/-- What is still to arrive at the card: segments of `stream`, none longer than `room`, each near
the place expected when it arrives. -/
structure Fed (start : UInt32) (stream : List UInt8) (room : Nat) (r : Receiver UInt8) (s : Nic)
    (arrivals : List (Option (Segment UInt8))) : Prop where
  arrive : Arrive 1600 start s.polls arrivals
  noReset : NoReset 1600 s.polls
  near : r.Near (2 ^ 32) arrivals
  parts : ∀ seg, some seg ∈ arrivals → seg.Of stream
  fits : ∀ seg, some seg ∈ arrivals → seg.data.length ≤ room

section Receive

variable {start : UInt32} {stream : List UInt8} {room : Nat} {conn : TcpConn}
  {r : Receiver UInt8} {s : Nic} {arrivals : List (Option (Segment UInt8))}

theorem pollRx_nil (s : Nic) (size : Nat) (none : s.polls = []) :
    pollRx size s = some (.ok .none, s) := by
  rw [pollRx, none]

theorem pollRx_cons (s : Nic) (size : Nat) {found : Option (List UInt8)}
    {polls : List (Option (List UInt8))} (some : s.polls = found :: polls) :
    pollRx size s = .some (.ok (found.map (List.take size)), { s with polls := polls }) := by
  rw [pollRx, some]

/-- What is to arrive after the first. -/
theorem Fed.tail {seg? : Option (Segment UInt8)} {found : Option (List UInt8)}
    {polls : List (Option (List UInt8))} (fed : Fed start stream room r s (seg? :: arrivals))
    (first : s.polls = found :: polls) :
    Fed start stream room (r.hear seg?) { s with polls := polls } arrivals where
  arrive := by
    have arrive := fed.arrive
    rw [first] at arrive
    cases arrive with
    | cons _ rest => exact rest
  noReset rx later := fed.noReset rx (first ▸ List.mem_cons_of_mem _ later)
  near := by
    have near := fed.near
    cases seg? with
    | none => exact near
    | some seg => exact near.2
  parts seg later := fed.parts seg (List.mem_cons_of_mem _ later)
  fits seg later := fed.fits seg (List.mem_cons_of_mem _ later)

variable {rx : List UInt8} {h : TcpHeader} {seg? : Option (Segment UInt8)}

/-- A segment with another number, or with nothing in it, is not one the receiver takes. -/
theorem Tracks.passed (tracks : Tracks start conn r) (sound : r.Sound stream)
    (shows : Shows start (some rx) seg?) (parsed : parseTcp rx = some h)
    (within : ∀ seg ∈ seg?, r.Within (2 ^ 32) seg) (parts : ∀ seg ∈ seg?, seg.Of stream)
    (unexpected : h.seq ≠ conn.rcv ∨ (h.plen = 0 ∧ has h.flags tcpFin = false)) :
    r.hear seg? = r := by
  rcases shows_parsed shows parsed with ⟨rfl, _⟩ | ⟨seg, rfl, number, payload, fin⟩
  · rfl
  rw [Receiver.hear]
  rcases unexpected with other | ⟨none, notFin⟩
  · refine if_neg fun next => other ?_
    rw [number, tracks.rcv, number_expected (within seg rfl)]
    exact next
  · cases ended : r.ended with
    | true => exact Receiver.accept_of_ended sound ended (parts seg rfl)
    | false =>
      refine Receiver.accept_nothing ended ?_ (fin ▸ notFin)
      rw [← payload, ← List.length_eq_zero_iff, length_payload parsed]
      exact none

/-- A segment with the number expected is the one the receiver takes. -/
theorem Tracks.taken (tracks : Tracks start conn r) (sound : r.Sound stream)
    (shows : Shows start (some rx) seg?) (parsed : parseTcp rx = some h)
    (within : ∀ seg ∈ seg?, r.Within (2 ^ 32) seg) (parts : ∀ seg ∈ seg?, seg.Of stream)
    (expected : h.seq = conn.rcv) (something : 0 < h.plen ∨ has h.flags tcpFin = true) :
    r.ended = false ∧ r.hear seg? = ⟨r.taken ++ h.payload rx, has h.flags tcpFin⟩ ∧
      ∃ seg ∈ seg?, h.payload rx = seg.data := by
  rcases shows_parsed shows parsed with ⟨_, none, notFin⟩ | ⟨seg, rfl, number, payload, fin⟩
  · rw [none, notFin] at something
    rcases something with some | isFin
    · cases some
    · cases isFin
  have next : seg.offset = r.next := by
    rw [number, tracks.rcv, number_expected (within seg rfl)] at expected
    exact expected
  refine ⟨?_, ?_, seg, rfl, payload⟩
  · cases ended : r.ended with
    | false => rfl
    | true =>
      have inside := (parts seg rfl).inside
      rw [next, Receiver.next, ended, sound.whole ended, if_pos rfl] at inside
      omega
  · rw [Receiver.hear, Receiver.accept, if_pos next, payload, fin]

/-- A connection that advances tracks the receiver that took the segment. -/
theorem Tracks.advance (tracks : Tracks start conn r) (going : r.ended = false) {data : List UInt8}
    {plen : Nat} (size : data.length = plen) (fin : Bool) :
    Tracks start (conn.advance plen fin) ⟨r.taken ++ data, fin⟩ where
  rcv := by
    show conn.rcv + UInt32.ofNat plen + (if fin then 1 else 0) = _
    rw [tracks.rcv, Receiver.next, Receiver.next, going, List.length_append, size,
      UInt32.ofNat_add, UInt32.ofNat_add, UInt32.ofNat_add]
    cases fin with
    | true => simp [UInt32.add_assoc]
    | false => simp [UInt32.add_assoc]
  fin := by
    intro pending
    have none : conn.pendingFin = false := by
      cases same : conn.pendingFin with
      | false => rfl
      | true => exact absurd (tracks.fin same) (by rw [going]; exact Bool.false_ne_true)
    have isFin : (conn.pendingFin || fin) = true := pending
    rw [none, Bool.false_or] at isFin
    exact isFin

/-- A connection that has received a FIN on its own tracks what one that advances by it does. -/
theorem Tracks.finished {r : Receiver UInt8} (tracks : Tracks start (conn.advance 0 true) r) :
    Tracks start conn.finish.markClosed r where
  rcv := by
    have rcv := tracks.rcv
    rw [← rcv]
    show conn.rcv + 1 = conn.rcv + UInt32.ofNat 0 + 1
    simp
  fin := by
    intro pending
    exact tracks.fin (Bool.or_true _)

/-- Sending does not change what is to arrive. -/
theorem Fed.sent {arrivals : List (Option (Segment UInt8))}
    (fed : Fed start stream room r s arrivals) (frames : List (List UInt8)) :
    Fed start stream room r { s with sent := frames } arrivals :=
  ⟨fed.arrive, fed.noReset, fed.near, fed.parts, fed.fits⟩

theorem sendAck_eq (conn : TcpConn) : ∃ frame, conn.sendAck = send frame :=
  sendTcp_eq (by decide)

/-- A receive has heard some of what was to arrive, and `data` was taken of it. -/
structure After (start : UInt32) (stream : List UInt8) (room : Nat) (r : Receiver UInt8)
    (arrivals : List (Option (Segment UInt8))) (data : List UInt8) (conn' : TcpConn) (s' : Nic)
    (r' : Receiver UInt8) : Prop where
  heard : ∃ heard rest, arrivals = heard ++ rest ∧ r' = heard.foldl Receiver.hear r ∧
    Fed start stream room r' s' rest
  tracks : Tracks start conn' r'
  taken : r'.taken = r.taken ++ data

/-- What was heard before, and what is heard now. -/
theorem After.cons {seg? : Option (Segment UInt8)} {data : List UInt8} {conn' : TcpConn}
    {s' : Nic} {r' : Receiver UInt8} (same : r.hear seg? = r)
    (after : After start stream room r arrivals data conn' s' r') :
    After start stream room r (seg? :: arrivals) data conn' s' r' := by
  obtain ⟨⟨heard, rest, rfl, after, fed⟩, tracks, taken⟩ := after
  refine ⟨⟨seg? :: heard, rest, rfl, ?_, fed⟩, tracks, taken⟩
  rw [List.foldl_cons, same]
  exact after

/-- What a receive returns, against the receiver that takes segments in order. -/
def Hears (start : UInt32) (stream : List UInt8) (room : Nat) (conn : TcpConn)
    (r : Receiver UInt8) (arrivals : List (Option (Segment UInt8)))
    (result : Except Unit (List UInt8 × TcpConn)) (s' : Nic) : Prop :=
  match result with
  | .error _ => ∃ r', After start stream room r arrivals [] conn s' r'
  | .ok (data, conn') => ∃ r', After start stream room r arrivals data conn' s' r' ∧
      (data = [] → r'.ended = true)

theorem Hears.cons {seg? : Option (Segment UInt8)} {s' : Nic}
    {result : Except Unit (List UInt8 × TcpConn)} (same : r.hear seg? = r)
    (hears : Hears start stream room conn r arrivals result s') :
    Hears start stream room conn r (seg? :: arrivals) result s' := by
  match result, hears with
  | .error _, ⟨r', after⟩ => exact ⟨r', after.cons same⟩
  | .ok (data, conn'), ⟨r', after, atEnd⟩ => exact ⟨r', after.cons same, atEnd⟩

/-- **The loop of a receive hears the stream in order.** -/
theorem recvLoop_hears (sound : r.Sound stream) (tracks : Tracks start conn r) (polls : Nat) :
    ∀ {s : Nic} {arrivals : List (Option (Segment UInt8))}, Fed start stream room r s arrivals →
      ∃ result s', conn.recvLoop room polls s = some (result, s') ∧
        Hears start stream room conn r arrivals result s' := by
  induction polls with
  | zero =>
    intro s arrivals fed
    exact ⟨.error (), s, rfl, r, ⟨[], arrivals, rfl, rfl, fed⟩, tracks, (List.append_nil _).symm⟩
  | succ polls ih =>
    intro s arrivals fed
    rw [TcpConn.recvLoop]
    cases left : s.polls with
    | nil =>
      rw [Act.bind_of_ok (pollRx_nil s 1600 left)]
      exact ih fed
    | cons found later =>
      rw [Act.bind_of_ok (pollRx_cons s 1600 left)]
      obtain ⟨seg?, rest, rfl⟩ : ∃ seg? rest, arrivals = seg? :: rest := by
        have arrive := fed.arrive
        rw [left] at arrive
        cases arrive with
        | cons _ _ => exact ⟨_, _, rfl⟩
      have shows : Shows start (found.map (List.take 1600)) seg? := by
        have arrive := fed.arrive
        rw [left] at arrive
        cases arrive with
        | cons shows _ => exact shows
      have next := fed.tail left
      have parts : ∀ seg ∈ seg?, seg.Of stream := by
        intro seg here
        exact fed.parts seg (here ▸ List.mem_cons_self)
      have fits : ∀ seg ∈ seg?, seg.data.length ≤ room := by
        intro seg here
        exact fed.fits seg (here ▸ List.mem_cons_self)
      have within : ∀ seg ∈ seg?, r.Within (2 ^ 32) seg := by
        rintro seg rfl
        exact fed.near.1
      have goOn : r.hear seg? = r → ∃ result s', conn.recvLoop room polls
          { s with polls := later } = some (result, s') ∧
            Hears start stream room conn r (seg? :: rest) result s' := by
        intro same
        rw [same] at next
        obtain ⟨result, s', ends, hears⟩ := ih next
        exact ⟨result, s', ends, hears.cons same⟩
      cases arrived : found.map (List.take 1600) with
      | none =>
        rw [arrived] at shows
        exact goOn (by rw [shows_none shows]; rfl)
      | some rx =>
        rw [arrived] at shows
        cases parsed : parseTcp rx with
        | none =>
          simp only [parsed]
          exact goOn (by rw [shows_foreign shows parsed]; rfl)
        | some h =>
          have notReset : has h.flags tcpRst = false := by
            obtain ⟨frame, rfl, rfl⟩ := Option.map_eq_some_iff.mp arrived
            exact fed.noReset frame (left ▸ List.mem_cons_self) h parsed
          simp only [parsed]
          rw [if_neg (by rw [notReset]; exact Bool.false_ne_true)]
          by_cases inOrder : 0 < h.plen ∧ h.seq = conn.rcv
          · rw [if_pos inOrder]
            obtain ⟨going, taken, seg, here, payload⟩ :=
              tracks.taken sound shows parsed within parts inOrder.2 (.inl inOrder.1)
            have size := length_payload parsed
            have whole : (h.payload rx).take room = h.payload rx :=
              List.take_of_length_le (payload ▸ fits seg here)
            obtain ⟨frame, sent⟩ := sendAck_eq (conn.advance h.plen (has h.flags tcpFin))
            refine ⟨.ok ((h.payload rx).take room, conn.advance h.plen (has h.flags tcpFin)),
              { s with polls := later, sent := s.sent ++ [frame] }, by rw [sent]; rfl, r.hear seg?,
              ⟨⟨[seg?], rest, rfl, rfl, next.sent _⟩, ?_, ?_⟩, ?_⟩
            · rw [taken]
              exact tracks.advance going size _
            · rw [taken, whole]
            · intro none
              rw [whole] at none
              rw [none] at size
              exact absurd inOrder.1 (by rw [← size]; exact Nat.lt_irrefl 0)
          · rw [if_neg inOrder]
            by_cases atEnd : has h.flags tcpFin = true ∧ h.seq = conn.rcv
            · rw [if_pos atEnd]
              obtain ⟨going, taken, _⟩ :=
                tracks.taken sound shows parsed within parts atEnd.2 (.inr atEnd.1)
              have none : h.plen = 0 := by
                by_contra some
                exact inOrder ⟨Nat.pos_of_ne_zero some, atEnd.2⟩
              have empty : h.payload rx = [] := by
                rw [← List.length_eq_zero_iff, length_payload parsed, none]
              obtain ⟨frame, sent⟩ := sendAck_eq conn.finish
              refine ⟨.ok ([], conn.finish.markClosed),
                { s with polls := later, sent := s.sent ++ [frame] }, by rw [sent]; rfl,
                r.hear seg?, ⟨⟨[seg?], rest, rfl, rfl, next.sent _⟩, ?_, ?_⟩, ?_⟩
              · rw [taken, empty, atEnd.1]
                exact (tracks.advance going (List.length_nil) true).finished
              · rw [taken, empty]
              · intro _
                rw [taken]
                exact atEnd.1
            · rw [if_neg atEnd]
              refine goOn (tracks.passed sound shows parsed within parts ?_)
              by_cases other : h.seq = conn.rcv
              · refine .inr ⟨?_, ?_⟩
                · by_contra some
                  exact inOrder ⟨Nat.pos_of_ne_zero some, other⟩
                · by_contra fin
                  exact atEnd ⟨Bool.not_eq_false _ ▸ fin, other⟩
              · exact .inl other

/-- **A receive hears the stream in order.** -/
theorem recv_hears (sound : r.Sound stream) (tracks : Tracks start conn r)
    (fed : Fed start stream room r s arrivals) :
    ∃ result s', conn.recv room s = some (result, s') ∧
      Hears start stream room conn r arrivals result s' := by
  rw [TcpConn.recv]
  have nothing : ([] : List (Option (Segment UInt8))) ++ arrivals = arrivals := rfl
  cases pending : conn.pendingFin with
  | true =>
    refine ⟨.ok ([], { conn with pendingFin := false, closed := true }), s, rfl, r, ?_, ?_⟩
    · exact ⟨⟨[], arrivals, rfl, rfl, fed⟩, ⟨tracks.rcv, fun none => (nomatch none)⟩,
        (List.append_nil _).symm⟩
    · intro _
      exact tracks.fin pending
  | false =>
    rw [if_neg Bool.false_ne_true]
    cases card : s.mac with
    | none =>
      have none : nic s = some (.error (), s) := by rw [nic, card]
      rw [Act.bind_of_error none]
      exact ⟨.error (), s, rfl, r, ⟨[], arrivals, rfl, rfl, fed⟩, tracks,
        (List.append_nil _).symm⟩
    | some mac =>
      have some : nic s = some (.ok mac, s) := by rw [nic, card]
      rw [Act.bind_of_ok some]
      exact recvLoop_hears sound tracks TcpConn.recvPolls fed

end Receive

/-! ## Everything a connection delivers -/

/-- What receives have returned, one after the other. -/
def delivered (results : List (Option (List UInt8))) : List UInt8 := results.reduceOption.flatten

theorem delivered_some (data : List UInt8) (results : List (Option (List UInt8))) :
    delivered (some data :: results) = data ++ delivered results := rfl

theorem delivered_none (results : List (Option (List UInt8))) :
    delivered (none :: results) = delivered results := rfl

section Run

variable {start : UInt32} {stream : List UInt8}

/-- A run of receives, from any point of the stream on. -/
theorem recvs_hear {rooms : List Nat} : ∀ {conn : TcpConn} {r : Receiver UInt8} {s : Nic}
    {arrivals : List (Option (Segment UInt8))}, r.Sound stream → Tracks start conn r →
    (∀ room ∈ rooms, Fed start stream room r s arrivals) →
    r.taken ++ delivered (conn.recvs rooms s) <+: stream ∧
      ∀ k, (conn.recvs rooms s)[k]? = some (some []) →
        r.taken ++ delivered ((conn.recvs rooms s).take k) = stream := by
  induction rooms with
  | nil =>
    intro conn r s arrivals sound _ _
    refine ⟨?_, fun k none => (nomatch none)⟩
    exact (List.append_nil r.taken).symm ▸ sound.isPrefix
  | cons room rooms ih =>
    intro conn r s arrivals sound tracks fed
    obtain ⟨result, s', ends, hears⟩ := recv_hears sound tracks (fed room List.mem_cons_self)
    rw [TcpConn.recvs, ends]
    have onwards : ∀ {data conn' r'}, After start stream room r arrivals data conn' s' r' →
        r'.taken ++ delivered (conn'.recvs rooms s') <+: stream ∧
          ∀ k, (conn'.recvs rooms s')[k]? = some (some []) →
            r'.taken ++ delivered ((conn'.recvs rooms s').take k) = stream := by
      rintro data conn' r' ⟨⟨heard, rest, rfl, rfl, later⟩, tracks', _⟩
      have now := fed room List.mem_cons_self
      have fed' : ∀ room ∈ rooms, Fed start stream room (heard.foldl Receiver.hear r) s' rest := by
        intro room' other
        have fits := (fed room' (List.mem_cons_of_mem _ other)).fits
        exact ⟨later.arrive, later.noReset, later.near, later.parts, fun seg here =>
          fits seg (List.mem_append_right _ here)⟩
      exact ih (sound.foldl fun seg here => now.parts seg (List.mem_append_left _ here)) tracks'
        fed'
    match result, hears with
    | .error _, ⟨r', after⟩ =>
      obtain ⟨front, atEnd⟩ := onwards after
      rw [after.taken, List.append_nil] at front atEnd
      refine ⟨front, ?_⟩
      intro k here
      cases k with
      | zero => cases here
      | succ k => exact atEnd k here
    | .ok (data, conn'), ⟨r', after, empty⟩ =>
      obtain ⟨front, atEnd⟩ := onwards after
      rw [after.taken, List.append_assoc] at front
      refine ⟨front, ?_⟩
      intro k here
      cases k with
      | zero =>
        have none : data = [] := Option.some.inj (Option.some.inj here)
        obtain ⟨⟨heard, rest, rfl, rfl, _⟩, _, taken⟩ := after
        have now := fed room List.mem_cons_self
        have sound' := sound.foldl fun seg here => now.parts seg (List.mem_append_left _ here)
        rw [none, List.append_nil] at taken
        rw [List.take_zero, ← sound'.whole (empty none), taken]
        exact List.append_nil _
      | succ k =>
        have whole := atEnd k here
        rw [after.taken, List.append_assoc] at whole
        exact whole

/-- **A connection delivers a prefix of the peer's stream**, whatever the order in which its
segments arrive, how often, and which of them are lost, and whatever their numbers do at 2³²; and
a receive says that the stream has ended only when all of it was delivered. Every segment is to
fit the caller's buffers, and to arrive less than 2³² places away from the byte expected then. -/
theorem recv_delivers_prefix (conn : TcpConn) (fresh : conn.pendingFin = false)
    (rooms : List Nat) (s : Nic) (arrivals : List (Option (Segment UInt8)))
    (arrive : Arrive 1600 conn.rcv s.polls arrivals) (noReset : NoReset 1600 s.polls)
    (parts : ∀ seg, some seg ∈ arrivals → seg.Of stream)
    (fits : ∀ seg, some seg ∈ arrivals → ∀ room ∈ rooms, seg.data.length ≤ room)
    (near : Receiver.start.Near (2 ^ 32) arrivals) :
    delivered (conn.recvs rooms s) <+: stream ∧
      ∀ k, (conn.recvs rooms s)[k]? = some (some []) →
        delivered ((conn.recvs rooms s).take k) = stream := by
  have tracks : Tracks conn.rcv conn Receiver.start := by
    refine ⟨(UInt32.add_zero _).symm, ?_⟩
    intro pending
    rw [fresh] at pending
    cases pending
  have fed : ∀ room ∈ rooms, Fed conn.rcv stream room Receiver.start s arrivals := by
    intro room asked
    exact ⟨arrive, noReset, near, parts, fun seg here => fits seg here room asked⟩
  exact recvs_hear Receiver.sound_start tracks fed

/-- A connection that expects the number `rcv`. -/
def connAt (rcv : UInt32) : TcpConn where
  gwMac := Vector.replicate 6 0
  ourMac := Vector.replicate 6 0
  dstIp := Vector.replicate 4 0
  dport := 443
  snd := 0
  rcv := rcv
  pendingFin := false
  closed := false

/-- The stream's second segment arrives first, and again after the first; the numbers pass 2³². -/
theorem recv_delivers_prefix_sample :
    delivered ((connAt 0xFFFFFFFF).recvs [1600, 1600] (cardWith 0xFFFFFFFF
        [⟨1, [8, 9], true⟩, ⟨0, [7], false⟩, ⟨1, [8, 9], true⟩])) <+: [7, 8, 9] ∧
    ∀ k, ((connAt 0xFFFFFFFF).recvs [1600, 1600] (cardWith 0xFFFFFFFF
        [⟨1, [8, 9], true⟩, ⟨0, [7], false⟩, ⟨1, [8, 9], true⟩]))[k]? = some (some []) →
      delivered (((connAt 0xFFFFFFFF).recvs [1600, 1600] (cardWith 0xFFFFFFFF
        [⟨1, [8, 9], true⟩, ⟨0, [7], false⟩, ⟨1, [8, 9], true⟩])).take k) = [7, 8, 9] :=
  recv_delivers_prefix (connAt 0xFFFFFFFF) rfl [1600, 1600] _
    [some ⟨1, [8, 9], true⟩, some ⟨0, [7], false⟩, some ⟨1, [8, 9], true⟩]
    (arrive_cardWith (by decide) 0xFFFFFFFF [⟨1, [8, 9], true⟩, ⟨0, [7], false⟩,
      ⟨1, [8, 9], true⟩] (by decide))
    (noReset_cardWith (by decide) 0xFFFFFFFF _ (by decide))
    (fun seg here => (by decide : ∀ seg ∈ [(⟨1, [8, 9], true⟩ : Segment UInt8), ⟨0, [7], false⟩,
      ⟨1, [8, 9], true⟩], seg.Of [7, 8, 9]) seg (by simpa using here))
    (fun seg here => (by decide : ∀ seg ∈ [(⟨1, [8, 9], true⟩ : Segment UInt8), ⟨0, [7], false⟩,
      ⟨1, [8, 9], true⟩], ∀ room ∈ [1600, 1600], seg.data.length ≤ room) seg (by simpa using here))
    (by decide)

/-- A stream of 2³² zeros and a one. -/
def longStream : List UInt8 := List.replicate (2 ^ 32) 0 ++ [1]

/-- Its last segment. -/
def lastOne : Segment UInt8 where
  offset := 2 ^ 32
  data := [1]
  last := true

theorem not_prefix_of_zeros (n : Nat) : ¬ [1] <+: List.replicate (n + 1) (0 : UInt8) ++ [1] := by
  rintro ⟨rest, same⟩
  rw [List.replicate_succ, List.cons_append, List.cons_append] at same
  exact absurd (List.head_eq_of_cons_eq same) (by decide)

theorem lastOne_of : lastOne.Of longStream where
  part := by
    show [1] = (longStream.drop (2 ^ 32)).take 1
    rw [longStream, List.drop_append_of_le_length (by rw [List.length_replicate]),
      List.drop_of_length_le (by rw [List.length_replicate])]
    rfl
  inside := by
    rw [longStream, List.length_append, List.length_replicate]
    exact Nat.le_refl _
  ends _ := by
    rw [longStream, List.length_append, List.length_replicate]
    rfl

/-- The segment 2³² bytes behind the one expected has its number, and is taken for it. -/
theorem takes_far_segment :
    Arrive 1600 (connAt 0).rcv (cardWith 0 [lastOne]).polls [some lastOne] ∧
      NoReset 1600 (cardWith 0 [lastOne]).polls ∧ lastOne.Of longStream ∧
      (∀ room ∈ [1600], lastOne.data.length ≤ room) ∧
      ¬ delivered ((connAt 0).recvs [1600] (cardWith 0 [lastOne])) <+: longStream := by
  refine ⟨arrive_cardWith (by decide) 0 [lastOne] (by decide),
    noReset_cardWith (by decide) 0 [lastOne] (by decide), lastOne_of, by decide, ?_⟩
  have takes : (connAt 0).recvs [1600] (cardWith 0 [lastOne]) = [some [1]] := by decide
  rw [takes]
  exact not_prefix_of_zeros (2 ^ 32 - 1)

end Run

end RustyPenguin.Net
