import RustyPenguin.Net.Page

/-!
# Resolving a host

A host name is resolved by one query that is sent in a UDP datagram, and by polling for a
datagram that holds an address. Nothing that runs on the card takes back what was polled or sent:
the card only goes on (`Nic.Later`).
-/

set_option autoImplicit false

namespace RustyPenguin.Net

open Crypto

/-! ## Datagrams -/

def protoUdp : UInt8 := 17

def dnsIp : Vector UInt8 4 := #v[10, 0, 2, 3]
def dnsPort : UInt16 := 53
def ourDnsPort : UInt16 := 49153

/-- Build a frame in a buffer of `cap` bytes, which it may not exceed. -/
def buildUdp (cap : Nat) (dstMac srcMac : Vector UInt8 6) (srcIp dstIp : Vector UInt8 4)
    (sport dport : UInt16) (payload : List UInt8) : Option (List UInt8) :=
  if 42 + payload.length ≤ cap then
    let total := UInt16.ofNat (20 + 8 + payload.length)
    some ((ethernetHeader dstMac srcMac ++ ipHeader protoUdp srcIp dstIp total ++
      shortBytes sport ++ shortBytes dport ++ shortBytes (UInt16.ofNat (8 + payload.length)) ++
      [0, 0] ++ payload).take (14 + total.toNat))
  else none

/-- The payload of a datagram between two ports. -/
def parseUdpPayload (rx : List UInt8) (wantSport wantDport : UInt16) : Option (List UInt8) :=
  if rx.length < 42 then none
  else if ¬ (byte rx 12 = 0x08 ∧ byte rx 13 = 0x00 ∧ byte rx 23 = protoUdp) then none
  else if beShort rx 34 ≠ wantSport.toNat ∨ beShort rx 36 ≠ wantDport.toNat then none
  else some ((rx.drop 42).take (min (beShort rx 38 - 8) (rx.length - 42)))

/-! ## Queries and answers -/

/-- The labels of a name as they are written from `p` on, up to the first that is empty, too long
or does not fit. -/
def encodeLabels (cap : Nat) : Nat → List (List UInt8) → List UInt8
  | _, [] => []
  | p, l :: labels =>
    if l.isEmpty ∨ 63 < l.length ∨ cap ≤ p + 1 + l.length then []
    else UInt8.ofNat l.length :: (l ++ encodeLabels cap (p + 1 + l.length) labels)

/-- A query for the address of a name, in a buffer of `cap` bytes, which it may not exceed. -/
def buildDnsQuery (cap : Nat) (domain : List UInt8) (txid : UInt16) : Option (List UInt8) :=
  let query := shortBytes txid ++ [0x01, 0x00, 0, 1, 0, 0, 0, 0, 0, 0] ++
    encodeLabels cap 12 (domain.splitOn 46) ++ [0, 0, 1, 0, 1]
  if query.length ≤ cap then some query else none

/-- The position after a name, which may end with a pointer. -/
def dnsSkipName (msg : List UInt8) (p : Nat) : Option Nat :=
  if _inside : p < msg.length then
    let len := byte msg p
    if len = 0 then some (p + 1)
    else if len &&& 0xC0 = 0xC0 then some (p + 2)
    else dnsSkipName msg (p + 1 + len.toNat)
  else none
termination_by msg.length - p

/-- The position after a number of questions. -/
def skipQuestions (msg : List UInt8) : Nat → Nat → Option Nat
  | 0, p => some p
  | n + 1, p => do
    let p ← dnsSkipName msg p
    skipQuestions msg n (p + 4)

/-- The first address among a number of answers. -/
def findA (msg : List UInt8) : Nat → Nat → Option (Vector UInt8 4)
  | 0, _ => none
  | n + 1, p => do
    let p ← dnsSkipName msg p
    if msg.length < p + 10 then none
    else
      let rtype := beShort msg p
      let rdlen := beShort msg (p + 8)
      let p := p + 10
      if rtype = 1 ∧ rdlen = 4 ∧ p + 4 ≤ msg.length then
        some #v[byte msg p, byte msg (p + 1), byte msg (p + 2), byte msg (p + 3)]
      else findA msg n (p + rdlen)

def parseDnsA (msg : List UInt8) (txid : UInt16) : Option (Vector UInt8 4) :=
  if msg.length < 12 then none
  else if byte msg 0 ≠ (txid >>> 8).toUInt8 ∨ byte msg 1 ≠ txid.toUInt8 then none
  else if byte msg 2 &&& 0x80 = 0 then none
  else if beShort msg 6 = 0 then none
  else do
    let p ← skipQuestions msg (beShort msg 4) 12
    findA msg (beShort msg 6) p

/-- Poll for an address. -/
def awaitAddress (txid : UInt16) : Nat → NetAct (Vector UInt8 4)
  | 0 => giveUp
  | polls + 1 => do
    match ← pollRx 1536 with
    | none => awaitAddress txid polls
    | some rx =>
      match parseUdpPayload rx dnsPort ourDnsPort with
      | none => awaitAddress txid polls
      | some msg =>
        match parseDnsA msg txid with
        | none => awaitAddress txid polls
        | some ip => pure ip

/-- Send a query from a buffer of 512 bytes. A query or a frame that does not fit its buffer stops
the machine. -/
def sendQuery (dnsMac mac : Vector UInt8 6) (domain : List UInt8) (txid : UInt16) : NetAct Unit :=
  match buildDnsQuery 256 domain txid with
  | none => .stuck
  | some query =>
    match buildUdp 512 dnsMac mac ourIp dnsIp ourDnsPort dnsPort query with
    | none => .stuck
    | some frame => send frame

def dnsResolve (dnsMac : Vector UInt8 6) (domain : List UInt8) : NetAct (Vector UInt8 4) := do
  let mac ← nic
  sendQuery dnsMac mac domain 0x1A2B
  awaitAddress 0x1A2B 10000000

/-! ## The card goes on -/

/-- The card after something ran on it: it has the same address, some polls are past, and more may
have been sent. -/
structure Nic.Later (s s' : Nic) : Prop where
  mac : s'.mac = s.mac
  polls : s'.polls <:+ s.polls
  sent : s.sent <+: s'.sent

namespace Nic.Later

theorem refl (s : Nic) : s.Later s := ⟨rfl, List.suffix_rfl, List.prefix_rfl⟩

theorem trans (a b c : Nic) (first : a.Later b) (next : b.Later c) : a.Later c where
  mac := next.mac.trans first.mac
  polls := next.polls.trans first.polls
  sent := first.sent.trans next.sent

end Nic.Later

/-- Something that runs on the card, which only goes on. -/
abbrev GoesOn {α : Type} (x : NetAct α) : Prop := Act.Keeps Nic.Later x

section GoesOn

variable {α β : Type}

theorem goesOn_pure (a : α) : GoesOn (pure a : NetAct α) := .ret Nic.Later.refl a

theorem goesOn_giveUp : GoesOn (giveUp : NetAct α) := .fail Nic.Later.refl ()

theorem GoesOn.bind {x : NetAct α} {f : α → NetAct β} (first : GoesOn x)
    (next : ∀ a, GoesOn (f a)) : GoesOn (x >>= f) :=
  Act.Keeps.bind Nic.Later.trans first next

theorem goesOn_nic : GoesOn nic := by
  intro s r s' ends
  rw [nic] at ends
  split at ends
  · cases ends
    exact Nic.Later.refl _
  · cases ends
    exact Nic.Later.refl _

theorem goesOn_send (frame : List UInt8) : GoesOn (send frame) := by
  intro s r s' ends
  cases ends
  exact ⟨rfl, List.suffix_rfl, List.prefix_append _ _⟩

theorem goesOn_pollRx (size : Nat) : GoesOn (pollRx size) := by
  intro s r s' ends
  rw [pollRx] at ends
  split at ends
  · cases ends
    exact Nic.Later.refl _
  · next found polls left =>
    cases ends
    refine ⟨rfl, ?_, List.prefix_rfl⟩
    rw [left]
    exact List.suffix_cons found polls

theorem goesOn_sendTcp (cap : Nat) (dstMac srcMac : Vector UInt8 6) (dstIp : Vector UInt8 4)
    (dport : UInt16) (seq ack : UInt32) (flags : UInt8) (payload : List UInt8) :
    GoesOn (sendTcp cap dstMac srcMac dstIp dport seq ack flags payload) := by
  rw [sendTcp]
  split
  · exact goesOn_send _
  · exact .stuck

/-- What polls, and goes on whatever it finds, goes on. -/
theorem goesOn_poll {f : Option (List UInt8) → NetAct α} (size : Nat) (none : GoesOn (f none))
    (some : ∀ rx, GoesOn (f (some rx))) : GoesOn (pollRx size >>= f) := by
  refine (goesOn_pollRx size).bind ?_
  intro found
  cases found with
  | none => exact none
  | some rx => exact some rx

/-! ### A page -/

theorem goesOn_peerSend (peer : Peer) (seq ack : UInt32) (flags : UInt8) (payload : List UInt8) :
    GoesOn (peer.send seq ack flags payload) := goesOn_sendTcp _ _ _ _ _ _ _ _ _

theorem goesOn_awaitSynAck (polls : Nat) : GoesOn (awaitSynAck polls) := by
  induction polls with
  | zero => exact goesOn_giveUp
  | succ polls ih =>
    refine goesOn_poll 1536 ih ?_
    intro rx
    dsimp only
    split
    · exact ih
    · split
      · exact goesOn_giveUp
      · split
        · exact goesOn_pure _
        · exact ih

theorem goesOn_openPage (peer : Peer) (host path : List UInt8) :
    GoesOn (openPage peer host path) := by
  refine (goesOn_peerSend _ _ _ _ _).bind fun _ => ?_
  refine (goesOn_awaitSynAck _).bind fun theirSeq => ?_
  refine (goesOn_peerSend _ _ _ _ _).bind fun _ => ?_
  exact (goesOn_peerSend _ _ _ _ _).bind fun _ => goesOn_pure _

theorem goesOn_takeData (peer : Peer) (snd : UInt32) (room : Nat) (page : Page) (h : TcpHeader)
    (payload : List UInt8) : GoesOn (takeData peer snd room page h payload) := by
  rw [takeData]
  split
  · exact (goesOn_peerSend _ _ _ _ _).bind fun _ => goesOn_pure _
  · exact goesOn_pure _

theorem goesOn_takeFin (peer : Peer) (snd : UInt32) (page : Page) (h : TcpHeader) :
    GoesOn (takeFin peer snd page h) := by
  rw [takeFin]
  split
  · refine (goesOn_peerSend _ _ _ _ _).bind fun _ => ?_
    exact (goesOn_peerSend _ _ _ _ _).bind fun _ => goesOn_pure _
  · exact goesOn_pure _

theorem goesOn_pollPage (peer : Peer) (snd : UInt32) (room : Nat) (page : Page) :
    GoesOn (pollPage peer snd room page) := by
  refine goesOn_poll 1536 (goesOn_pure _) ?_
  intro rx
  dsimp only
  split
  · exact goesOn_pure _
  · exact (goesOn_takeData _ _ _ _ _ _).bind fun page => goesOn_takeFin _ _ page _

theorem goesOn_pageLoop (peer : Peer) (snd : UInt32) (room polls : Nat) (page : Page) :
    GoesOn (pageLoop peer snd room polls page) := by
  induction polls generalizing page with
  | zero => exact goesOn_pure _
  | succ polls ih =>
    refine (goesOn_pollPage _ _ _ _).bind fun page => ?_
    split
    · exact goesOn_pure _
    · exact ih page

theorem goesOn_tcpHttpGet (nextMac : Vector UInt8 6) (dstIp : Vector UInt8 4) (dport : UInt16)
    (host path : List UInt8) (room : Nat) :
    GoesOn (tcpHttpGet nextMac dstIp dport host path room) := by
  refine goesOn_nic.bind fun mac => ?_
  refine (goesOn_openPage _ _ _).bind fun page => ?_
  refine (goesOn_pageLoop _ _ _ _ _).bind fun page => ?_
  split
  · exact goesOn_pure _
  · exact goesOn_giveUp

/-! ### A name -/

theorem goesOn_awaitAddress (txid : UInt16) (polls : Nat) : GoesOn (awaitAddress txid polls) := by
  induction polls with
  | zero => exact goesOn_giveUp
  | succ polls ih =>
    refine goesOn_poll 1536 ih ?_
    intro rx
    dsimp only
    split
    · exact ih
    · split
      · exact ih
      · exact goesOn_pure _

theorem goesOn_sendQuery (dnsMac mac : Vector UInt8 6) (domain : List UInt8) (txid : UInt16) :
    GoesOn (sendQuery dnsMac mac domain txid) := by
  rw [sendQuery]
  split
  · exact .stuck
  · split
    · exact .stuck
    · exact goesOn_send _

theorem goesOn_dnsResolve (dnsMac : Vector UInt8 6) (domain : List UInt8) :
    GoesOn (dnsResolve dnsMac domain) := by
  refine goesOn_nic.bind fun mac => ?_
  exact (goesOn_sendQuery _ _ _ _).bind fun _ => goesOn_awaitAddress _ _

end GoesOn

end RustyPenguin.Net
