import RustyPenguin.Net.Conn

/-!
# Fetching a page

A page is fetched over a connection of its own: the handshake, the request, and a loop that takes
the segments with the number expected and stores their bytes while there is room. The loop ends
with the first segment that carries a FIN, or when it has polled often enough.

The number of a segment with a FIN is not looked at, and what was stored when the polls run out is
handed over as the page.
-/

set_option autoImplicit false

namespace RustyPenguin.Net

open Crypto

/-- Where a page is fetched, and the card's address. -/
structure Peer where
  nextMac : Vector UInt8 6
  mac : Vector UInt8 6
  dstIp : Vector UInt8 4
  dport : UInt16

/-- Send a segment to the peer, from a buffer of 256 bytes. -/
def Peer.send (peer : Peer) (seq ack : UInt32) (flags : UInt8) (payload : List UInt8) :
    NetAct Unit :=
  sendTcp 256 peer.nextMac peer.mac peer.dstIp peer.dport seq ack flags payload

/-- Our first sequence number. -/
def isn : UInt32 := 0x00012000

/-- Wait for the answer to our SYN: the peer's first sequence number. -/
def awaitSynAck : Nat → NetAct UInt32
  | 0 => giveUp
  | polls + 1 => do
    match ← pollRx 1536 with
    | none => awaitSynAck polls
    | some rx =>
      match parseTcp rx with
      | none => awaitSynAck polls
      | some h =>
        if has h.flags tcpRst then giveUp
        else if has h.flags tcpSyn ∧ has h.flags tcpAck ∧ h.ackn = isn + 1 then pure h.seq
        else awaitSynAck polls

/-- The request, as far as it fits its buffer of 384 bytes. -/
def request (host path : List UInt8) : List UInt8 :=
  let safePath := if path.isEmpty then "/".toUTF8.toList else path
  ("GET ".toUTF8.toList ++ safePath ++ " HTTP/1.0\r\nHost: ".toUTF8.toList ++ host ++
    "\r\nUser-Agent: RustyPenguin/2.1\r\nConnection: close\r\n\r\n".toUTF8.toList).take 384

/-- A page on its way: the number expected next, the bytes received and those stored, and whether
a FIN has ended the loop. -/
structure Page where
  rcvNxt : UInt32
  total : Nat
  written : List UInt8
  fin : Bool

namespace Page

/-- Bytes received in order, stored while there is room. -/
def take (page : Page) (room : Nat) (payload : List UInt8) (plen : Nat) : Page where
  rcvNxt := page.rcvNxt + UInt32.ofNat plen
  total := page.total + plen
  written := page.written ++ payload.take (min plen (room - page.written.length))
  fin := page.fin

/-- A FIN received. -/
def finish (page : Page) : Page := { page with rcvNxt := page.rcvNxt + 1, fin := true }

end Page

/-- The number of our next segment, after the request. -/
def sndAfter (req : List UInt8) : UInt32 := isn + 1 + UInt32.ofNat req.length

/-- Take the bytes of a segment that is expected, and acknowledge them. -/
def takeData (peer : Peer) (snd : UInt32) (room : Nat) (page : Page) (h : TcpHeader)
    (payload : List UInt8) : NetAct Page :=
  if 0 < h.plen ∧ h.seq = page.rcvNxt then do
    let page := page.take room payload h.plen
    peer.send snd page.rcvNxt tcpAck []
    pure page
  else pure page

/-- Acknowledge a FIN and close our side. -/
def takeFin (peer : Peer) (snd : UInt32) (page : Page) (h : TcpHeader) : NetAct Page :=
  if has h.flags tcpFin then do
    let page := page.finish
    peer.send snd page.rcvNxt tcpAck []
    peer.send snd page.rcvNxt (tcpFin ||| tcpAck) []
    pure page
  else pure page

/-- What the loop does with a segment. -/
def hearSegment (peer : Peer) (snd : UInt32) (room : Nat) (page : Page) (h : TcpHeader)
    (payload : List UInt8) : NetAct Page := do
  let page ← takeData peer snd room page h payload
  takeFin peer snd page h

/-- One turn of the loop. -/
def pollPage (peer : Peer) (snd : UInt32) (room : Nat) (page : Page) : NetAct Page := do
  match ← pollRx 1536 with
  | none => pure page
  | some rx =>
    match parseTcp rx with
    | none => pure page
    | some h => hearSegment peer snd room page h (h.payload rx)

/-- The loop, up to a FIN. -/
def pageLoop (peer : Peer) (snd : UInt32) (room : Nat) : Nat → Page → NetAct Page
  | 0, page => pure page
  | polls + 1, page => do
    let page ← pollPage peer snd room page
    if page.fin then pure page else pageLoop peer snd room polls page

/-- How often the loop polls. -/
def pagePolls : Nat := 15000000

/-- The handshake and the request. -/
def openPage (peer : Peer) (host path : List UInt8) : NetAct Page := do
  peer.send isn 0 tcpSyn []
  let theirSeq ← awaitSynAck 10000000
  let rcvNxt := theirSeq + 1
  peer.send (isn + 1) rcvNxt tcpAck []
  peer.send (isn + 1) rcvNxt (tcpPsh ||| tcpAck) (request host path)
  pure ⟨rcvNxt, 0, [], false⟩

/-- Fetch a page into a buffer of `room` bytes: the bytes that were written into it. -/
def tcpHttpGet (nextMac : Vector UInt8 6) (dstIp : Vector UInt8 4) (dport : UInt16)
    (host path : List UInt8) (room : Nat) : NetAct (List UInt8) := do
  let mac ← nic
  let peer : Peer := ⟨nextMac, mac, dstIp, dport⟩
  let page ← openPage peer host path
  let page ← pageLoop peer (sndAfter (request host path)) room pagePolls page
  if 0 < page.total then pure page.written else giveUp

/-! ## One turn -/

/-- The page after a segment. -/
def Page.hear (page : Page) (room : Nat) (h : TcpHeader) (payload : List UInt8) : Page :=
  let page := if 0 < h.plen ∧ h.seq = page.rcvNxt then page.take room payload h.plen else page
  if has h.flags tcpFin then page.finish else page

/-- The page after a poll. -/
def Page.poll (page : Page) (room : Nat) (found : Option (List UInt8)) : Page :=
  match found with
  | none => page
  | some rx =>
    match parseTcp rx with
    | none => page
    | some h => page.hear room h (h.payload rx)

theorem Peer.send_nothing (peer : Peer) (seq ack : UInt32) (flags : UInt8) :
    ∃ frame, peer.send seq ack flags [] = Net.send frame := sendTcp_eq (by decide)

section Turn

variable {peer : Peer} {snd : UInt32} {room : Nat} {page : Page} {s : Nic}

theorem takeData_eq (h : TcpHeader) (payload : List UInt8) :
    ∃ sent, takeData peer snd room page h payload s =
      some (.ok (if 0 < h.plen ∧ h.seq = page.rcvNxt then page.take room payload h.plen else page),
        { s with sent := sent }) := by
  rw [takeData]
  by_cases expected : 0 < h.plen ∧ h.seq = page.rcvNxt
  · obtain ⟨frame, ack⟩ := peer.send_nothing snd (page.take room payload h.plen).rcvNxt tcpAck
    rw [if_pos expected, if_pos expected, ack]
    exact ⟨_, rfl⟩
  · rw [if_neg expected, if_neg expected]
    exact ⟨_, rfl⟩

theorem takeFin_eq (h : TcpHeader) :
    ∃ sent, takeFin peer snd page h s =
      some (.ok (if has h.flags tcpFin then page.finish else page), { s with sent := sent }) := by
  rw [takeFin]
  by_cases fin : has h.flags tcpFin = true
  · obtain ⟨frame, ack⟩ := peer.send_nothing snd page.finish.rcvNxt tcpAck
    obtain ⟨frame', finAck⟩ := peer.send_nothing snd page.finish.rcvNxt (tcpFin ||| tcpAck)
    rw [if_pos fin, if_pos fin, ack, finAck]
    exact ⟨_, rfl⟩
  · rw [if_neg fin, if_neg fin]
    exact ⟨_, rfl⟩

theorem hearSegment_eq (h : TcpHeader) (payload : List UInt8) :
    ∃ sent, hearSegment peer snd room page h payload s =
      some (.ok (page.hear room h payload), { s with sent := sent }) := by
  obtain ⟨sent, first⟩ := takeData_eq h payload
  rw [hearSegment, Act.bind_of_ok first]
  exact takeFin_eq h

/-- A turn of the loop hears what the poll finds. -/
theorem pollPage_cons {found : Option (List UInt8)} {polls : List (Option (List UInt8))}
    (left : s.polls = found :: polls) :
    ∃ sent, pollPage peer snd room page s =
      some (.ok (page.poll room (found.map (List.take 1536))),
        { s with polls := polls, sent := sent }) := by
  rw [pollPage, Act.bind_of_ok (pollRx_cons s 1536 left)]
  cases found.map (List.take 1536) with
  | none => exact ⟨_, rfl⟩
  | some rx =>
    simp only [Page.poll]
    cases parseTcp rx with
    | none => exact ⟨_, rfl⟩
    | some h => exact hearSegment_eq h _

theorem pollPage_nil (left : s.polls = []) :
    pollPage peer snd room page s = some (.ok page, s) := by
  rw [pollPage, Act.bind_of_ok (pollRx_nil s 1536 left)]
  rfl

theorem pageLoop_succ {page₁ : Page} {s₁ : Nic} (n : Nat)
    (turn : pollPage peer snd room page s = some (.ok page₁, s₁)) :
    pageLoop peer snd room (n + 1) page s =
      if page₁.fin then some (.ok page₁, s₁) else pageLoop peer snd room n page₁ s₁ := by
  rw [pageLoop, Act.bind_of_ok turn]
  cases fin : page₁.fin with
  | true => rfl
  | false => rfl

end Turn

/-! ## What a fetch is to do -/

section Fetch

/-- What is stored when the loop has polled `n` times is the whole stream, or fills the buffer. -/
def Complete (peer : Peer) (snd : UInt32) (room : Nat) (stream : List UInt8) (n : Nat)
    (page : Page) (s : Nic) : Prop :=
  ∀ page' s', pageLoop peer snd room n page s = some (.ok page', s') → 0 < page'.total →
    page'.written = stream ∨ (page'.written.length = room ∧ page'.written <+: stream)

/-- In `n` polls no segment whose number is not the one expected changes anything or ends the
loop. -/
def InOrder (peer : Peer) (snd : UInt32) (room : Nat) (n : Nat) (page : Page) (s : Nic) : Prop :=
  ∀ k < n, ∀ page' s' rx h, pageLoop peer snd room k page s = some (.ok page', s') →
    page'.fin = false → s'.polls.head? = some (some rx) → parseTcp (rx.take 1536) = some h →
      h.seq ≠ page'.rcvNxt → ∃ s'', pageLoop peer snd room (k + 1) page s = some (.ok page', s'')

/-- The first segment with a FIN that arrives is the next one expected. If none arrives then
nothing, everything or enough to fill the buffer arrives in order. -/
def EndsWell (stream : List UInt8) (room : Nat) :
    Receiver UInt8 → List (Option (Segment UInt8)) → Prop
  | r, [] => r.taken = [] ∨ r.taken = stream ∨ room ≤ r.taken.length
  | r, none :: arrivals => EndsWell stream room r arrivals
  | r, some seg :: arrivals =>
    if seg.last then seg.offset = r.next else EndsWell stream room (r.accept seg) arrivals

instance decidableEndsWell (stream : List UInt8) (room : Nat) :
    ∀ (r : Receiver UInt8) (arrivals : List (Option (Segment UInt8))),
      Decidable (EndsWell stream room r arrivals)
  | _, [] => inferInstanceAs (Decidable (_ ∨ _ ∨ _))
  | r, none :: arrivals => decidableEndsWell stream room r arrivals
  | r, some seg :: arrivals =>
    have := decidableEndsWell stream room (r.accept seg) arrivals
    inferInstanceAs (Decidable (if seg.last then seg.offset = r.next
      else EndsWell stream room (r.accept seg) arrivals))

/-- The page is what the receiver has taken, as far as it fits. -/
structure PageTracks (start : UInt32) (room : Nat) (page : Page) (r : Receiver UInt8) : Prop where
  rcv : page.rcvNxt = start + UInt32.ofNat r.next
  total : page.total = r.taken.length
  written : page.written = r.taken.take room

variable {peer : Peer} {snd start : UInt32} {room n : Nat} {page page₁ : Page} {s s₁ : Nic}
  {stream : List UInt8} {r : Receiver UInt8} {arrivals : List (Option (Segment UInt8))}

theorem complete_succ (turn : pollPage peer snd room page s = some (.ok page₁, s₁))
    (going : page₁.fin = false) :
    Complete peer snd room stream (n + 1) page s ↔ Complete peer snd room stream n page₁ s₁ := by
  rw [Complete, Complete, pageLoop_succ n turn, if_neg (by rw [going]; exact Bool.false_ne_true)]

theorem inOrder_succ (turn : pollPage peer snd room page s = some (.ok page₁, s₁))
    (here : page.fin = false) :
    InOrder peer snd room (n + 1) page s ↔
      (∀ rx h, s.polls.head? = some (some rx) → parseTcp (rx.take 1536) = some h →
        h.seq ≠ page.rcvNxt → page₁ = page) ∧
      (page₁.fin = false → InOrder peer snd room n page₁ s₁) := by
  have zero : pageLoop peer snd room 0 page s = some (.ok page, s) := rfl
  have one : pageLoop peer snd room 1 page s = some (.ok page₁, s₁) := by
    rw [pageLoop_succ 0 turn]
    split
    · rfl
    · rfl
  constructor
  · intro inOrder
    constructor
    · intro rx h found parsed other
      obtain ⟨s'', same⟩ := inOrder 0 (Nat.succ_pos n) page s rx h zero here found parsed other
      rw [one] at same
      exact (congrArg Prod.fst (Option.some.inj same)) |> Except.ok.inj
    · intro going k inside page' s' rx h reached
      have before := pageLoop_succ k turn
      have after := pageLoop_succ (k + 1) turn
      rw [if_neg (by rw [going]; exact Bool.false_ne_true)] at before after
      rw [← before] at reached
      rw [← after]
      exact inOrder (k + 1) (Nat.succ_lt_succ inside) page' s' rx h reached
  · intro ⟨first, later⟩ k inside page' s' rx h reached going found parsed other
    cases k with
    | zero =>
      rw [zero] at reached
      cases reached
      rw [one, first rx h found parsed other]
      exact ⟨s₁, rfl⟩
    | succ k =>
      have before := pageLoop_succ k turn
      have after := pageLoop_succ (k + 1) turn
      cases fin : page₁.fin with
      | true =>
        rw [if_pos fin, reached] at before
        cases before
        rw [fin] at going
        cases going
      | false =>
        rw [if_neg (by rw [fin]; exact Bool.false_ne_true)] at before after
        rw [before] at reached
        rw [after]
        exact later fin k (Nat.lt_of_succ_lt_succ inside) page' s' rx h reached going found
          parsed other

/-- The bytes of the segment expected are stored after those of the page. -/
theorem PageTracks.take (tracks : PageTracks start room page r) (going : r.ended = false)
    {data : List UInt8} {plen : Nat} (size : data.length = plen) (fin : Bool) :
    (page.take room data plen).total = (r.taken ++ data).length ∧
      (page.take room data plen).written = (r.taken ++ data).take room ∧
      (fin = false → PageTracks start room (page.take room data plen) ⟨r.taken ++ data, fin⟩) := by
  have total : (page.take room data plen).total = (r.taken ++ data).length := by
    rw [List.length_append, size, ← tracks.total]
    rfl
  have written : (page.take room data plen).written = (r.taken ++ data).take room := by
    have left : room - (r.taken.take room).length = room - r.taken.length := by
      rw [List.length_take]
      omega
    have clipped : data.take (min plen (room - r.taken.length)) =
        data.take (room - r.taken.length) := by
      rw [← size, Nat.min_comm, ← List.take_take, List.take_length]
    show page.written ++ data.take (min plen (room - page.written.length)) = _
    rw [tracks.written, left, clipped, List.take_append]
  refine ⟨total, written, ?_⟩
  rintro rfl
  refine ⟨?_, total, written⟩
  show page.rcvNxt + UInt32.ofNat plen = _
  rw [tracks.rcv, Receiver.next, Receiver.next, going, List.length_append, size]
  simp [UInt32.add_assoc]

variable {found : Option (List UInt8)} {seg? : Option (Segment UInt8)} {seg : Segment UInt8}

/-- A poll that finds no segment of the stream changes nothing. -/
theorem poll_nothing (shows : Shows start found none) : page.poll room found = page := by
  cases found with
  | none => rfl
  | some rx =>
    cases parsed : parseTcp rx with
    | none => simp only [Page.poll, parsed]
    | some h =>
      rcases shows_parsed shows parsed with ⟨_, none, notFin⟩ | ⟨seg, some, _⟩
      · simp only [Page.poll, parsed, Page.hear, none, notFin]
        simp
      · cases some

/-- What is known of a poll that finds a segment. -/
theorem poll_segment (tracks : PageTracks start room page r) (shows : Shows start found (some seg))
    (within : r.Within (2 ^ 32) seg) :
    ∃ rx h, found = some rx ∧ parseTcp rx = some h ∧ h.payload rx = seg.data ∧
      h.plen = seg.data.length ∧ has h.flags tcpFin = seg.last ∧
      (h.seq = page.rcvNxt ↔ seg.offset = r.next) := by
  cases found with
  | none => cases shows_none shows
  | some rx =>
    cases parsed : parseTcp rx with
    | none => cases shows_foreign shows parsed
    | some h =>
      rcases shows_parsed shows parsed with ⟨none, _⟩ | ⟨seg', some, number, payload, fin⟩
      · cases none
      · cases some
        refine ⟨rx, h, rfl, parsed, payload, ?_, fin, ?_⟩
        · rw [← payload, length_payload parsed]
        · rw [number, tracks.rcv]
          exact number_expected within

/-- A segment with another number and without a FIN changes nothing. -/
theorem poll_other {rx : List UInt8} {h : TcpHeader} (parsed : parseTcp rx = some h)
    (other : h.seq ≠ page.rcvNxt) (notFin : has h.flags tcpFin = false) :
    page.poll room (some rx) = page := by
  simp only [Page.poll, parsed, Page.hear, notFin, other, and_false, if_false]
  simp

/-- A segment without a FIN is taken as the receiver takes it. -/
theorem PageTracks.poll (tracks : PageTracks start room page r) (going : r.ended = false)
    (shows : Shows start found (some seg)) (within : r.Within (2 ^ 32) seg)
    (notLast : seg.last = false) :
    PageTracks start room (page.poll room found) (r.accept seg) ∧
      (page.poll room found).fin = page.fin ∧ (r.accept seg).ended = false := by
  obtain ⟨rx, h, rfl, parsed, payload, size, fin, number⟩ := poll_segment tracks shows within
  rw [notLast] at fin
  have same : page.poll room (some rx) =
      if 0 < h.plen ∧ h.seq = page.rcvNxt then page.take room (h.payload rx) h.plen else page := by
    simp only [Page.poll, parsed, Page.hear, fin]
    simp
  rw [same, Receiver.accept, payload]
  by_cases expected : seg.offset = r.next
  · rw [if_pos expected, notLast]
    by_cases some : 0 < h.plen
    · rw [if_pos ⟨some, number.mpr expected⟩]
      exact ⟨(tracks.take going size.symm false).2.2 rfl, rfl, rfl⟩
    · rw [if_neg fun both => some both.1]
      have none : seg.data = [] := List.length_eq_zero_iff.mp (by omega)
      rw [none, List.append_nil]
      obtain ⟨taken, ended⟩ := r
      obtain rfl : ended = false := going
      exact ⟨tracks, rfl, rfl⟩
  · rw [if_neg expected, if_neg fun both => expected (number.mp both.2)]
    exact ⟨tracks, rfl, going⟩

/-- A segment with a FIN ends the loop, whether it was expected or not. -/
theorem PageTracks.poll_fin (tracks : PageTracks start room page r) (going : r.ended = false)
    (shows : Shows start found (some seg)) (within : r.Within (2 ^ 32) seg)
    (last : seg.last = true) :
    (page.poll room found).fin = true ∧
      (seg.offset = r.next → (page.poll room found).written = (r.taken ++ seg.data).take room) := by
  obtain ⟨rx, h, rfl, parsed, payload, size, fin, number⟩ := poll_segment tracks shows within
  rw [last] at fin
  have same : page.poll room (some rx) =
      (if 0 < h.plen ∧ h.seq = page.rcvNxt then page.take room (h.payload rx) h.plen
        else page).finish := by
    simp only [Page.poll, parsed, Page.hear, fin]
    simp
  rw [same]
  refine ⟨rfl, ?_⟩
  intro expected
  rw [payload]
  by_cases some : 0 < h.plen
  · rw [if_pos ⟨some, number.mpr expected⟩]
    exact (tracks.take going size.symm true).2.1
  · rw [if_neg fun both => some both.1]
    have none : seg.data = [] := List.length_eq_zero_iff.mp (by omega)
    rw [none, List.append_nil]
    exact tracks.written

/-- What is stored of a front of the stream is all of it or fills the buffer exactly when the
front is all of it or as long as the buffer. -/
theorem stored_iff {taken : List UInt8} (front : taken <+: stream) :
    (taken.take room = stream ∨ ((taken.take room).length = room ∧ taken.take room <+: stream)) ↔
      taken = stream ∨ room ≤ taken.length := by
  constructor
  · rintro (whole | ⟨full, _⟩)
    · refine .inl (front.eq_of_length_le ?_)
      rw [← whole]
      exact (List.take_prefix _ _).length_le
    · rw [List.length_take] at full
      exact .inr (by omega)
  · intro enough
    have clipped : taken.take room <+: stream := (List.take_prefix _ _).trans front
    by_cases fits : taken.length ≤ room
    · rw [List.take_of_length_le fits]
      rcases enough with whole | full
      · exact .inl whole
      · exact .inr ⟨by omega, front⟩
    · refine .inr ⟨?_, clipped⟩
      rw [List.length_take]
      omega

theorem complete_zero (sound : r.Sound stream) (tracks : PageTracks start room page r) :
    Complete peer snd room stream 0 page s ↔
      r.taken = [] ∨ r.taken = stream ∨ room ≤ r.taken.length := by
  have reached : pageLoop peer snd room 0 page s = some (.ok page, s) := rfl
  have stored := @stored_iff room stream r.taken sound.isPrefix
  rw [← tracks.written] at stored
  constructor
  · intro complete
    by_cases none : r.taken = []
    · exact .inl none
    · refine .inr (stored.mp (complete page s reached ?_))
      rw [tracks.total]
      exact List.length_pos_of_ne_nil none
  · rintro enough page' s' ends some
    cases ends
    refine stored.mpr (enough.resolve_left ?_)
    intro none
    rw [tracks.total, none] at some
    cases some

theorem inOrder_zero : InOrder peer snd room 0 page s := by
  intro k inside
  cases inside

/-- **A fetch does what it is to do** exactly when the stream ends well. -/
theorem pages_iff (n : Nat) : ∀ {page : Page} {s : Nic} {r : Receiver UInt8}
    {arrivals : List (Option (Segment UInt8))}, r.Sound stream → PageTracks start room page r →
    r.ended = false → page.fin = false → Arrive 1536 start s.polls arrivals →
    (∀ seg, some seg ∈ arrivals → seg.Of stream) → r.Near (2 ^ 32) (arrivals.take n) →
    (Complete peer snd room stream n page s ∧ InOrder peer snd room n page s ↔
      EndsWell stream room r (arrivals.take n)) := by
  induction n with
  | zero =>
    intro page s r arrivals sound tracks _ _ _ _ _
    rw [List.take_zero, EndsWell, complete_zero sound tracks]
    exact and_iff_left inOrder_zero
  | succ n ih =>
    intro page s r arrivals sound tracks going here arrive parts near
    cases left : s.polls with
    | nil =>
      rw [left] at arrive
      cases arrive
      have turn := @pollPage_nil peer snd room page s left
      have near' : r.Near (2 ^ 32) (([] : List (Option (Segment UInt8))).take n) := by
        rw [List.take_nil]
        trivial
      have arrive : Arrive 1536 start s.polls [] := by
        rw [left]
        exact .nil
      have later := ih sound tracks going here arrive parts near'
      rw [List.take_nil] at later ⊢
      rw [complete_succ turn here, inOrder_succ turn here, ← later]
      exact and_congr_right fun _ => ⟨fun both => both.2 here, fun rest =>
        ⟨fun _ _ _ _ _ => rfl, fun _ => rest⟩⟩
    | cons found polls =>
      obtain ⟨sent, turn⟩ := @pollPage_cons peer snd room page s found polls left
      rw [left] at arrive
      cases arrive with
      | @cons _ seg? _ rest shows later =>
      have parts' : ∀ seg, some seg ∈ rest → seg.Of stream := fun seg member =>
        parts seg (List.mem_cons_of_mem _ member)
      rw [List.take_succ_cons] at near ⊢
      cases seg? with
      | none =>
        have same : page.poll room (found.map (List.take 1536)) = page := poll_nothing shows
        rw [same] at turn
        rw [EndsWell, complete_succ turn here, inOrder_succ turn here,
          ← @ih page { s with polls := polls, sent := sent } r rest sound tracks going here later
            parts' near]
        exact and_congr_right fun _ => ⟨fun both => both.2 here, fun rest =>
          ⟨fun _ _ _ _ _ => rfl, fun _ => rest⟩⟩
      | some seg =>
        obtain ⟨within, near'⟩ := near
        have part := parts seg List.mem_cons_self
        obtain ⟨rx, h, arrived, parsed, _, _, fin, number⟩ := poll_segment tracks shows within
        obtain ⟨frame, rfl, rfl⟩ := Option.map_eq_some_iff.mp arrived
        have head : ∀ rx' h', s.polls.head? = some (some rx') →
            parseTcp (rx'.take 1536) = some h' → h' = h := by
          intro rx' h' first parsed'
          rw [left] at first
          cases first
          rw [parsed] at parsed'
          exact (Option.some.inj parsed').symm
        cases last : seg.last with
        | false =>
          obtain ⟨tracks', fin', going'⟩ := tracks.poll going shows within last
          rw [EndsWell, if_neg (by rw [last]; exact Bool.false_ne_true),
            complete_succ turn (fin'.trans here), inOrder_succ turn here,
            ← @ih _ { s with polls := polls, sent := sent } (r.accept seg) rest
              (sound.accept part) tracks' going' (fin'.trans here) later parts' near']
          refine and_congr_right fun _ => ⟨fun both => both.2 (fin'.trans here), fun rest =>
            ⟨?_, fun _ => rest⟩⟩
          intro rx' h' first parsed' other
          obtain rfl := head rx' h' first parsed'
          exact poll_other parsed other (fin.trans last)
        | true =>
          obtain ⟨fin', stored⟩ := tracks.poll_fin going shows within last
          rw [EndsWell, if_pos last, inOrder_succ turn here]
          constructor
          · rintro ⟨_, unmoved, _⟩
            by_contra other
            have same := unmoved frame h (by rw [left]; rfl) parsed fun expected =>
              other (number.mp expected)
            rw [same, here] at fin'
            cases fin'
          · intro expected
            refine ⟨?_, ?_, ?_⟩
            · intro page' s' ends some
              rw [pageLoop_succ n turn, if_pos fin'] at ends
              cases ends
              have whole := (sound.accept part).whole
              rw [Receiver.accept, if_pos expected] at whole
              rw [stored expected]
              exact (stored_iff (whole last ▸ List.prefix_rfl)).mpr (.inl (whole last))
            · intro rx' h' first parsed' other
              obtain rfl := head rx' h' first parsed'
              exact absurd (number.mpr expected) other
            · intro going'
              rw [fin'] at going'
              cases going'

end Fetch

/-! ## The fetch -/

section Get

variable {nextMac mac : Vector UInt8 6} {dstIp : Vector UInt8 4} {dport : UInt16}
  {host path stream : List UInt8} {room : Nat} {s s₁ : Nic} {page₀ : Page}
  {arrivals : List (Option (Segment UInt8))}

theorem openPage_fresh {peer : Peer} (opened : openPage peer host path s = some (.ok page₀, s₁)) :
    page₀ = ⟨page₀.rcvNxt, 0, [], false⟩ := by
  rcases Act.bind_eq_some.mp opened with ⟨_, _, none⟩ | ⟨_, _, _, opened⟩
  · cases none
  rcases Act.bind_eq_some.mp opened with ⟨_, _, none⟩ | ⟨theirSeq, _, _, opened⟩
  · cases none
  rcases Act.bind_eq_some.mp opened with ⟨_, _, none⟩ | ⟨_, _, _, opened⟩
  · cases none
  rcases Act.bind_eq_some.mp opened with ⟨_, _, none⟩ | ⟨_, _, _, opened⟩
  · cases none
  cases opened
  rfl

/-- What a fetch returns is what the loop has stored. -/
theorem tcpHttpGet_eq_ok (card : s.mac = some mac)
    (opened : openPage ⟨nextMac, mac, dstIp, dport⟩ host path s = some (.ok page₀, s₁))
    {written : List UInt8} {s' : Nic} :
    tcpHttpGet nextMac dstIp dport host path room s = some (.ok written, s') ↔
      ∃ page, pageLoop ⟨nextMac, mac, dstIp, dport⟩ (sndAfter (request host path)) room pagePolls
          page₀ s₁ = some (.ok page, s') ∧ 0 < page.total ∧ written = page.written := by
  have some : nic s = some (.ok mac, s) := by rw [nic, card]
  rw [tcpHttpGet, Act.bind_of_ok some, Act.bind_of_ok opened]
  constructor
  · intro ends
    rcases Act.bind_eq_some.mp ends with ⟨_, _, none⟩ | ⟨page, m, looped, ends⟩
    · cases none
    by_cases received : 0 < page.total
    · rw [if_pos received] at ends
      cases ends
      exact ⟨page, looped, received, rfl⟩
    · rw [if_neg received] at ends
      cases ends
  · rintro ⟨page, looped, received, rfl⟩
    rw [Act.bind_of_ok looped, if_pos received]
    rfl

/-- **When a fetched page is complete**: what a fetch returns is the peer's whole stream or a
front of it that fills the buffer, and no segment with an unexpected number changes anything or
ends the fetch, exactly when the first FIN that arrives is the next segment expected, or none
arrives in time and nothing, everything or enough to fill the buffer has arrived in order. -/
theorem fetch_iff (card : s.mac = some mac)
    (opened : openPage ⟨nextMac, mac, dstIp, dport⟩ host path s = some (.ok page₀, s₁))
    (arrive : Arrive 1536 page₀.rcvNxt s₁.polls arrivals)
    (parts : ∀ seg, some seg ∈ arrivals → seg.Of stream)
    (near : Receiver.start.Near (2 ^ 32) (arrivals.take pagePolls)) :
    ((∀ written s', tcpHttpGet nextMac dstIp dport host path room s = some (.ok written, s') →
        written = stream ∨ (written.length = room ∧ written <+: stream)) ∧
      InOrder ⟨nextMac, mac, dstIp, dport⟩ (sndAfter (request host path)) room pagePolls page₀
        s₁) ↔
      EndsWell stream room Receiver.start (arrivals.take pagePolls) := by
  have fresh := openPage_fresh opened
  have tracks : PageTracks page₀.rcvNxt room page₀ Receiver.start := by
    rw [fresh]
    exact ⟨(UInt32.add_zero _).symm, rfl, (List.take_nil).symm⟩
  have going : page₀.fin = false := by rw [fresh]
  rw [← pages_iff pagePolls Receiver.sound_start tracks rfl going arrive parts near]
  refine and_congr_left fun _ => ⟨?_, ?_⟩
  · intro complete page s' looped received
    exact complete page.written s' ((tcpHttpGet_eq_ok card opened).mpr ⟨page, looped, received, rfl⟩)
  · intro complete written s' ends
    obtain ⟨page, looped, received, rfl⟩ := (tcpHttpGet_eq_ok card opened).mp ends
    exact complete page s' looped received

/-- The peer's answer to our SYN. -/
def synAck (start : UInt32) : List UInt8 := frameToUs (start - 1) (isn + 1) (tcpSyn ||| tcpAck) []

theorem awaitSynAck_answered (start : UInt32) (polls : Nat) (s : Nic)
    {later : List (Option (List UInt8))} (answered : s.polls = some (synAck start) :: later) :
    awaitSynAck (polls + 1) s = some (.ok (start - 1), { s with polls := later }) := by
  have whole : (synAck start).take 1536 = synAck start := by
    refine List.take_of_length_le ?_
    rw [synAck, length_frameToUs]
    decide
  have parsed := @parseTcp_frameToUs (start - 1) (isn + 1) (tcpSyn ||| tcpAck) [] (Nat.zero_le _)
  have notReset : has (tcpSyn ||| tcpAck) tcpRst = false := by decide
  have answers : has (tcpSyn ||| tcpAck) tcpSyn = true ∧ has (tcpSyn ||| tcpAck) tcpAck = true := by
    decide
  rw [awaitSynAck, Act.bind_of_ok (pollRx_cons s 1536 answered), Option.map_some, whole, synAck]
  simp only [parsed, notReset, answers.1, answers.2]
  rfl

theorem openPage_answered (peer : Peer) (host path : List UInt8)
    (short : (request host path).length ≤ 202) (start : UInt32) (s : Nic)
    {polls : List (Option (List UInt8))} (answered : s.polls = some (synAck start) :: polls) :
    ∃ sent, openPage peer host path s =
      some (.ok ⟨start, 0, [], false⟩, { s with polls := polls, sent := sent }) := by
  have sends : ∀ (seq ack : UInt32) (flags : UInt8) (payload : List UInt8),
      payload.length ≤ 202 → ∀ s : Nic, ∃ frame, peer.send seq ack flags payload s =
        some (.ok (), { s with sent := s.sent ++ [frame] }) := by
    intro seq ack flags payload fits s
    have room : 54 + payload.length ≤ 256 := by omega
    obtain ⟨frame, sent⟩ := @sendTcp_eq 256 peer.nextMac peer.mac peer.dstIp peer.dport seq ack
      flags payload room
    exact ⟨frame, congrFun sent s⟩
  obtain ⟨syn, first⟩ := sends isn 0 tcpSyn [] (Nat.zero_le _) s
  have second := awaitSynAck_answered start 9999999 { s with sent := s.sent ++ [syn] } answered
  obtain ⟨ack, third⟩ := sends (isn + 1) (start - 1 + 1) tcpAck [] (Nat.zero_le _)
    { s with polls := polls, sent := s.sent ++ [syn] }
  obtain ⟨req, fourth⟩ := sends (isn + 1) (start - 1 + 1) (tcpPsh ||| tcpAck) (request host path)
    short { s with polls := polls, sent := s.sent ++ [syn] ++ [ack] }
  refine ⟨s.sent ++ [syn] ++ [ack] ++ [req], ?_⟩
  rw [openPage, Act.bind_of_ok first, Act.bind_of_ok second, Act.bind_of_ok third,
    Act.bind_of_ok fourth, UInt32.sub_add_cancel]
  rfl

/-- A card that finds the peer's answer, and then its segments. -/
def pageCard (start : UInt32) (segs : List (Segment UInt8)) : Nic where
  mac := some (Vector.replicate 6 0)
  polls := some (synAck start) :: (cardWith start segs).polls
  sent := []

/-- The host `a`. -/
def sampleHost : List UInt8 := [0x61]

/-- The path `/`. -/
def samplePath : List UInt8 := [0x2f]

set_option maxRecDepth 16000 in
theorem short_sampleRequest : (request sampleHost samplePath).length ≤ 202 := by
  have length : (request sampleHost samplePath).length = 76 := by with_unfolding_all rfl
  omega

/-- Three segments of a page of three bytes, the second of which arrives early as well. -/
def sampleSegments : List (Segment UInt8) :=
  [⟨1, [8], false⟩, ⟨0, [7], false⟩, ⟨1, [8], false⟩, ⟨2, [9], true⟩]

theorem fetch_iff_sample : ∃ page₀ s₁,
    (∀ written s', tcpHttpGet (Vector.replicate 6 0) ourIp 80 sampleHost samplePath 100
        (pageCard 5 sampleSegments) = some (.ok written, s') →
        written = [7, 8, 9] ∨ (written.length = 100 ∧ written <+: [7, 8, 9])) ∧
      InOrder ⟨Vector.replicate 6 0, Vector.replicate 6 0, ourIp, 80⟩
        (sndAfter (request sampleHost samplePath)) 100 pagePolls page₀ s₁ := by
  obtain ⟨sent, opened⟩ := openPage_answered ⟨Vector.replicate 6 0, Vector.replicate 6 0, ourIp, 80⟩
    sampleHost samplePath short_sampleRequest 5 (pageCard 5 sampleSegments) rfl
  have arrive := @arrive_cardWith 1536 (by decide) 5 sampleSegments (by decide)
  have parts : ∀ seg, some seg ∈ sampleSegments.map some → seg.Of [7, 8, 9] := by
    intro seg here
    have all : ∀ seg ∈ sampleSegments, seg.Of [7, 8, 9] := by decide
    exact all seg (by simpa using here)
  exact ⟨_, _, (fetch_iff rfl opened arrive parts (by decide)).mpr (by decide)⟩

/-- The second of three segments is lost: what is stored before the FIN is handed over. -/
theorem fin_cuts_page :
    (∀ seg ∈ [(⟨0, [7], false⟩ : Segment UInt8), ⟨2, [9], true⟩], seg.Of [7, 8, 9]) ∧
      (tcpHttpGet (Vector.replicate 6 0) ourIp 80 sampleHost samplePath 100
        (pageCard 5 [⟨0, [7], false⟩, ⟨2, [9], true⟩])).map Prod.fst = some (.ok [7]) := by
  decide +kernel

end Get

end RustyPenguin.Net
