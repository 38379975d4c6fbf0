import RustyPenguin.Net.Fetch

/-!
# The request on the wire

The text of a request is put together in a buffer of 384 bytes, as far as it fits, and the frame
that carries it is built in a buffer of 256 bytes, which it must fit. A fetch admits a host of up to
128 bytes and a path of up to 256.

A fetch never stops the machine, and sends the whole host and the whole path, exactly when these
have at most 128 bytes together (`request_carried_iff`).
-/

set_option autoImplicit false

namespace RustyPenguin.Net

open Crypto

/-! ## What a fetch should send -/

/-- The path that is asked for, which is the root when there is none. -/
def safePath (path : List UInt8) : List UInt8 := if path.isEmpty then text "/" else path

/-- The request with the whole host and the whole path. -/
def requestText (host path : List UInt8) : List UInt8 :=
  text "GET " ++ safePath path ++ text " HTTP/1.0\r\nHost: " ++ host ++
    text "\r\nUser-Agent: RustyPenguin/2.1\r\nConnection: close\r\n\r\n"

/-- A fetch never stops the machine, whatever the network does, and when the peer has answered it
sends the whole request. -/
structure Carried (host path : List UInt8) : Prop where
  runs : ∀ nextMac dstIp dport room s, tcpHttpGet nextMac dstIp dport host path room s ≠ none
  whole : ∀ peer s page s', openPage peer host path s = some (.ok page, s') →
    ∃ earlier frame, s'.sent = earlier ++ [frame] ∧ frame.drop 54 = requestText host path

/-! ## Lengths -/

theorem request_eq (host path : List UInt8) :
    request host path = (requestText host path).take 384 := rfl

set_option maxRecDepth 16000 in
theorem length_requestText (host path : List UInt8) :
    (requestText host path).length = 74 + (host.length + (safePath path).length) := by
  have verb : (text "GET ").length = 4 := by with_unfolding_all rfl
  have version : (text " HTTP/1.0\r\nHost: ").length = 17 := by with_unfolding_all rfl
  have rest : (text "\r\nUser-Agent: RustyPenguin/2.1\r\nConnection: close\r\n\r\n").length = 53 := by
    with_unfolding_all rfl
  rw [requestText, List.length_append, List.length_append, List.length_append, List.length_append,
    verb, version, rest]
  omega

theorem length_safePath (path : List UInt8) : (safePath path).length = max 1 path.length := by
  cases path with
  | nil => with_unfolding_all rfl
  | cons b path =>
    rw [safePath, if_neg (by simp), List.length_cons]
    omega

/-! ## Frames -/

section Frame

variable {cap : Nat} {dstMac srcMac : Vector UInt8 6} {srcIp dstIp : Vector UInt8 4}
  {dport : UInt16} {seq ack : UInt32} {flags : UInt8} {payload frame : List UInt8}

theorem length_ethernetHeader : (ethernetHeader dstMac srcMac).length = 14 := by
  simp [ethernetHeader]

theorem length_ipHeader (proto : UInt8) (total : UInt16) :
    (ipHeader proto srcIp dstIp total).length = 20 := by
  simp [ipHeader, ipHeaderWith, shortBytes]

/-- A segment is its header of twenty bytes and the payload. -/
theorem tcpSegment_eq (srcIp dstIp : Vector UInt8 4) (dport : UInt16) (seq ack : UInt32)
    (flags : UInt8) (payload : List UInt8) : ∃ header, header.length = 20 ∧
      tcpSegment srcIp dstIp dport seq ack flags payload = header ++ payload :=
  ⟨_, rfl, rfl⟩

/-- A frame carries the payload behind its headers. -/
theorem drop_buildTcp (short : payload.length ≤ 1460)
    (built : buildTcp cap dstMac srcMac srcIp dstIp dport seq ack flags payload = some frame) :
    frame.drop 54 = payload := by
  obtain ⟨header, length, segment⟩ := tcpSegment_eq srcIp dstIp dport seq ack flags payload
  have total : (UInt16.ofNat (20 + (20 + payload.length))).toNat = 40 + payload.length := by
    rw [UInt16.toNat_ofNat_of_lt' (by change _ < 65536; omega)]
    omega
  rw [buildTcp] at built
  split at built
  · cases built
    rw [segment, total, ← List.append_assoc]
    have front : (ethernetHeader dstMac srcMac ++ ipHeader protoTcp srcIp dstIp
        (UInt16.ofNat (20 + (20 + payload.length))) ++ header).length = 54 := by
      rw [List.length_append, List.length_append, length_ethernetHeader, length_ipHeader, length]
    rw [List.take_of_length_le (by rw [List.length_append, front]; omega), List.drop_left' front]
  · cases built

end Frame

/-! ## Sending the request -/

section Sending

variable {peer : Peer} {host path : List UInt8}

/-- A payload that fits is sent, behind what was sent before. -/
theorem send_of_fits (peer : Peer) (seq ack : UInt32) (flags : UInt8) (payload : List UInt8)
    (fits : payload.length ≤ 202) (s : Nic) : ∃ frame, frame.drop 54 = payload ∧
      peer.send seq ack flags payload s = some (.ok (), { s with sent := s.sent ++ [frame] }) := by
  have room : 54 + payload.length ≤ 256 := by omega
  cases built : buildTcp 256 peer.nextMac peer.mac ourIp peer.dstIp peer.dport seq ack flags
    payload with
  | none =>
    rw [buildTcp, if_pos room] at built
    cases built
  | some frame =>
    refine ⟨frame, drop_buildTcp (by omega) built, ?_⟩
    rw [Peer.send, sendTcp, built]
    rfl

/-- A payload that does not fit stops the machine. -/
theorem send_of_long (peer : Peer) (seq ack : UInt32) (flags : UInt8) (payload : List UInt8)
    (long : 202 < payload.length) (s : Nic) : peer.send seq ack flags payload s = none := by
  rw [Peer.send, sendTcp, buildTcp, if_neg (by omega)]
  rfl

/-- A computation that never stops the machine. -/
def Runs {α : Type} (x : NetAct α) : Prop := Act.Ends (fun _ => True) (fun _ _ => True) x

theorem Runs.ne_none {α : Type} {x : NetAct α} (runs : Runs x) (s : Nic) : x s ≠ none := by
  intro stuck
  rcases runs s trivial with ⟨a, s', went, -⟩ | ⟨e, s', failed, -⟩
  · rw [stuck] at went
    cases went
  · rw [stuck] at failed
    cases failed

theorem runs_send {seq ack : UInt32} {flags : UInt8} {payload : List UInt8}
    (fits : payload.length ≤ 202) : Runs (peer.send seq ack flags payload) := by
  intro s _
  obtain ⟨frame, -, sent⟩ := send_of_fits peer seq ack flags payload fits s
  exact .inl ⟨_, _, sent, trivial⟩

theorem runs_giveUp {α : Type} : Runs (giveUp : NetAct α) :=
  fun s _ => .inr ⟨(), s, rfl, trivial⟩

theorem runs_poll {α : Type} {f : Option (List UInt8) → NetAct α} (size : Nat)
    (next : ∀ found, Runs (f found)) : Runs (pollRx size >>= f) := by
  refine Act.Ends.bind ?_ next
  intro s _
  cases left : s.polls with
  | nil => exact .inl ⟨none, s, by rw [pollRx, left], trivial⟩
  | cons found polls => exact .inl ⟨_, _, by rw [pollRx, left], trivial⟩

theorem runs_awaitSynAck (polls : Nat) : Runs (awaitSynAck polls) := by
  induction polls with
  | zero => exact runs_giveUp
  | succ polls ih =>
    refine runs_poll 1536 fun found => ?_
    cases found with
    | none => exact ih
    | some rx =>
      dsimp only
      split
      · exact ih
      · split
        · exact runs_giveUp
        · split
          · exact Act.Ends.ret _
          · exact ih

theorem runs_openPage (fits : (request host path).length ≤ 202) :
    Runs (openPage peer host path) := by
  refine Act.Ends.bind (runs_send (Nat.zero_le _)) fun _ => ?_
  refine Act.Ends.bind (runs_awaitSynAck _) fun theirSeq => ?_
  refine Act.Ends.bind (runs_send (Nat.zero_le _)) fun _ => ?_
  exact Act.Ends.bind (runs_send fits) fun _ => Act.Ends.ret _

theorem runs_pageLoop (snd : UInt32) (room polls : Nat) (page : Page) :
    Runs (pageLoop peer snd room polls page) := by
  induction polls generalizing page with
  | zero => exact Act.Ends.ret _
  | succ polls ih =>
    refine Act.Ends.bind ?_ fun page => ?_
    · intro s _
      cases left : s.polls with
      | nil => exact .inl ⟨_, _, pollPage_nil left, trivial⟩
      | cons found polls =>
        obtain ⟨sent, turn⟩ := pollPage_cons left
        exact .inl ⟨_, _, turn, trivial⟩
    · split
      · exact Act.Ends.ret _
      · exact ih page

theorem runs_tcpHttpGet (fits : (request host path).length ≤ 202) (nextMac : Vector UInt8 6)
    (dstIp : Vector UInt8 4) (dport : UInt16) (room : Nat) :
    Runs (tcpHttpGet nextMac dstIp dport host path room) := by
  refine Act.Ends.bind ?_ fun mac => ?_
  · intro s _
    cases card : s.mac with
    | none => exact .inr ⟨(), s, by rw [nic, card], trivial⟩
    | some mac => exact .inl ⟨mac, s, by rw [nic, card], trivial⟩
  · refine Act.Ends.bind (runs_openPage fits) fun page => ?_
    refine Act.Ends.bind (runs_pageLoop _ _ _ _) fun page => ?_
    split
    · exact Act.Ends.ret _
    · exact runs_giveUp

/-- What was sent last when a page is opened is the request. -/
theorem request_sent (fits : (request host path).length ≤ 202) {s s' : Nic} {page : Page}
    (opened : openPage peer host path s = some (.ok page, s')) :
    ∃ earlier frame, s'.sent = earlier ++ [frame] ∧ frame.drop 54 = request host path := by
  rcases Act.bind_eq_some.mp opened with ⟨_, _, none⟩ | ⟨_, _, _, opened⟩
  · cases none
  rcases Act.bind_eq_some.mp opened with ⟨_, _, none⟩ | ⟨theirSeq, _, _, opened⟩
  · cases none
  rcases Act.bind_eq_some.mp opened with ⟨_, _, none⟩ | ⟨_, s₃, _, opened⟩
  · cases none
  obtain ⟨frame, carries, sent⟩ :=
    send_of_fits peer (isn + 1) (theirSeq + 1) (tcpPsh ||| tcpAck) (request host path) fits s₃
  rw [Act.bind_of_ok sent] at opened
  cases opened
  exact ⟨s₃.sent, frame, rfl, carries⟩

/-- A request that does not fit stops the machine once the peer has answered. -/
theorem openPage_stuck (peer : Peer) (long : 202 < (request host path).length) (start : UInt32)
    (s : Nic) {polls : List (Option (List UInt8))}
    (answered : s.polls = some (synAck start) :: polls) : openPage peer host path s = none := by
  obtain ⟨syn, -, first⟩ := send_of_fits peer isn 0 tcpSyn [] (Nat.zero_le 202) s
  have second := awaitSynAck_answered start 9999999 { s with sent := s.sent ++ [syn] } answered
  obtain ⟨ack, -, third⟩ := send_of_fits peer (isn + 1) (start - 1 + 1) tcpAck []
    (Nat.zero_le 202) { s with polls := polls, sent := s.sent ++ [syn] }
  have fourth := send_of_long peer (isn + 1) (start - 1 + 1) (tcpPsh ||| tcpAck)
    (request host path) long { s with polls := polls, sent := s.sent ++ [syn] ++ [ack] }
  rw [openPage, Act.bind_of_ok first, Act.bind_of_ok second, Act.bind_of_ok third, Act.bind_eq,
    Act.andThen, fourth]

end Sending

/-! ## Which requests are carried -/

theorem carried_of_fits {host path : List UInt8} (fits : (requestText host path).length ≤ 202) :
    Carried host path := by
  have whole : request host path = requestText host path := by
    rw [request_eq, List.take_of_length_le (by omega)]
  have fits' : (request host path).length ≤ 202 := by
    rw [whole]
    exact fits
  refine ⟨fun nextMac dstIp dport room s => (runs_tcpHttpGet fits' _ _ _ _).ne_none s, ?_⟩
  intro peer s page s' opened
  obtain ⟨earlier, frame, sent, carries⟩ := request_sent fits' opened
  exact ⟨earlier, frame, sent, carries.trans whole⟩

theorem fits_of_carried {host path : List UInt8} (carried : Carried host path) :
    (requestText host path).length ≤ 202 := by
  by_contra long
  have long' : 202 < (request host path).length := by
    rw [request_eq, List.length_take]
    omega
  refine carried.runs (Vector.replicate 6 0) ourIp 80 0 (pageCard 5 []) ?_
  have card : nic (pageCard 5 []) = some (.ok (Vector.replicate 6 0), pageCard 5 []) := rfl
  have stuck := openPage_stuck ⟨Vector.replicate 6 0, Vector.replicate 6 0, ourIp, 80⟩ long' 5
    (pageCard 5 []) rfl
  rw [tcpHttpGet, Act.bind_of_ok card, Act.bind_eq, Act.andThen, stuck]

/-- A request is carried exactly when its text fits what the frame's buffer leaves. -/
theorem carried_iff_fits (host path : List UInt8) :
    Carried host path ↔ (requestText host path).length ≤ 202 :=
  ⟨fits_of_carried, carried_of_fits⟩

/-- **A request is carried exactly when host and path have at most 128 bytes together**, an empty
path being the root. -/
theorem request_carried_iff (host path : List UInt8) :
    Carried host path ↔ host.length + max 1 path.length ≤ 128 := by
  rw [carried_iff_fits, length_requestText, length_safePath]
  omega

/-- **A target that is not carried**: not every target that a caller may pass has a host and a path
that fit. -/
theorem long_target_not_carried : ¬ ∀ target : List UInt8, target ≠ [] → target.length ≤ 256 →
    (splitScheme target).1 = false →
      Carried ((splitPath (splitScheme target).2).1.take 128)
        ((splitPath (splitScheme target).2).2.take 256) := by
  intro carried
  have fits := fits_of_carried
    (carried (97 :: 47 :: List.replicate 127 97) (by simp) (by simp) (by decide +kernel))
  rw [length_requestText] at fits
  revert fits
  decide +kernel

end RustyPenguin.Net
