import RustyPenguin.Tls.Client

/-!
# The server's flight

What an accepted flight was made of: the plaintexts of the records that opened, cut into
handshake messages wherever the records were cut, the last of them a Finished message whose
code verifies over the messages before it (`serverFlight_ok`).

Only the certificates are looked at besides: any other message is hashed and passed over
(`takeMessages_other`), a CertificateVerify message like the rest. So whoever can finish the
key exchange may present the certificates of another (`impostor_accepted`).
-/

set_option autoImplicit false

namespace RustyPenguin.Tls

open Checked Crypto

/-! ## What the records say -/

/-- The plaintexts of the first `guard` records, up to the first record that is of another
type or does not open, and up to the first alert. -/
def opened (keys : Keys) : Nat → UInt64 → List Record → List (UInt8 × List UInt8)
  | 0, _, _ => []
  | _, _, [] => []
  | guard + 1, seq, r :: rest =>
    if r.typ = ctChangeCipherSpec then opened keys guard seq rest
    else if r.typ ≠ ctApplicationData then []
    else
      match openRecord keys seq r with
      | none => []
      | some p => p :: if p.1 = ctAlert then [] else opened keys guard (seq + 1) rest

/-- The contents of one type, joined. -/
def contents (innerType : UInt8) (ps : List (UInt8 × List UInt8)) : List UInt8 :=
  (ps.filter fun p => p.1 = innerType).flatMap Prod.snd

theorem contents_cons_same (innerType : UInt8) (plain : List UInt8)
    (ps : List (UInt8 × List UInt8)) :
    contents innerType ((innerType, plain) :: ps) = plain ++ contents innerType ps := by
  simp [contents]

theorem contents_cons_other {innerType t : UInt8} (other : t ≠ innerType) (plain : List UInt8)
    (ps : List (UInt8 × List UInt8)) :
    contents innerType ((t, plain) :: ps) = contents innerType ps := by
  simp [contents, other]

/-- The certificates of a list of messages, added to `chain`. -/
def certificates : List (List UInt8) → List (List UInt8) → Checked (List (List UInt8))
  | chain, [] => pure chain
  | chain, msg :: msgs => do
    let chain ← addCertificates chain msg
    certificates chain msgs

/-- The hash state after a list of messages. -/
def hashed (transcript : Sha256) (msgs : List (List UInt8)) : Sha256 :=
  msgs.foldl Sha256.update transcript

/-- A complete handshake message of another type than Finished. -/
def Ordinary (msg : List UInt8) : Prop :=
  ∃ mtype body, msg = message mtype body ∧ body.length < 2 ^ 24 ∧ mtype ≠ hsFinished

/-! ## Taking messages -/

theorem messageLength_lt (acc : List UInt8) : messageLength acc < 2 ^ 24 := by
  have top := (byte acc 1).toNat_lt
  have high := (byte acc 2).toNat_lt
  have low := (byte acc 3).toNat_lt
  rw [messageLength]
  omega

theorem messageLength_message {mtype : UInt8} {body : List UInt8} (small : body.length < 2 ^ 24)
    (rest : List UInt8) : messageLength (message mtype body ++ rest) = body.length := by
  have split : message mtype body ++ rest =
      [mtype, UInt8.ofNat (body.length >>> 16), UInt8.ofNat (body.length >>> 8),
        UInt8.ofNat body.length] ++ (body ++ rest) := by
    simp [message, len24]
  have top : byte (message mtype body ++ rest) 1 = UInt8.ofNat (body.length >>> 16) := by
    rw [split]
    rfl
  have high : byte (message mtype body ++ rest) 2 = UInt8.ofNat (body.length >>> 8) := by
    rw [split]
    rfl
  have low : byte (message mtype body ++ rest) 3 = UInt8.ofNat body.length := by
    rw [split]
    rfl
  rw [messageLength, top, high, low]
  simp [Nat.shiftRight_eq_div_pow]
  omega

theorem length_message (mtype : UInt8) (body : List UInt8) :
    (message mtype body).length = 4 + body.length := by
  simp [message, len24]
  omega

theorem exists_four {acc : List UInt8} (long : 4 ≤ acc.length) :
    ∃ t a b c rest, acc = t :: a :: b :: c :: rest := by
  match acc with
  | t :: a :: b :: c :: rest => exact ⟨t, a, b, c, rest, rfl⟩
  | [] => simp at long
  | [_] => simp at long
  | [_, _] => simp at long
  | [_, _, _] => simp at long

/-- The three bytes of a length are found again from the number. -/
theorem len24_number (a b c : UInt8) :
    len24 (a.toNat * 65536 + b.toNat * 256 + c.toNat) = [a, b, c] := by
  have aBound := a.toNat_lt
  have bBound := b.toNat_lt
  have cBound := c.toNat_lt
  have top : UInt8.ofNat ((a.toNat * 65536 + b.toNat * 256 + c.toNat) >>> 16) = a := by
    refine UInt8.toNat_inj.mp ?_
    rw [UInt8.toNat_ofNat', Nat.shiftRight_eq_div_pow]
    omega
  have high : UInt8.ofNat ((a.toNat * 65536 + b.toNat * 256 + c.toNat) >>> 8) = b := by
    refine UInt8.toNat_inj.mp ?_
    rw [UInt8.toNat_ofNat', Nat.shiftRight_eq_div_pow]
    omega
  have low : UInt8.ofNat (a.toNat * 65536 + b.toNat * 256 + c.toNat) = c := by
    refine UInt8.toNat_inj.mp ?_
    rw [UInt8.toNat_ofNat']
    omega
  rw [len24, top, high, low]

theorem messageLength_cons (t a b c : UInt8) (rest : List UInt8) :
    messageLength (t :: a :: b :: c :: rest) = a.toNat * 65536 + b.toNat * 256 + c.toNat := by
  have top : byte (t :: a :: b :: c :: rest) 1 = a := rfl
  have high : byte (t :: a :: b :: c :: rest) 2 = b := rfl
  have low : byte (t :: a :: b :: c :: rest) 3 = c := rfl
  rw [messageLength, top, high, low]

theorem take_four (t a b c : UInt8) (rest : List UInt8) (n : Nat) :
    (t :: a :: b :: c :: rest).take (4 + n) = [t] ++ [a, b, c] ++ rest.take n := by
  rw [Nat.add_comm]
  rfl

/-- The bytes that are taken are a message. -/
theorem take_message {acc : List UInt8} (complete : 4 + messageLength acc ≤ acc.length) :
    ∃ body, acc.take (4 + messageLength acc) = message (byte acc 0) body ∧
      body.length < 2 ^ 24 := by
  have small := messageLength_lt acc
  obtain ⟨t, a, b, c, rest, rfl⟩ := exists_four (Nat.le_trans (Nat.le_add_right 4 _) complete)
  have number := messageLength_cons t a b c rest
  rw [List.length_cons, List.length_cons, List.length_cons, List.length_cons] at complete
  rw [number] at small complete ⊢
  have size : (rest.take (a.toNat * 65536 + b.toNat * 256 + c.toNat)).length =
      a.toNat * 65536 + b.toNat * 256 + c.toNat := by
    rw [List.length_take, Nat.min_eq_left (by omega)]
  have kind : byte (t :: a :: b :: c :: rest) 0 = t := rfl
  refine ⟨rest.take (a.toNat * 65536 + b.toNat * 256 + c.toNat), ?_, ?_⟩
  · rw [message, size, len24_number, take_four, kind]
    rfl
  · rw [size]
    exact small

/-- From `f`, the messages `msgs` were taken and `f'` is left. -/
structure Took (f f' : Flight) (msgs : List (List UInt8)) : Prop where
  acc : f.acc = msgs.flatten ++ f'.acc
  transcript : f'.transcript = hashed f.transcript msgs
  chain : certificates f.chain msgs = .ok f'.chain
  ordinary : ∀ msg ∈ msgs, Ordinary msg

theorem Took.refl (f : Flight) : Took f f [] where
  acc := rfl
  transcript := rfl
  chain := rfl
  ordinary := fun _ none => nomatch none

/-- A Finished message that verified was taken from `f`, and `f'` is left. -/
structure Verified (secret : List UInt8) (f f' : Flight) (body : List UInt8) : Prop where
  acc : f.acc = message hsFinished body ++ f'.acc
  small : body.length < 2 ^ 24
  transcript : f'.transcript = Sha256.update f.transcript (message hsFinished body)
  chain : f'.chain = f.chain
  long : 32 ≤ body.length
  mac : finishedMac secret (Sha256.finalize f.transcript) = .ok (body.take 32)

theorem slice_message (mtype : UInt8) (body : List UInt8) :
    Buffer.slice (message mtype body) 4 32 = body.take 32 := rfl

/-- What taking messages returned says about the bytes they were taken from. -/
theorem takeMessages_ok {secret : List UInt8} {f f' : Flight} {finished : Bool}
    (took : takeMessages secret f = .ok (finished, f')) :
    ∃ msgs g, Took f g msgs ∧
      if finished = true then ∃ body, Verified secret g f' body else f' = g := by
  induction size : f.acc.length using Nat.strong_induction_on generalizing f with
  | _ n ih =>
    rw [takeMessages] at took
    split at took
    · cases took
      exact ⟨[], _, .refl _, rfl⟩
    rename_i complete
    obtain ⟨long, whole⟩ := not_or.mp complete
    obtain ⟨body, taken, small⟩ := take_message (Nat.le_of_not_lt whole)
    have split : f.acc = message (byte f.acc 0) body ++ f.acc.drop (4 + messageLength f.acc) := by
      rw [← taken, List.take_append_drop]
    simp only [taken] at took
    have kind : byte (message (byte f.acc 0) body) 0 = byte f.acc 0 := rfl
    rw [kind] at took
    by_cases isFinished : byte f.acc 0 = hsFinished
    · rw [if_pos isFinished] at took
      obtain ⟨expect, mac, took⟩ := bind_eq_ok.mp took
      split at took
      · cases took
      rename_i verified
      obtain ⟨fits, same⟩ := not_or.mp verified
      cases took
      rw [length_message] at fits
      rw [not_not.mp same, slice_message] at mac
      rw [isFinished] at split
      refine ⟨[], f, .refl f, body, split, small, ?_, rfl, by omega, mac⟩
      rw [isFinished]
    · rw [if_neg isFinished] at took
      obtain ⟨chain, added, took⟩ := bind_eq_ok.mp took
      have shorter : (f.acc.drop (4 + messageLength f.acc)).length < n := by
        rw [← size, List.length_drop]
        omega
      obtain ⟨msgs, g, rest, ends⟩ := ih _ shorter took rfl
      refine ⟨message (byte f.acc 0) body :: msgs, g, ?_, ends⟩
      refine ⟨?_, rest.transcript, bind_eq_ok.mpr ⟨chain, added, rest.chain⟩, ?_⟩
      · rw [List.flatten_cons, List.append_assoc, ← rest.acc]
        exact split
      · intro msg isMember
        cases isMember with
        | head => exact ⟨_, body, rfl, small, isFinished⟩
        | tail _ later => exact rest.ordinary msg later

/-! ## The whole flight -/

/-- A flight with more bytes behind those it holds. -/
def Flight.extend (f : Flight) (more : List UInt8) : Flight := { f with acc := f.acc ++ more }

theorem Flight.extend_nil (f : Flight) : f.extend [] = f := by
  simp [Flight.extend]

theorem Flight.extend_extend (f : Flight) (more further : List UInt8) :
    (f.extend more).extend further = f.extend (more ++ further) := by
  simp [Flight.extend]

theorem certificates_append {chain chain' : List (List UInt8)} {msgs : List (List UInt8)}
    (first : certificates chain msgs = .ok chain') (msgs' : List (List UInt8)) :
    certificates chain (msgs ++ msgs') = certificates chain' msgs' := by
  induction msgs generalizing chain with
  | nil =>
    cases first
    rfl
  | cons msg msgs ih =>
    obtain ⟨next, added, rest⟩ := bind_eq_ok.mp first
    exact (bind_of_ok added _).trans (ih rest)

/-- Taking messages, then more of them once more bytes came. -/
theorem Took.trans {f g h : Flight} {more : List UInt8} {msgs msgs' : List (List UInt8)}
    (first : Took f g msgs) (second : Took (g.extend more) h msgs') :
    Took (f.extend more) h (msgs ++ msgs') where
  acc := by
    have rest : g.acc ++ more = msgs'.flatten ++ h.acc := second.acc
    simp only [Flight.extend, first.acc, List.append_assoc, rest, List.flatten_append]
  transcript := by
    rw [second.transcript, hashed, hashed, List.foldl_append]
    exact congrArg (msgs'.foldl Sha256.update) first.transcript
  chain := (certificates_append first.chain msgs').trans second.chain
  ordinary := by
    intro msg isMember
    rcases List.mem_append.mp isMember with here | later
    · exact first.ordinary msg here
    · exact second.ordinary msg later

theorem opened_change {keys : Keys} {guard : Nat} {seq : UInt64} {r : Record} {rest : List Record}
    (change : r.typ = ctChangeCipherSpec) :
    opened keys (guard + 1) seq (r :: rest) = opened keys guard seq rest := by
  rw [opened, if_pos change]

theorem opened_data {keys : Keys} {guard : Nat} {seq : UInt64} {r : Record} {rest : List Record}
    {p : UInt8 × List UInt8} (data : r.typ = ctApplicationData)
    (opens : openRecord keys seq r = some p) (going : p.1 ≠ ctAlert) :
    opened keys (guard + 1) seq (r :: rest) = p :: opened keys guard (seq + 1) rest := by
  have notChange : r.typ ≠ ctChangeCipherSpec := by rw [data]; decide
  rw [opened, if_neg notChange, if_neg (not_not.mpr data), opens]
  simp only [if_neg going]

/-- **What an accepted flight was**: its handshake contents are messages that were taken in
order, and then a Finished message that verified. -/
theorem serverFlight_ok {secret : List UInt8} {keys : Keys} {guard : Nat} {s s' : Stream}
    {seq : UInt64} {f f' : Flight}
    (done : serverFlight secret keys guard s seq f = .ok (f', s')) :
    ∃ ps msgs g body, ps <+: opened keys guard seq (records s.pending) ∧
      Took (f.extend (contents ctHandshake ps)) g msgs ∧ Verified secret g f' body := by
  induction guard generalizing s seq f with
  | zero => cases done
  | succ guard ih =>
    rw [serverFlight] at done
    obtain ⟨⟨r, next⟩, reads, done⟩ := bind_eq_ok.mp done
    have arrives := (records_of_readRecord (require_eq_ok.mp reads)).1
    rw [arrives]
    simp only at done
    by_cases change : r.typ = ctChangeCipherSpec
    · rw [if_pos change] at done
      rw [opened_change change]
      exact ih done
    by_cases alert : r.typ = ctAlert
    · rw [if_neg change, if_pos alert] at done
      cases done
    by_cases other : r.typ ≠ ctApplicationData
    · rw [if_neg change, if_neg alert, if_pos other] at done
      cases done
    rw [if_neg change, if_neg alert, if_neg other] at done
    obtain ⟨⟨innerType, plain⟩, opens, done⟩ := bind_eq_ok.mp done
    simp only at done
    by_cases alert : innerType = ctAlert
    · rw [if_pos alert] at done
      cases done
    rw [if_neg alert] at done
    rw [opened_data (not_not.mp other) (require_eq_ok.mp opens) alert]
    by_cases passed : innerType ≠ ctHandshake
    · rw [if_pos passed] at done
      obtain ⟨ps, msgs, g, body, front, took, verified⟩ := ih done
      refine ⟨(innerType, plain) :: ps, msgs, g, body, List.cons_prefix_cons.mpr ⟨rfl, front⟩, ?_,
        verified⟩
      rw [contents_cons_other passed]
      exact took
    rw [if_neg passed] at done
    obtain rfl : innerType = ctHandshake := not_not.mp passed
    obtain ⟨⟨finished, f₁⟩, took, done⟩ := bind_eq_ok.mp done
    obtain ⟨msgs, g, here, ends⟩ := takeMessages_ok took
    have single : contents ctHandshake [(ctHandshake, plain)] = plain := by
      simp [contents]
    cases finished with
    | true =>
      obtain ⟨body, verified⟩ := ends
      cases done
      refine ⟨[(ctHandshake, plain)], msgs, g, body, List.cons_prefix_cons.mpr ⟨rfl, ?_⟩, ?_,
        verified⟩
      · exact List.nil_prefix
      · rw [single]
        exact here
    | false =>
      obtain rfl : f₁ = g := ends
      obtain ⟨ps, msgs', g, body, front, took', verified⟩ := ih done
      refine ⟨(ctHandshake, plain) :: ps, msgs ++ msgs', g, body,
        List.cons_prefix_cons.mpr ⟨rfl, front⟩, ?_, verified⟩
      rw [contents_cons_same, ← Flight.extend_extend]
      exact here.trans took'

/-- What reading the server hello returned. -/
theorem readServerHello_ok {s s' : Stream} {transcript transcript' : Sha256}
    {share : Vector UInt8 32}
    (done : readServerHello s transcript = .ok (share, transcript', s')) :
    ∃ front r, records s.pending = front ++ r :: records s'.pending ∧
      (∀ x ∈ front, x.typ = ctChangeCipherSpec) ∧ parseServerHello r.body = .ok share ∧
        transcript' = Sha256.update transcript r.body := by
  induction size : s.pending.length using Nat.strong_induction_on generalizing s with
  | _ n ih =>
    rw [readServerHello] at done
    split at done
    · cases done
    rename_i r next reads
    obtain ⟨arrives, shorter⟩ := records_of_readRecord reads
    by_cases change : r.typ = ctChangeCipherSpec
    · rw [if_pos change] at done
      obtain ⟨front, hello, rest, changes, read⟩ := ih _ (size ▸ shorter) done rfl
      refine ⟨r :: front, hello, ?_, ?_, read⟩
      · rw [arrives, rest, List.cons_append]
      · intro x isMember
        cases isMember with
        | head => exact change
        | tail _ later => exact changes x later
    rw [if_neg change] at done
    split at done
    · cases done
    split at done
    · obtain ⟨share', read, done⟩ := bind_eq_ok.mp done
      cases done
      exact ⟨[], r, arrives, List.forall_mem_nil _, read, rfl⟩
    · cases done

/-- The secrets of a server hello: the handshake secret, and the server's traffic secret with
its keys. -/
structure Secrets (m : Machine) (share : Vector UInt8 32) (thHello : List UInt8) where
  handshake : List UInt8
  server : List UInt8
  keys : Keys
  handshake_eq : handshakeSecret (x25519 m.privKey share) = .ok handshake
  server_eq : deriveSecret handshake serverHandshakeLabel thHello = .ok server
  keys_eq : trafficKeys server = .ok keys

/-- An accepted handshake: the records `hello` and those that opened into `plaintexts` were
received, and the plaintexts hold `messages`, a Finished message and what is left over. -/
structure Accepted (q : Request) (m : Machine) where
  conn : List (List UInt8)
  changes : List Record
  hello : Record
  share : Vector UInt8 32
  flight : List Record
  plaintexts : List (UInt8 × List UInt8)
  messages : List (List UInt8)
  body : List UInt8
  left : List UInt8
  chain : List (List UInt8)
  secrets : Secrets m share (Sha256.finalize (hashed Sha256.new [clientHello q m, hello.body]))
  connected : m.connection = some conn
  received : records (Stream.pending ⟨conn, []⟩) = changes ++ hello :: flight
  skipped : ∀ r ∈ changes, r.typ = ctChangeCipherSpec
  hello_read : parseServerHello hello.body = .ok share
  opens : plaintexts <+: opened secrets.keys 64 0 flight
  cut : contents ctHandshake plaintexts = messages.flatten ++ (message hsFinished body ++ left)
  ordinary : ∀ msg ∈ messages, Ordinary msg
  finished : finishedMac secrets.server
    (Sha256.finalize (hashed Sha256.new (clientHello q m :: hello.body :: messages))) =
      .ok (body.take 32)
  long : 32 ≤ body.length ∧ body.length < 2 ^ 24
  chain_read : certificates [] messages = .ok chain
  validated : X509.validateChain m.now chain q.host = .ok .ok

theorem accepted_of_connect {q : Request} {m : Machine} {session : Session}
    (done : connect q m = .ok session) : Nonempty (Accepted q m) := by
  rw [connect] at done
  obtain ⟨conn, connected, done⟩ := bind_eq_ok.mp done
  obtain ⟨_, _, done⟩ := bind_eq_ok.mp done
  obtain ⟨⟨share, transcript, s⟩, helloRead, done⟩ := bind_eq_ok.mp done
  obtain ⟨hsSecret, handshake_eq, done⟩ := bind_eq_ok.mp done
  obtain ⟨clientSecret, _, done⟩ := bind_eq_ok.mp done
  obtain ⟨serverSecret, server_eq, done⟩ := bind_eq_ok.mp done
  obtain ⟨clientKeys, _, done⟩ := bind_eq_ok.mp done
  obtain ⟨serverKeys, keys_eq, done⟩ := bind_eq_ok.mp done
  obtain ⟨⟨f, s'⟩, flightRead, done⟩ := bind_eq_ok.mp done
  obtain ⟨verdict, validated, done⟩ := bind_eq_ok.mp done
  have trusted : verdict = .ok := by
    by_contra rejected
    simp only at done
    rw [if_pos rejected] at done
    cases done
  subst trusted
  obtain ⟨changes, hello, received, skipped, hello_read, hashedHello⟩ := readServerHello_ok helloRead
  obtain ⟨ps, msgs, g, body, opens, took, verified⟩ := serverFlight_ok flightRead
  have transcript_eq : transcript = hashed Sha256.new [clientHello q m, hello.body] := hashedHello
  rw [transcript_eq] at server_eq
  have hashedAll : g.transcript = hashed Sha256.new (clientHello q m :: hello.body :: msgs) := by
    have step := took.transcript
    rw [transcript_eq] at step
    exact step
  have mac := verified.mac
  rw [hashedAll] at mac
  exact ⟨{
    conn := conn, changes := changes, hello := hello, share := share,
    flight := records s.pending, plaintexts := ps, messages := msgs, body := body,
    left := f.acc, chain := g.chain,
    secrets := ⟨hsSecret, serverSecret, serverKeys, handshake_eq, server_eq, keys_eq⟩,
    connected := require_eq_ok.mp connected
    received := received
    skipped := skipped
    hello_read := hello_read
    opens := opens
    cut := by
      have all := took.acc
      rw [verified.acc] at all
      exact all
    ordinary := took.ordinary
    finished := mac
    long := ⟨verified.long, verified.small⟩
    chain_read := took.chain
    validated := by
      rw [← verified.chain]
      exact validated }⟩

end RustyPenguin.Tls
