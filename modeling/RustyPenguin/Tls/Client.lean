import RustyPenguin.Crypto.Sha256
import RustyPenguin.Crypto.X25519
import RustyPenguin.Foundation.Buffer
import RustyPenguin.Tls.Messages
import RustyPenguin.Tls.Record
import RustyPenguin.X509.Chain

/-!
# The client

One HTTPS request: the hello messages, the key schedule, the encrypted flight of the server
up to its Finished message, the certificates, the client's own Finished, the request, and
the loop that collects the response.

What the client does not decide is a parameter: the connection with what its receives
deliver, whether a send succeeds, the random bytes and the clock.
-/

set_option autoImplicit false

namespace RustyPenguin.Tls

open Checked Crypto

/-! ## Key schedule -/

/-- The bytes of `"key"`. -/
def keyLabel : List UInt8 := [0x6b, 0x65, 0x79]

/-- The bytes of `"iv"`. -/
def ivLabel : List UInt8 := [0x69, 0x76]

/-- The bytes of `"derived"`. -/
def derivedLabel : List UInt8 := [0x64, 0x65, 0x72, 0x69, 0x76, 0x65, 0x64]

/-- The bytes of `"finished"`. -/
def finishedLabel : List UInt8 := [0x66, 0x69, 0x6e, 0x69, 0x73, 0x68, 0x65, 0x64]

/-- The bytes of `" traffic"`. -/
def trafficLabel : List UInt8 := [0x20, 0x74, 0x72, 0x61, 0x66, 0x66, 0x69, 0x63]

/-- The bytes of `"c hs traffic"`. -/
def clientHandshakeLabel : List UInt8 := [0x63, 0x20, 0x68, 0x73] ++ trafficLabel

/-- The bytes of `"s hs traffic"`. -/
def serverHandshakeLabel : List UInt8 := [0x73, 0x20, 0x68, 0x73] ++ trafficLabel

/-- The bytes of `"c ap traffic"`. -/
def clientApplicationLabel : List UInt8 := [0x63, 0x20, 0x61, 0x70] ++ trafficLabel

/-- The bytes of `"s ap traffic"`. -/
def serverApplicationLabel : List UInt8 := [0x73, 0x20, 0x61, 0x70] ++ trafficLabel

def trafficKeys (secret : List UInt8) : Checked Keys := do
  let key ← hkdfExpandLabel secret keyLabel [] 32
  let iv ← hkdfExpandLabel secret ivLabel [] 12
  pure ⟨arrayAt 32 key 0, arrayAt 12 iv 0⟩

def emptyHash : List UInt8 := sha256 []

def zero32 : List UInt8 := List.replicate 32 0

/-- The handshake secret of a shared key. -/
def handshakeSecret (shared : Vector UInt8 32) : Checked (List UInt8) := do
  let earlySecret := hkdfExtract zero32 zero32
  let derived ← deriveSecret earlySecret derivedLabel emptyHash
  pure (hkdfExtract derived shared.toList)

/-- The master secret, from the handshake secret. -/
def masterSecret (handshake : List UInt8) : Checked (List UInt8) := do
  let derived ← deriveSecret handshake derivedLabel emptyHash
  pure (hkdfExtract derived zero32)

/-- The code of a Finished message, over the hash of the messages before it. -/
def finishedMac (secret transcriptHash : List UInt8) : Checked (List UInt8) := do
  let finKey ← hkdfExpandLabel secret finishedLabel [] 32
  pure (hmacSha256 finKey transcriptHash)

/-! ## The server's messages -/

/-- Read the server hello: its share, and the hash state with the message. -/
def readServerHello (s : Stream) (transcript : Sha256) :
    Checked (Vector UInt8 32 × Sha256 × Stream) :=
  match _reads : s.readRecord with
  | none => refuse
  | some (r, next) =>
    if r.typ = ctChangeCipherSpec then readServerHello next transcript
    else if r.typ = ctAlert then refuse
    else if r.typ = ctHandshake then do
      let share ← parseServerHello r.body
      pure (share, Sha256.update transcript r.body, next)
    else refuse
termination_by s.pending.length
decreasing_by exact (records_of_readRecord _reads).2

/-- The flight of the server so far: the hash state, the certificates, and the bytes of a
message that is not complete. -/
structure Flight where
  transcript : Sha256
  chain : List (List UInt8)
  acc : List UInt8

/-- Add the certificates of a message, if it is a certificate message. -/
def addCertificates (chain : List (List UInt8)) (msg : List UInt8) :
    Checked (List (List UInt8)) :=
  if byte msg 0 = hsCertificate then parseCertList (msg.drop 4) chain else pure chain

/-- The length of the message that stands first. -/
def messageLength (acc : List UInt8) : Nat :=
  (byte acc 1).toNat * 65536 + (byte acc 2).toNat * 256 + (byte acc 3).toNat

/-- Take the complete messages: whether a Finished message was among them, which must verify. -/
def takeMessages (secret : List UInt8) (f : Flight) : Checked (Bool × Flight) :=
  if f.acc.length < 4 ∨ f.acc.length < 4 + messageLength f.acc then pure (false, f)
  else
    let msg := f.acc.take (4 + messageLength f.acc)
    let acc := f.acc.drop (4 + messageLength f.acc)
    if byte msg 0 = hsFinished then do
      let expect ← finishedMac secret (Sha256.finalize f.transcript)
      if msg.length < 4 + 32 ∨ expect ≠ Buffer.slice msg 4 32 then refuse
      else pure (true, { f with transcript := Sha256.update f.transcript msg, acc := acc })
    else do
      let chain ← addCertificates f.chain msg
      takeMessages secret ⟨Sha256.update f.transcript msg, chain, acc⟩
termination_by f.acc.length
decreasing_by
  rw [List.length_drop]
  omega

/-- Read the server's flight, of at most `guard` records, up to its Finished message. -/
def serverFlight (secret : List UInt8) (keys : Keys) :
    Nat → Stream → UInt64 → Flight → Checked (Flight × Stream)
  | 0, _, _, _ => refuse
  | guard + 1, s, seq, f => do
    let (r, s) ← require s.readRecord
    if r.typ = ctChangeCipherSpec then serverFlight secret keys guard s seq f
    else if r.typ = ctAlert then refuse
    else if r.typ ≠ ctApplicationData then refuse
    else do
      let (innerType, plain) ← require (openRecord keys seq r)
      if innerType = ctAlert then refuse
      else if innerType ≠ ctHandshake then serverFlight secret keys guard s (seq + 1) f
      else do
        let (finished, f) ← takeMessages secret { f with acc := f.acc ++ plain }
        if finished then pure (f, s) else serverFlight secret keys guard s (seq + 1) f

/-! ## The request -/

/-- What is asked for; at most `outLen` bytes of the response are kept. -/
structure Request where
  host : List UInt8
  method : List UInt8
  path : List UInt8
  contentType : List UInt8
  body : List UInt8
  outLen : Nat

/-- What the machine supplies: the connection, if the host resolves and answers, whether it
takes what is sent, the random bytes and the clock. -/
structure Machine where
  connection : Option (List (List UInt8))
  send : List UInt8 → Bool
  privKey : Vector UInt8 32
  clientRandom : Vector UInt8 32
  sessionId : Vector UInt8 32
  now : Nat

/-- The decimal digits of a positive length, which are written into ten bytes. -/
def decimal (n : Nat) : Checked (List UInt8) :=
  if n < 10 ^ 10 then pure ((Nat.digits 10 n).reverse.map fun d => UInt8.ofNat (48 + d))
  else fault

/-- The header lines `Content-Type` and `Content-Length`, when there is a body. -/
def contentHeaders (q : Request) : Checked (List UInt8) :=
  if q.body = [] then pure []
  else do
    let digits ← decimal q.body.length
    pure ("Content-Type: ".toUTF8.toList ++ q.contentType ++ "\r\nContent-Length: ".toUTF8.toList ++
      digits ++ "\r\n".toUTF8.toList)

/-- The bytes of the request. -/
def httpRequest (q : Request) : Checked (List UInt8) := do
  let path := if q.path = [] then "/".toUTF8.toList else q.path
  let content ← contentHeaders q
  pure (q.method ++ " ".toUTF8.toList ++ path ++ " HTTP/1.1\r\nHost: ".toUTF8.toList ++ q.host ++
    "\r\nUser-Agent: RustyPenguin/2.7\r\nAccept: */*\r\nConnection: close\r\n".toUTF8.toList ++
    content ++ "\r\n".toUTF8.toList ++ q.body)

def clientHello (q : Request) (m : Machine) : List UInt8 :=
  buildClientHello q.host m.clientRandom m.sessionId (x25519Base m.privKey)

/-- The hello message as a record that is not encrypted. -/
def helloRecord (ch : List UInt8) : List UInt8 :=
  [ctHandshake, 0x03, 0x01, UInt8.ofNat (ch.length >>> 8), UInt8.ofNat ch.length] ++ ch

/-- Send, or fail. -/
def sendRaw (m : Machine) (data : List UInt8) : Checked Unit :=
  if m.send data then pure () else refuse

/-- What is left of the connection once the request was sent: the keys of the response, and
the stream. -/
structure Session where
  keys : Keys
  stream : Stream

/-- Everything up to and including the request. -/
def connect (q : Request) (m : Machine) : Checked Session := do
  let conn ← require m.connection
  let ch := clientHello q m
  sendRaw m (helloRecord ch)
  let (share, transcript, s) ← readServerHello ⟨conn, []⟩ (Sha256.update Sha256.new ch)
  let thHello := Sha256.finalize transcript
  let hsSecret ← handshakeSecret (x25519 m.privKey share)
  let clientSecret ← deriveSecret hsSecret clientHandshakeLabel thHello
  let serverSecret ← deriveSecret hsSecret serverHandshakeLabel thHello
  let clientKeys ← trafficKeys clientSecret
  let serverKeys ← trafficKeys serverSecret
  let (f, s) ← serverFlight serverSecret serverKeys 64 s 0 ⟨transcript, [], []⟩
  let verdict ← X509.validateChain m.now f.chain q.host
  if verdict ≠ .ok then refuse
  else do
    let thFinished := Sha256.finalize f.transcript
    let master ← masterSecret hsSecret
    let clientApSecret ← deriveSecret master clientApplicationLabel thFinished
    let serverApSecret ← deriveSecret master serverApplicationLabel thFinished
    let clientApKeys ← trafficKeys clientApSecret
    let serverApKeys ← trafficKeys serverApSecret
    let verify ← finishedMac clientSecret thFinished
    sendRaw m (sealRecord clientKeys 0 (hsFinished :: len24 32 ++ verify) ctHandshake).bytes
    let req ← httpRequest q
    sendRaw m (sealRecord clientApKeys 0 req ctApplicationData).bytes
    pure ⟨serverApKeys, s⟩

/-- Collect the response, of at most `guard` records, until `outLen` bytes were written or
something stops the loop. -/
def receive (keys : Keys) (outLen : Nat) : Nat → Stream → UInt64 → List UInt8 → List UInt8
  | 0, _, _, written => written
  | guard + 1, s, seq, written =>
    match s.readRecord with
    | none => written
    | some (r, s) =>
      if r.typ = ctChangeCipherSpec then receive keys outLen guard s seq written
      else if r.typ ≠ ctApplicationData then written
      else
        match openRecord keys seq r with
        | none => written
        | some (innerType, plain) =>
          if innerType = ctApplicationData then
            let written := written ++ plain.take (min plain.length (outLen - written.length))
            if outLen ≤ written.length then written
            else receive keys outLen guard s (seq + 1) written
          else if innerType = ctAlert then written
          else receive keys outLen guard s (seq + 1) written

/-- One request: the bytes written into the caller's buffer. -/
def httpsRequest (q : Request) (m : Machine) : Checked (List UInt8) := do
  let session ← connect q m
  let written := receive session.keys q.outLen 4096 session.stream 0 []
  if written = [] then refuse else pure written

end RustyPenguin.Tls
