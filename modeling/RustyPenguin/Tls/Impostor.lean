import RustyPenguin.Tls.Flight

/-!
# A server with the certificates of another

A server that takes part in the key exchange and presents certificates that validate for the
host, but sends no CertificateVerify message, is accepted: nothing it does needs the private
key of the leaf (`impostor_connects`).
-/

set_option autoImplicit false

namespace RustyPenguin.Tls

open Checked Crypto

/-! ## Secrets exist -/

theorem exists_deriveSecret {label : List UInt8} (short : label.length ≤ 12) (secret : List UInt8)
    (s : Sha256) : ∃ out, deriveSecret secret label (Sha256.finalize s) = .ok out :=
  exists_hkdfExpandLabel (by rw [length_sha256_finalize]; omega) secret 32

theorem exists_trafficKeys (secret : List UInt8) : ∃ keys, trafficKeys secret = .ok keys := by
  obtain ⟨key, keyEq⟩ := exists_hkdfExpandLabel
    (by decide : keyLabel.length + ([] : List UInt8).length ≤ 590) secret 32
  obtain ⟨iv, ivEq⟩ := exists_hkdfExpandLabel
    (by decide : ivLabel.length + ([] : List UInt8).length ≤ 590) secret 12
  exact ⟨_, bind_eq_ok.mpr ⟨key, keyEq, bind_eq_ok.mpr ⟨iv, ivEq, rfl⟩⟩⟩

theorem exists_finishedMac (secret hash : List UInt8) :
    ∃ mac, finishedMac secret hash = .ok mac ∧ mac.length = 32 := by
  obtain ⟨finKey, keyEq⟩ := exists_hkdfExpandLabel
    (by decide : finishedLabel.length + ([] : List UInt8).length ≤ 590) secret 32
  exact ⟨_, bind_eq_ok.mpr ⟨finKey, keyEq, rfl⟩, length_hmacSha256 _ _⟩

theorem exists_handshakeSecret (shared : Vector UInt8 32) :
    ∃ secret, handshakeSecret shared = .ok secret := by
  obtain ⟨derived, derivedEq⟩ := exists_deriveSecret (by decide : derivedLabel.length ≤ 12)
    (hkdfExtract zero32 zero32) (Sha256.update Sha256.new [])
  exact ⟨_, bind_eq_ok.mpr ⟨derived, derivedEq, rfl⟩⟩

theorem exists_masterSecret (handshake : List UInt8) :
    ∃ secret, masterSecret handshake = .ok secret := by
  obtain ⟨derived, derivedEq⟩ := exists_deriveSecret (by decide : derivedLabel.length ≤ 12)
    handshake (Sha256.update Sha256.new [])
  exact ⟨_, bind_eq_ok.mpr ⟨derived, derivedEq, rfl⟩⟩

/-! ## Following the client -/

/-- What is done with the message that stands first. -/
theorem takeMessages_message (secret : List UInt8) {body rest : List UInt8} {mtype : UInt8} {f : Flight}
    (small : body.length < 2 ^ 24) (holds : f.acc = message mtype body ++ rest) :
    takeMessages secret f =
      if mtype = hsFinished then
        finishedMac secret (Sha256.finalize f.transcript) >>= fun expect =>
          if body.length < 32 ∨ expect ≠ body.take 32 then refuse
          else pure (true, ⟨Sha256.update f.transcript (message mtype body), f.chain, rest⟩)
      else
        addCertificates f.chain (message mtype body) >>= fun chain =>
          takeMessages secret
            ⟨Sha256.update f.transcript (message mtype body), chain, rest⟩ := by
  have size : messageLength f.acc = body.length := by
    rw [holds, messageLength_message small]
  have width : (message mtype body).length = 4 + body.length := length_message _ _
  have complete : ¬ (f.acc.length < 4 ∨ f.acc.length < 4 + messageLength f.acc) := by
    rw [size, holds, List.length_append, width]
    omega
  have taken : f.acc.take (4 + messageLength f.acc) = message mtype body := by
    rw [size, holds, ← width, List.take_left]
  have left : f.acc.drop (4 + messageLength f.acc) = rest := by
    rw [size, holds, ← width, List.drop_left]
  have kind : byte (message mtype body) 0 = mtype := rfl
  have long : (message mtype body).length < 4 + 32 ↔ body.length < 32 := by
    rw [width]
    omega
  rw [takeMessages, if_neg complete]
  simp only [taken, left, kind, slice_message, long]

/-- A message of another type than Finished is hashed, read for certificates and passed. -/
theorem takeMessages_ordinary (secret : List UInt8) {body rest : List UInt8} {mtype : UInt8} {f : Flight}
    {chain : List (List UInt8)} (small : body.length < 2 ^ 24) (ordinary : mtype ≠ hsFinished)
    (holds : f.acc = message mtype body ++ rest)
    (added : addCertificates f.chain (message mtype body) = .ok chain) :
    takeMessages secret f =
      takeMessages secret ⟨Sha256.update f.transcript (message mtype body), chain, rest⟩ := by
  rw [takeMessages_message secret small holds, if_neg ordinary]
  exact bind_of_ok added _

/-- A CertificateVerify message, whatever it says, is hashed and passed over. -/
theorem takeMessages_certificateVerify (secret : List UInt8) {body rest : List UInt8} {f : Flight}
    (small : body.length < 2 ^ 24) (holds : f.acc = message hsCertificateVerify body ++ rest) :
    takeMessages secret f =
      takeMessages secret
        ⟨Sha256.update f.transcript (message hsCertificateVerify body), f.chain, rest⟩ :=
  takeMessages_ordinary secret small (by decide) holds rfl

theorem takeMessages_finished {secret body rest : List UInt8} {f : Flight}
    (small : body.length < 2 ^ 24) (long : 32 ≤ body.length)
    (holds : f.acc = message hsFinished body ++ rest)
    (mac : finishedMac secret (Sha256.finalize f.transcript) = .ok (body.take 32)) :
    takeMessages secret f =
      .ok (true, ⟨Sha256.update f.transcript (message hsFinished body), f.chain, rest⟩) := by
  rw [takeMessages_message secret small holds, if_pos rfl]
  refine (bind_of_ok mac _).trans ?_
  rw [if_neg (not_or.mpr ⟨Nat.not_lt.mpr long, not_not.mpr rfl⟩)]
  rfl

theorem readServerHello_hello {s s' : Stream} {r : Record} {share : Vector UInt8 32}
    (transcript : Sha256) (reads : s.readRecord = some (r, s')) (typ : r.typ = ctHandshake)
    (read : parseServerHello r.body = .ok share) :
    readServerHello s transcript = .ok (share, Sha256.update transcript r.body, s') := by
  rw [readServerHello]
  split
  · rename_i none
    rw [reads] at none
    cases none
  rename_i same
  rw [reads] at same
  cases same
  have change : r.typ ≠ ctChangeCipherSpec := by rw [typ]; decide
  have alert : r.typ ≠ ctAlert := by rw [typ]; decide
  rw [if_neg change, if_neg alert, if_pos typ]
  exact bind_eq_ok.mpr ⟨share, read, rfl⟩

/-- A flight in one record. -/
theorem serverFlight_single (guard : Nat) (f : Flight) {secret plain : List UInt8}
    {keys : Keys} {s s' : Stream} {seq : UInt64} {r : Record} {f' : Flight}
    (reads : s.readRecord = some (r, s')) (typ : r.typ = ctApplicationData)
    (opens : openRecord keys seq r = some (ctHandshake, plain))
    (took : takeMessages secret { f with acc := f.acc ++ plain } = .ok (true, f')) :
    serverFlight secret keys (guard + 1) s seq f = .ok (f', s') := by
  have change : r.typ ≠ ctChangeCipherSpec := by rw [typ]; decide
  have alert : r.typ ≠ ctAlert := by rw [typ]; decide
  rw [serverFlight]
  refine bind_eq_ok.mpr ⟨(r, s'), require_eq_ok.mpr reads, ?_⟩
  simp only [if_neg change, if_neg alert]
  rw [if_neg (not_not.mpr typ)]
  refine bind_eq_ok.mpr ⟨(ctHandshake, plain), require_eq_ok.mpr opens, ?_⟩
  simp only
  rw [if_neg (by decide), if_neg (by decide)]
  exact bind_eq_ok.mpr ⟨(true, f'), took, rfl⟩

/-! ## The impostor -/

/-- Bytes that arrive one by one. -/
def segments (bytes : List UInt8) : List (List UInt8) := bytes.map ([·])

theorem arriving_segments (bytes : List UInt8) : Stream.arriving (segments bytes) = bytes := by
  induction bytes with
  | nil => rfl
  | cons x bytes ih =>
    have step : segments (x :: bytes) = [x] :: segments bytes := rfl
    rw [step, arriving_chunk (List.cons_ne_nil _ _), ih]
    rfl

/-- The server hello as a record. -/
def serverHelloRecord (share : Vector UInt8 32) : Record :=
  ⟨#v[ctHandshake, 0x03, 0x03, 0, 84], serverHello share⟩

theorem length_serverHello (share : Vector UInt8 32) : (serverHello share).length = 84 := by
  simp [serverHello_eq, serverHelloBody]

theorem nextRecord_serverHelloRecord (share : Vector UInt8 32) (rest : List UInt8) :
    nextRecord ((serverHelloRecord share).bytes ++ rest) = some (serverHelloRecord share, rest) := by
  have size : (serverHelloRecord share).body.length = 84 := length_serverHello share
  have announced : Record.announced #v[ctHandshake, 0x03, 0x03, 0, 84] = 84 := by decide
  have announces : Record.announced (serverHelloRecord share).hdr =
      (serverHelloRecord share).body.length := announced.trans size.symm
  exact nextRecord_bytes announces (by omega) (by omega) rest

/-- The impostor's flight: the certificates and a Finished message. -/
def impostorFlight (chain : List (List UInt8)) (mac : List UInt8) : List UInt8 :=
  message hsCertificate (certificateBody chain) ++ message hsFinished mac

theorem length_certificateBody (chain : List (List UInt8)) :
    (certificateBody chain).length = 4 + (chain.flatMap certEntry).length := by
  simp [certificateBody, length_len24]
  omega

theorem drop_message (mtype : UInt8) (body : List UInt8) : (message mtype body).drop 4 = body := rfl

theorem takeMessages_impostorFlight {secret mac : List UInt8} {chain : List (List UInt8)}
    {transcript : Sha256} (small : (chain.flatMap certEntry).length ≤ 18000)
    (macSize : mac.length = 32)
    (macEq : finishedMac secret (Sha256.finalize (Sha256.update transcript
      (message hsCertificate (certificateBody chain)))) = .ok mac) :
    takeMessages secret ⟨transcript, [], impostorFlight chain mac⟩ =
      .ok (true, ⟨hashed transcript [message hsCertificate (certificateBody chain),
        message hsFinished mac], chain, []⟩) := by
  have bodySmall : (certificateBody chain).length < 2 ^ 24 := by
    rw [length_certificateBody]
    omega
  have kind : byte (message hsCertificate (certificateBody chain)) 0 = hsCertificate := rfl
  have added : addCertificates [] (message hsCertificate (certificateBody chain)) = .ok chain := by
    rw [addCertificates, if_pos kind, drop_message]
    exact parseCertList_encode (by omega)
  have whole : mac.take 32 = mac := List.take_of_length_le (by omega)
  have macSmall : mac.length < 2 ^ 24 := by omega
  have first := takeMessages_ordinary secret
    (f := ⟨transcript, [], impostorFlight chain mac⟩) bodySmall (by decide) rfl added
  have holds : message hsFinished mac = message hsFinished mac ++ [] := (List.append_nil _).symm
  have second := takeMessages_finished
    (f := ⟨Sha256.update transcript (message hsCertificate (certificateBody chain)), chain,
      message hsFinished mac⟩) macSmall (by omega) holds (by rw [whole]; exact macEq)
  exact first.trans second

theorem exists_httpRequest {q : Request} (get : q.body = []) : ∃ req, httpRequest q = .ok req := by
  have none : contentHeaders q = .ok [] := by
    rw [contentHeaders, if_pos get]
    rfl
  exact ⟨_, bind_eq_ok.mpr ⟨[], none, rfl⟩⟩

/-- **An impostor connects**: for any share and any certificates that validate for the host,
there are bytes after which the client has sent its request, whatever follows them, and they
are a server hello and one record that holds the certificates and a Finished message. -/
theorem impostor_connects {q : Request} (get : q.body = []) {m : Machine}
    (sends : ∀ data, m.send data = true) (share : Vector UInt8 32) {chain : List (List UInt8)}
    (validated : X509.validateChain m.now chain q.host = .ok .ok)
    (small : (chain.flatMap certEntry).length ≤ 18000) :
    ∃ (secrets : Secrets m share (Sha256.finalize (hashed Sha256.new
        [clientHello q m, serverHello share]))) (mac : List UInt8) (keys : Keys),
      mac.length = 32 ∧
      ∀ tail, ∃ s, s.pending = tail ∧
        connect q { m with connection := some (segments ((serverHelloRecord share).bytes ++
          ((sealRecord secrets.keys 0 (impostorFlight chain mac) ctHandshake).bytes ++ tail))) } =
            .ok ⟨keys, s⟩ := by
  have hello : hashed Sha256.new [clientHello q m, serverHello share] =
      Sha256.update (Sha256.update Sha256.new (clientHello q m)) (serverHello share) := rfl
  -- the secrets up to the flight
  obtain ⟨hsSecret, hsEq⟩ := exists_handshakeSecret (x25519 m.privKey share)
  obtain ⟨clientSecret, clientEq⟩ := exists_deriveSecret
    (by decide : clientHandshakeLabel.length ≤ 12) hsSecret
    (hashed Sha256.new [clientHello q m, serverHello share])
  obtain ⟨serverSecret, serverEq⟩ := exists_deriveSecret
    (by decide : serverHandshakeLabel.length ≤ 12) hsSecret
    (hashed Sha256.new [clientHello q m, serverHello share])
  obtain ⟨clientKeys, clientKeysEq⟩ := exists_trafficKeys clientSecret
  obtain ⟨serverKeys, serverKeysEq⟩ := exists_trafficKeys serverSecret
  obtain ⟨mac, macEq, macSize⟩ := exists_finishedMac serverSecret (Sha256.finalize
    (Sha256.update (hashed Sha256.new [clientHello q m, serverHello share])
      (message hsCertificate (certificateBody chain))))
  have took := takeMessages_impostorFlight small macSize macEq
  generalize hashed (hashed Sha256.new [clientHello q m, serverHello share])
    [message hsCertificate (certificateBody chain), message hsFinished mac] = done at took
  -- the secrets after it
  obtain ⟨master, masterEq⟩ := exists_masterSecret hsSecret
  obtain ⟨clientAp, clientApEq⟩ := exists_deriveSecret
    (by decide : clientApplicationLabel.length ≤ 12) master done
  obtain ⟨serverAp, serverApEq⟩ := exists_deriveSecret
    (by decide : serverApplicationLabel.length ≤ 12) master done
  obtain ⟨clientApKeys, clientApKeysEq⟩ := exists_trafficKeys clientAp
  obtain ⟨serverApKeys, serverApKeysEq⟩ := exists_trafficKeys serverAp
  obtain ⟨verify, verifyEq, _⟩ := exists_finishedMac clientSecret (Sha256.finalize done)
  obtain ⟨req, reqEq⟩ := exists_httpRequest get
  refine ⟨⟨hsSecret, serverSecret, serverKeys, hsEq, serverEq, serverKeysEq⟩, mac, serverApKeys,
    macSize, fun tail => ?_⟩
  -- the two records are read off the bytes that arrive
  have plainSize : (impostorFlight chain mac).length + 17 ≤ 18432 := by
    rw [impostorFlight, List.length_append, length_message, length_message, length_certificateBody]
    omega
  generalize arrivesEq : (serverHelloRecord share).bytes ++
    ((sealRecord serverKeys 0 (impostorFlight chain mac) ctHandshake).bytes ++ tail) = arrives
  have start : (⟨segments arrives, []⟩ : Stream).pending = arrives := arriving_segments arrives
  have next : nextRecord (⟨segments arrives, []⟩ : Stream).pending =
      some (serverHelloRecord share,
        (sealRecord serverKeys 0 (impostorFlight chain mac) ctHandshake).bytes ++ tail) := by
    rw [start, ← arrivesEq]
    exact nextRecord_serverHelloRecord share _
  obtain ⟨s₁, reads₁, left₁⟩ := readRecord_some next
  have next₁ : nextRecord s₁.pending =
      some (sealRecord serverKeys 0 (impostorFlight chain mac) ctHandshake, tail) := by
    rw [left₁]
    exact nextRecord_sealRecord serverKeys 0 _ ctHandshake plainSize tail
  obtain ⟨s₂, reads₂, left₂⟩ := readRecord_some next₁
  refine ⟨s₂, left₂, ?_⟩
  have helloRead := readServerHello_hello (Sha256.update Sha256.new (clientHello q m)) reads₁ rfl
    (parseServerHello_serverHello share)
  have flightRead := serverFlight_single 63
    ⟨hashed Sha256.new [clientHello q m, serverHello share], [], []⟩ reads₂ rfl
    (openRecord_sealRecord serverKeys 0 (impostorFlight chain mac) (by decide)) took
  have sent : ∀ data, sendRaw { m with connection := some (segments arrives) } data = .ok () := by
    intro data
    rw [sendRaw, if_pos (sends data)]
    rfl
  -- and the client goes all the way
  rw [connect]
  refine bind_eq_ok.mpr ⟨segments arrives, rfl, bind_eq_ok.mpr ⟨(), sent _, ?_⟩⟩
  refine bind_eq_ok.mpr ⟨_, helloRead, bind_eq_ok.mpr ⟨hsSecret, hsEq, ?_⟩⟩
  refine bind_eq_ok.mpr ⟨clientSecret, clientEq, bind_eq_ok.mpr ⟨serverSecret, serverEq, ?_⟩⟩
  refine bind_eq_ok.mpr ⟨clientKeys, clientKeysEq, bind_eq_ok.mpr ⟨serverKeys, serverKeysEq, ?_⟩⟩
  refine bind_eq_ok.mpr ⟨_, flightRead, bind_eq_ok.mpr ⟨.ok, validated, ?_⟩⟩
  rw [if_neg (not_not.mpr rfl)]
  refine bind_eq_ok.mpr ⟨master, masterEq, ?_⟩
  refine bind_eq_ok.mpr ⟨clientAp, clientApEq, bind_eq_ok.mpr ⟨serverAp, serverApEq, ?_⟩⟩
  refine bind_eq_ok.mpr ⟨clientApKeys, clientApKeysEq, ?_⟩
  refine bind_eq_ok.mpr ⟨serverApKeys, serverApKeysEq, bind_eq_ok.mpr ⟨verify, verifyEq, ?_⟩⟩
  refine bind_eq_ok.mpr ⟨(), sent _, bind_eq_ok.mpr ⟨req, reqEq, ?_⟩⟩
  exact bind_eq_ok.mpr ⟨(), sent _, rfl⟩

/-- A response in one record, after which nothing arrives. -/
theorem receive_single {keys : Keys} {outLen guard : Nat} {s s' : Stream} {r : Record}
    {seq : UInt64} {content : List UInt8} (reads : s.readRecord = some (r, s'))
    (typ : r.typ = ctApplicationData)
    (opens : openRecord keys seq r = some (ctApplicationData, content))
    (room : content.length < outLen) (ends : s'.readRecord = none) :
    receive keys outLen (guard + 2) s seq [] = content := by
  have change : r.typ ≠ ctChangeCipherSpec := by rw [typ]; decide
  have whole : content.take (min content.length (outLen - ([] : List UInt8).length)) = content :=
    List.take_of_length_le (by simp; omega)
  rw [receive, reads]
  simp only [if_neg change, opens, whole, List.nil_append, ↓reduceIte]
  rw [if_neg (not_not.mpr typ), if_neg (by omega), receive, ends]

/-- A string starts with one message only. -/
theorem message_append_inj {t t' : UInt8} {body body' rest rest' : List UInt8}
    (small : body.length < 2 ^ 24) (small' : body'.length < 2 ^ 24)
    (same : message t body ++ rest = message t' body' ++ rest') :
    t = t' ∧ body = body' ∧ rest = rest' := by
  have kinds : t = t' := (List.cons.inj same).1
  have size : body.length = body'.length := by
    rw [← messageLength_message small rest, same, messageLength_message small' rest']
  have width : (message t body).length = (message t' body').length := by
    rw [length_message, length_message, size]
  obtain ⟨whole, left⟩ := List.append_inj same width
  have bodies := congrArg (List.drop 4) whole
  rw [drop_message, drop_message] at bodies
  exact ⟨kinds, bodies, left⟩

/-- The keys are determined by the private key, the share and the hello messages. -/
theorem Secrets.keys_unique {m m' : Machine} {share share' : Vector UInt8 32}
    {thHello thHello' : List UInt8} (a : Secrets m share thHello)
    (b : Secrets m' share' thHello') (priv : m.privKey = m'.privKey) (shares : share = share')
    (hellos : thHello = thHello') : a.keys = b.keys := by
  subst shares hellos
  have handshake : a.handshake = b.handshake := by
    refine Except.ok.inj (a.handshake_eq.symm.trans ?_)
    rw [priv]
    exact b.handshake_eq
  have server : a.server = b.server := by
    refine Except.ok.inj (a.server_eq.symm.trans ?_)
    rw [handshake]
    exact b.server_eq
  refine Except.ok.inj (a.keys_eq.symm.trans ?_)
  rw [server]
  exact b.keys_eq

/-- The impostor's flight holds one message before its Finished message. -/
theorem messages_of_impostorFlight {chain : List (List UInt8)} {mac body left junk : List UInt8}
    {messages : List (List UInt8)} (small : (chain.flatMap certEntry).length ≤ 18000)
    (macSize : mac.length = 32) (bodySmall : body.length < 2 ^ 24)
    (ordinary : ∀ msg ∈ messages, Ordinary msg)
    (cut : impostorFlight chain mac ++ junk =
      messages.flatten ++ (message hsFinished body ++ left)) :
    messages = [message hsCertificate (certificateBody chain)] := by
  have certSmall : (certificateBody chain).length < 2 ^ 24 := by
    rw [length_certificateBody]
    omega
  have macSmall : mac.length < 2 ^ 24 := by omega
  rw [impostorFlight, List.append_assoc] at cut
  cases messages with
  | nil =>
    have kinds := (message_append_inj certSmall bodySmall cut).1
    exact absurd kinds (by decide)
  | cons msg messages =>
    obtain ⟨t, b, rfl, bSmall, _⟩ := ordinary msg List.mem_cons_self
    rw [List.flatten_cons, List.append_assoc] at cut
    obtain ⟨kind, same, cut⟩ := message_append_inj certSmall bSmall cut
    cases messages with
    | nil => rw [← kind, ← same]
    | cons msg' messages =>
      obtain ⟨t', b', rfl, bSmall', notFinished⟩ :=
        ordinary msg' (List.mem_cons_of_mem _ List.mem_cons_self)
      rw [List.flatten_cons, List.append_assoc] at cut
      exact absurd (message_append_inj macSmall bSmall' cut).1.symm notFinished

/-- Whatever the client accepts from the impostor, one message came before Finished. -/
theorem messages_of_impostor {q : Request} {m : Machine} {share : Vector UInt8 32}
    {chain : List (List UInt8)} {mac tail : List UInt8}
    (small : (chain.flatMap certEntry).length ≤ 18000) (macSize : mac.length = 32)
    (secrets : Secrets m share (Sha256.finalize (hashed Sha256.new
      [clientHello q m, serverHello share])))
    (a : Accepted q { m with connection := some (segments ((serverHelloRecord share).bytes ++
      ((sealRecord secrets.keys 0 (impostorFlight chain mac) ctHandshake).bytes ++ tail))) }) :
    a.messages = [message hsCertificate (certificateBody chain)] := by
  have plainSize : (impostorFlight chain mac).length + 17 ≤ 18432 := by
    rw [impostorFlight, List.length_append, length_message, length_message, length_certificateBody]
    omega
  have arrives := records_some (nextRecord_serverHelloRecord share
    ((sealRecord secrets.keys 0 (impostorFlight chain mac) ctHandshake).bytes ++ tail))
  rw [records_some (nextRecord_sealRecord secrets.keys 0 _ ctHandshake plainSize tail)] at arrives
  have received := a.received
  have conn : segments _ = a.conn := Option.some.inj a.connected
  have pending : ∀ bytes, (⟨segments bytes, []⟩ : Stream).pending = bytes := arriving_segments
  rw [← conn, pending, arrives] at received
  cases changes : a.changes with
  | cons c rest =>
    rw [changes] at received
    have first : c = serverHelloRecord share := (List.cons.inj received).1.symm
    have skipped := a.skipped c (changes ▸ List.mem_cons_self)
    rw [first] at skipped
    exact absurd skipped (by decide : ctHandshake ≠ ctChangeCipherSpec)
  | nil =>
    rw [changes, List.nil_append] at received
    obtain ⟨hello, flight⟩ := List.cons.inj received
    have read := a.hello_read
    rw [← hello] at read
    have shares : a.share = share :=
      Except.ok.inj (read.symm.trans (parseServerHello_serverHello share))
    have keys : a.secrets.keys = secrets.keys :=
      a.secrets.keys_unique secrets rfl shares (by rw [← hello]; rfl)
    have opens := a.opens
    have flightOpens := openRecord_sealRecord secrets.keys 0 (impostorFlight chain mac)
      (by decide : ctHandshake ≠ 0)
    have going : ctHandshake ≠ ctAlert := by decide
    rw [← flight, keys, opened_data rfl flightOpens going] at opens
    have cut := a.cut
    cases plaintexts : a.plaintexts with
    | nil =>
      rw [plaintexts] at cut
      have none : contents ctHandshake [] = [] := rfl
      have size := congrArg List.length cut
      rw [none, List.length_append, List.length_append, length_message, List.length_nil] at size
      omega
    | cons p ps =>
      rw [plaintexts] at opens cut
      obtain ⟨rfl, _⟩ := List.cons_prefix_cons.mp opens
      rw [contents_cons_same] at cut
      exact messages_of_impostorFlight small macSize a.long.2 a.ordinary cut

section Sample

/-- A request to the host `bank`. -/
def sampleRequest : Request where
  host := [98, 97, 110, 107]
  method := [71, 69, 84]
  path := []
  contentType := []
  body := []
  outLen := 100

/-- A machine in July 2026 that sends everything. -/
def sampleMachine : Machine where
  connection := none
  send _ := true
  privKey := Vector.replicate 32 0
  clientRandom := Vector.replicate 32 0
  sessionId := Vector.replicate 32 0
  now := 20260701000000

def sampleChain : List (List UInt8) := [X509.selfMade sampleRequest.host]

theorem sampleChain_validates :
    X509.validateChain sampleMachine.now sampleChain sampleRequest.host = .ok .ok :=
  X509.selfMade_validates

set_option maxRecDepth 16000 in
/-- What the sample client receives: the impostor's records, and a response of one byte. -/
theorem sample_connects :
    ∃ (secrets : Secrets sampleMachine (Vector.replicate 32 9) (Sha256.finalize
        (hashed Sha256.new [clientHello sampleRequest sampleMachine,
          serverHello (Vector.replicate 32 9)]))) (mac : List UInt8) (keys : Keys) (s : Stream),
      mac.length = 32 ∧
      s.pending = (sealRecord keys 0 [72] ctApplicationData).bytes ∧
      connect sampleRequest { sampleMachine with connection := some (segments
        ((serverHelloRecord (Vector.replicate 32 9)).bytes ++
          ((sealRecord secrets.keys 0 (impostorFlight sampleChain mac) ctHandshake).bytes ++
            (sealRecord keys 0 [72] ctApplicationData).bytes))) } = .ok ⟨keys, s⟩ := by
  obtain ⟨secrets, mac, keys, macSize, connects⟩ := impostor_connects (q := sampleRequest) rfl
    (fun _ => rfl) (Vector.replicate 32 9) sampleChain_validates (by decide)
  obtain ⟨s, left, connected⟩ := connects (sealRecord keys 0 [72] ctApplicationData).bytes
  exact ⟨secrets, mac, keys, s, macSize, left, connected⟩

/-- The sample client gets a response. -/
theorem sample_responds :
    ∃ (secrets : Secrets sampleMachine (Vector.replicate 32 9) (Sha256.finalize
        (hashed Sha256.new [clientHello sampleRequest sampleMachine,
          serverHello (Vector.replicate 32 9)]))) (mac : List UInt8) (keys : Keys),
      mac.length = 32 ∧
      httpsRequest sampleRequest { sampleMachine with connection := some (segments
        ((serverHelloRecord (Vector.replicate 32 9)).bytes ++
          ((sealRecord secrets.keys 0 (impostorFlight sampleChain mac) ctHandshake).bytes ++
            (sealRecord keys 0 [72] ctApplicationData).bytes))) } = .ok [72] := by
  obtain ⟨secrets, mac, keys, s, macSize, left, connected⟩ := sample_connects
  have next : nextRecord s.pending = some (sealRecord keys 0 [72] ctApplicationData, []) := by
    have front := nextRecord_sealRecord keys 0 [72] ctApplicationData (by decide) []
    rw [List.append_nil] at front
    rw [left]
    exact front
  obtain ⟨s', reads, left'⟩ := readRecord_some next
  have ends : s'.readRecord = none := readRecord_none (by rw [left']; rfl)
  have collected : receive keys sampleRequest.outLen 4096 s 0 [] = [72] :=
    receive_single reads rfl (openRecord_sealRecord keys 0 [72] (by decide)) (by decide) ends
  refine ⟨secrets, mac, keys, macSize, bind_eq_ok.mpr ⟨_, connected, ?_⟩⟩
  simp only [collected]
  rfl

end Sample

/-- **A response is authenticated by the key exchange and the certificates**: the server's
flight held a Finished message whose code verifies over the messages before it, and
certificates that validate for the host. A CertificateVerify message is hashed with the other
messages, whatever it says, and nothing asks for one. -/
theorem response_authenticated {q : Request} {m : Machine} {written : List UInt8}
    (responds : httpsRequest q m = .ok written) :
    (∃ a : Accepted q m,
      contents ctHandshake a.plaintexts =
        a.messages.flatten ++ (message hsFinished a.body ++ a.left) ∧
      finishedMac a.secrets.server (Sha256.finalize
        (hashed Sha256.new (clientHello q m :: a.hello.body :: a.messages))) =
          .ok (a.body.take 32) ∧
      certificates [] a.messages = .ok a.chain ∧
      X509.validateChain m.now a.chain q.host = .ok .ok) ∧
    ∀ (secret body rest : List UInt8) (f : Flight), body.length < 2 ^ 24 →
      f.acc = message hsCertificateVerify body ++ rest →
        takeMessages secret f = takeMessages secret
          ⟨Sha256.update f.transcript (message hsCertificateVerify body), f.chain, rest⟩ := by
  obtain ⟨session, connected, _⟩ := bind_eq_ok.mp responds
  obtain ⟨a⟩ := accepted_of_connect connected
  exact ⟨⟨a, a.cut, a.finished, a.chain_read, a.validated⟩,
    fun secret _ _ _ small holds => takeMessages_certificateVerify secret small holds⟩

theorem response_authenticated_sample :
    ∃ q m, ∃ a : Accepted q m, X509.validateChain m.now a.chain q.host = .ok .ok := by
  obtain ⟨secrets, mac, keys, _, responds⟩ := sample_responds
  obtain ⟨⟨a, _, _, _, validated⟩, _⟩ := response_authenticated responds
  exact ⟨_, _, a, validated⟩

set_option maxRecDepth 16000 in
/-- A response to a client that received no CertificateVerify message. -/
theorem responds_without_certificateVerify :
    ∃ q m written, httpsRequest q m = .ok written ∧
      ∀ a : Accepted q m, ∀ msg ∈ a.messages, byte msg 0 ≠ hsCertificateVerify := by
  obtain ⟨secrets, mac, keys, macSize, responds⟩ := sample_responds
  refine ⟨_, _, _, responds, fun a msg isMember => ?_⟩
  rw [messages_of_impostor (by decide) macSize secrets a, List.mem_singleton] at isMember
  rw [isMember]
  exact (by decide : hsCertificate ≠ hsCertificateVerify)

end RustyPenguin.Tls
