import RustyPenguin.Crypto.Hashing

/-!
# Handshake messages

The messages of the handshake that the client builds and reads. A message is a type, a
length of three bytes and a body (`message`). The client hello is built with nested length
fields; of a server hello only the X25519 share is read, and of a certificate message the
list of certificates.

A certificate message that carries a list of certificates is read back as that list
(`parseCertList_encode`).
-/

set_option autoImplicit false

namespace RustyPenguin.Tls

open Checked Crypto

def hsClientHello : UInt8 := 1
def hsServerHello : UInt8 := 2
def hsCertificate : UInt8 := 11
def hsCertificateVerify : UInt8 := 15
def hsFinished : UInt8 := 20

/-- A length of three bytes. -/
def len24 (n : Nat) : List UInt8 := [UInt8.ofNat (n >>> 16), UInt8.ofNat (n >>> 8), UInt8.ofNat n]

/-- A handshake message. -/
def message (mtype : UInt8) (body : List UInt8) : List UInt8 := mtype :: len24 body.length ++ body

/-- Content behind its length of two bytes. -/
def withLen16 (content : List UInt8) : List UInt8 :=
  [UInt8.ofNat (content.length >>> 8), UInt8.ofNat content.length] ++ content

/-! ## Client hello -/

/-- An extension. -/
def extension (etype : UInt8) (content : List UInt8) : List UInt8 :=
  [0x00, etype] ++ withLen16 content

def buildClientHello (host : List UInt8) (clientRandom sessionId pubkey : Vector UInt8 32) :
    List UInt8 :=
  message hsClientHello
    ([0x03, 0x03] ++ clientRandom.toList ++ [32] ++ sessionId.toList ++ [0x00, 0x02, 0x13, 0x03] ++
      [0x01, 0x00] ++
      withLen16
        (extension 0x00 (withLen16 (0x00 :: withLen16 host)) ++
          extension 0x0a (withLen16 [0x00, 0x1d]) ++
          extension 0x0d
            (withLen16 [0x04, 0x03, 0x08, 0x04, 0x04, 0x01, 0x08, 0x05, 0x08, 0x06, 0x05, 0x03,
              0x06, 0x03, 0x02, 0x01]) ++
          extension 0x2b [0x02, 0x03, 0x04] ++
          extension 0x2d [0x01, 0x01] ++
          extension 0x33 (withLen16 ([0x00, 0x1d] ++ withLen16 pubkey.toList))))

/-! ## Server hello -/

/-- The big-endian number of two bytes at a position. -/
def number16 (b : List UInt8) (i : Nat) : Checked Nat := do
  let high ← index b i
  let low ← index b (i + 1)
  pure (high.toNat * 256 + low.toNat)

/-- The big-endian number of three bytes at a position. -/
def number24 (b : List UInt8) (i : Nat) : Checked Nat := do
  let top ← index b i
  let high ← index b (i + 1)
  let low ← index b (i + 2)
  pure (top.toNat * 65536 + high.toNat * 256 + low.toNat)

/-- The key of a key share extension whose content starts at `i`, if it has the right shape. -/
def keyShare (body : List UInt8) (i etype elen : Nat) : Checked (Option (Vector UInt8 32)) :=
  if etype = 0x0033 ∧ 4 ≤ elen then do
    let klen ← number16 body (i + 2)
    if klen = 32 ∧ i + 4 + 32 ≤ body.length then do
      let k ← sub body (i + 4) (i + 4 + 32)
      pure (some (arrayAt 32 k 0))
    else pure none
  else pure none

/-- Look for a key share among the extensions from `i` on. -/
def findShare (body : List UInt8) (extEnd : Nat) : Nat → Nat → Checked (Vector UInt8 32)
  | 0, _ => fault
  | steps + 1, i =>
    if i + 4 ≤ extEnd then do
      let etype ← number16 body i
      let elen ← number16 body (i + 2)
      if extEnd < i + 4 + elen then refuse
      else
        match ← keyShare body (i + 4) etype elen with
        | some k => pure k
        | none => findShare body extEnd steps (i + 4 + elen)
    else refuse

/-- The server's X25519 share. -/
def parseServerHello (msg : List UInt8) : Checked (Vector UInt8 32) :=
  if msg.length < 4 ∨ byte msg 0 ≠ hsServerHello then refuse
  else do
    let body ← sub msg 4 msg.length
    let i := 34
    if body.length ≤ i then refuse
    else do
      let sidLen ← index body i
      let i := i + 1 + sidLen.toNat + 3
      if body.length < i + 2 then refuse
      else do
        let extTotal ← number16 body i
        let i := i + 2
        findShare body (min (i + extTotal) body.length) (body.length + 1) i

/-! ## Certificates -/

/-- The certificates from position `p` on, added to `out`. -/
def certEntries (body : List UInt8) (stop : Nat) :
    Nat → Nat → List (List UInt8) → Checked (List (List UInt8))
  | 0, _, _ => fault
  | steps + 1, p, out =>
    if p + 3 ≤ stop then do
      let clen ← number24 body p
      let p := p + 3
      if stop < p + clen then pure out
      else do
        let cert ← sub body p (p + clen)
        let out := out ++ [cert]
        let p := p + clen
        if stop < p + 2 then pure out
        else do
          let extLen ← number16 body p
          certEntries body stop steps (p + 2 + extLen) out
    else pure out

/-- Add the certificates of a certificate message to `out`, leaf first. -/
def parseCertList (body : List UInt8) (out : List (List UInt8)) :
    Checked (List (List UInt8)) :=
  if body = [] then pure out
  else do
    let ctxLen ← index body 0
    let p := 1 + ctxLen.toNat
    if body.length < p + 3 then pure out
    else do
      let listLen ← number24 body p
      let p := p + 3
      certEntries body (min (p + listLen) body.length) (body.length + 1) p out

/-! ## What a server sends -/

/-- A certificate, with no extensions, in a list of certificates. -/
def certEntry (der : List UInt8) : List UInt8 := len24 der.length ++ der ++ [0, 0]

/-- The body of a certificate message. -/
def certificateBody (chain : List (List UInt8)) : List UInt8 :=
  0 :: len24 (chain.flatMap certEntry).length ++ chain.flatMap certEntry

/-- A server hello with one extension, the share. -/
def serverHello (share : Vector UInt8 32) : List UInt8 :=
  message hsServerHello
    ([0x03, 0x03] ++ List.replicate 32 0 ++ [0] ++ [0x13, 0x03, 0x00] ++
      withLen16 (extension 0x33 ([0x00, 0x1d] ++ withLen16 share.toList)))

/-- The body of that server hello. -/
def serverHelloBody (share : Vector UInt8 32) : List UInt8 :=
  [0x03, 0x03] ++ List.replicate 32 0 ++ [0, 0x13, 0x03, 0x00, 0, 40, 0, 0x33, 0, 36, 0, 0x1d, 0,
    32] ++ share.toList

theorem serverHello_eq (share : Vector UInt8 32) :
    serverHello share = [2, 0, 0, 80] ++ serverHelloBody share := by
  simp [serverHello, message, len24, withLen16, extension, serverHelloBody, hsServerHello]

theorem parseServerHello_serverHello (share : Vector UInt8 32) :
    parseServerHello (serverHello share) = .ok share := by
  have bodySize : (serverHelloBody share).length = 80 := by simp [serverHelloBody]
  have msgSize : (serverHello share).length = 84 := by simp [serverHello_eq, bodySize]
  have body : sub (serverHello share) 4 84 = .ok (serverHelloBody share) := by
    refine sub_eq_ok.mpr ⟨by omega, by omega, ?_⟩
    have after : (serverHello share).drop 4 = serverHelloBody share := by
      rw [serverHello_eq]
      rfl
    rw [after, List.take_of_length_le (by omega)]
  have key : sub (serverHelloBody share) 48 80 = .ok share.toList := by
    refine sub_eq_ok.mpr ⟨by omega, by omega, ?_⟩
    rw [serverHelloBody, List.drop_left' (by simp), List.take_of_length_le (by simp)]
  have kind : ¬ ((serverHello share).length < 4 ∨ byte (serverHello share) 0 ≠ hsServerHello) := by
    rw [msgSize, serverHello_eq]
    exact not_or.mpr ⟨by decide, not_not.mpr rfl⟩
  rw [parseServerHello, if_neg kind, msgSize]
  refine bind_eq_ok.mpr ⟨_, body, ?_⟩
  simp only [bodySize]
  refine bind_eq_ok.mpr ⟨0, rfl, bind_eq_ok.mpr ⟨40, rfl, ?_⟩⟩
  rw [findShare]
  refine bind_eq_ok.mpr ⟨0x33, rfl, bind_eq_ok.mpr ⟨36, rfl, ?_⟩⟩
  refine bind_eq_ok.mpr ⟨some share, ?_, rfl⟩
  rw [keyShare, if_pos (by decide)]
  refine bind_eq_ok.mpr ⟨32, rfl, ?_⟩
  rw [bodySize, if_pos (by decide)]
  refine bind_eq_ok.mpr ⟨_, key, congrArg (fun k => Except.ok (some k)) ?_⟩
  have read := arrayAt_append [] share []
  simpa using read

theorem number24_len24 {n : Nat} (small : n < 2 ^ 24) (front back : List UInt8) :
    number24 (front ++ (len24 n ++ back)) front.length = .ok n := by
  have at0 : (front ++ (len24 n ++ back))[front.length]? = some (UInt8.ofNat (n >>> 16)) := by
    simp [len24]
  have at1 : (front ++ (len24 n ++ back))[front.length + 1]? = some (UInt8.ofNat (n >>> 8)) := by
    simp [len24]
  have at2 : (front ++ (len24 n ++ back))[front.length + 2]? = some (UInt8.ofNat n) := by
    simp [len24]
  refine bind_eq_ok.mpr ⟨_, index_eq_ok.mpr at0, bind_eq_ok.mpr ⟨_, index_eq_ok.mpr at1, ?_⟩⟩
  refine bind_eq_ok.mpr ⟨_, index_eq_ok.mpr at2, congrArg Except.ok ?_⟩
  simp [Nat.shiftRight_eq_div_pow]
  omega

theorem length_len24 (n : Nat) : (len24 n).length = 3 := rfl

theorem length_certEntry (der : List UInt8) : (certEntry der).length = der.length + 5 := by
  simp [certEntry, length_len24]
  omega

theorem sub_append (front mid back : List UInt8) :
    sub (front ++ (mid ++ back)) front.length (front.length + mid.length) = .ok mid := by
  refine sub_eq_ok.mpr ⟨Nat.le_add_right _ _, ?_, ?_⟩
  · simp
  · rw [List.drop_left, Nat.add_sub_cancel_left, List.take_left]

theorem number16_append (front : List UInt8) (high low : UInt8) (back : List UInt8) :
    number16 (front ++ (high :: low :: back)) front.length =
      .ok (high.toNat * 256 + low.toNat) := by
  have at0 : (front ++ (high :: low :: back))[front.length]? = some high := by simp
  have at1 : (front ++ (high :: low :: back))[front.length + 1]? = some low := by simp
  exact bind_eq_ok.mpr ⟨_, index_eq_ok.mpr at0, bind_eq_ok.mpr ⟨_, index_eq_ok.mpr at1, rfl⟩⟩

/-- One entry is read, and reading goes on behind it. -/
theorem certEntries_entry {der : List UInt8} (small : der.length < 2 ^ 24)
    (front rest : List UInt8) (out : List (List UInt8)) (steps : Nat) :
    certEntries (front ++ (certEntry der ++ rest)) (front ++ (certEntry der ++ rest)).length
        (steps + 1) front.length out =
      certEntries (front ++ (certEntry der ++ rest)) (front ++ (certEntry der ++ rest)).length
        steps (front ++ certEntry der).length (out ++ [der]) := by
  have entry : certEntry der ++ rest = len24 der.length ++ (der ++ (0 :: 0 :: rest)) := by
    simp [certEntry]
  have size : (front ++ (certEntry der ++ rest)).length =
      front.length + der.length + 5 + rest.length := by
    simp only [List.length_append, length_certEntry]
    omega
  have clen := number24_len24 small front (der ++ (0 :: 0 :: rest))
  have cert := sub_append (front ++ len24 der.length) der (0 :: 0 :: rest)
  have extLen := number16_append (front ++ len24 der.length ++ der) 0 0 rest
  simp only [List.length_append, length_len24, List.append_assoc] at cert extLen
  rw [← entry] at clen cert extLen
  rw [← Nat.add_assoc] at extLen
  rw [certEntries, if_pos (by omega)]
  refine (bind_of_ok clen _).trans ?_
  rw [if_neg (by omega)]
  refine (bind_of_ok cert _).trans ?_
  rw [if_neg (by omega)]
  refine (bind_of_ok extLen _).trans ?_
  have behind : front.length + 3 + der.length + 2 + ((0 : UInt8).toNat * 256 + (0 : UInt8).toNat) =
      (front ++ certEntry der).length := by
    rw [List.length_append, length_certEntry]
    simp
    omega
  rw [behind]

/-- The entries of a list of certificates are read in order. -/
theorem certEntries_entries {chain : List (List UInt8)} (small : ∀ der ∈ chain, der.length < 2 ^ 24)
    (front : List UInt8) (out : List (List UInt8)) {steps : Nat} (enough : chain.length < steps) :
    certEntries (front ++ chain.flatMap certEntry) (front ++ chain.flatMap certEntry).length steps
      front.length out = .ok (out ++ chain) := by
  induction chain generalizing front out steps with
  | nil =>
    cases steps with
    | zero => exact absurd enough (Nat.not_lt_zero _)
    | succ steps =>
      rw [certEntries, List.flatMap_nil, List.append_nil, List.append_nil, if_neg (by omega)]
      rfl
  | cons der chain ih =>
    cases steps with
    | zero => exact absurd enough (Nat.not_lt_zero _)
    | succ steps =>
      rw [List.flatMap_cons, certEntries_entry (small der List.mem_cons_self)]
      have later := ih (fun d isMember => small d (List.mem_cons_of_mem _ isMember))
        (front ++ certEntry der) (out ++ [der]) (Nat.lt_of_succ_lt_succ enough)
      rw [List.append_assoc, List.append_assoc] at later
      exact later

theorem length_le_flatMap_certEntry (chain : List (List UInt8)) :
    chain.length ≤ (chain.flatMap certEntry).length := by
  induction chain with
  | nil => exact Nat.le_refl 0
  | cons der chain ih =>
    rw [List.flatMap_cons, List.length_append, length_certEntry, List.length_cons]
    omega

/-- **A list of certificates is read back** from the message that carries it. -/
theorem parseCertList_encode {chain : List (List UInt8)}
    (small : (chain.flatMap certEntry).length < 2 ^ 24) :
    parseCertList (certificateBody chain) [] = .ok chain := by
  have body : certificateBody chain =
      [0] ++ (len24 (chain.flatMap certEntry).length ++ chain.flatMap certEntry) := rfl
  have split : certificateBody chain =
      (0 :: len24 (chain.flatMap certEntry).length) ++ chain.flatMap certEntry := rfl
  have size : (certificateBody chain).length = 4 + (chain.flatMap certEntry).length := by
    rw [split, List.length_append]
    rfl
  have listLen := number24_len24 small [0] (chain.flatMap certEntry)
  have each : ∀ der ∈ chain, der.length < 2 ^ 24 := by
    intro der isMember
    have inside := (List.sublist_flatten_of_mem
      (List.mem_map_of_mem (f := certEntry) isMember)).length_le
    rw [length_certEntry, ← List.flatMap_def] at inside
    omega
  have count := length_le_flatMap_certEntry chain
  rw [parseCertList, if_neg (by simp [body])]
  refine bind_eq_ok.mpr ⟨0, rfl, ?_⟩
  simp only
  rw [if_neg (by simp [size])]
  refine bind_eq_ok.mpr ⟨_, listLen, ?_⟩
  have reads := certEntries_entries each (0 :: len24 (chain.flatMap certEntry).length) []
    (Nat.lt_succ_of_le (by omega : chain.length ≤ (certificateBody chain).length))
  have stop : min (1 + (0 : UInt8).toNat + 3 + (chain.flatMap certEntry).length)
      (certificateBody chain).length = (certificateBody chain).length := by
    rw [size]
    simp
  rw [← split] at reads
  rw [stop]
  exact reads

end RustyPenguin.Tls
