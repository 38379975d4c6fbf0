import RustyPenguin.Net.Dns
import RustyPenguin.Tls.Flight

/-!
# The trust of a fetch

A fetch looks at the scheme of its target. A plain page is fetched over TCP, and up to five
redirects are followed; the first hop with `https` is handed to the TLS client, and there the fetch
ends. The stack keeps a flag that says how the last fetch got its bytes.

The flag is set before anything else and once more with the result, so that it says what the fetch
returned (`fetch_trust`): that the bytes came over a connection whose certificates were validated,
that they are a plain page, or that there are none.
-/

set_option autoImplicit false

namespace RustyPenguin.Net

open Crypto

/-! ## The stack -/

/-- The network stack: the card, whether the network is up, the neighbours that were resolved, and
the trust in the last fetch. -/
structure Stack where
  nic : Nic
  netUp : Bool
  gwMac : Option (Vector UInt8 6)
  dnsMac : Option (Vector UInt8 6)
  lastFetchTrust : Int8

/-- A fetch, which may return nothing. -/
abbrev StackAct (α : Type) : Type := Act Stack Unit α

/-- What runs on the card alone. -/
def onNic {α : Type} (x : NetAct α) : StackAct α := fun s =>
  (x s.nic).map fun (result, nic) => (result, { s with nic := nic })

def setTrust (t : Int8) : StackAct Unit := fun s => some (.ok (), { s with lastFetchTrust := t })

/-- The neighbours, if the network is up and both were resolved. -/
def neighbours : StackAct (Vector UInt8 6 × Vector UInt8 6) := fun s =>
  match s.netUp, s.gwMac, s.dnsMac with
  | true, some gw, some dns => some (.ok (gw, dns), s)
  | _, _, _ => some (.error (), s)

/-! ## Reading a response -/

/-- The bytes of a text. -/
def text (t : String) : List UInt8 := t.toUTF8.toList

/-- The bytes are a string. -/
def isUtf8 (bytes : List UInt8) : Bool := ByteArray.validateUTF8 ⟨bytes.toArray⟩

def toAsciiLowercase (b : UInt8) : UInt8 := if 65 ≤ b ∧ b ≤ 90 then b + 32 else b

def startsWithCi (hay needle : List UInt8) : Bool :=
  needle.length ≤ hay.length ∧
    (hay.zip needle).all fun (a, b) => toAsciiLowercase a == toAsciiLowercase b

def isAsciiDigit (b : UInt8) : Bool := 48 ≤ b ∧ b ≤ 57

/-- The status code, a short word that wraps. -/
def httpStatus (resp : List UInt8) : Option UInt16 :=
  if ¬ text "HTTP/" <+: resp then none
  else
    match resp.dropWhile (· ≠ 32) with
    | [] => none
    | _ :: rest =>
      let digits := rest.takeWhile isAsciiDigit
      if digits.isEmpty then none
      else some (digits.foldl (fun code b => code * 10 + (b - 48).toUInt16) 0)

/-- What follows a header's name, from a position that may start a line. -/
def findHeaderFrom (nameColon : List UInt8) (atLineStart : Bool) (resp : List UInt8) :
    Option (List UInt8) :=
  if resp.length < nameColon.length then none
  else if atLineStart ∧ startsWithCi resp nameColon then some (resp.drop nameColon.length)
  else
    match resp with
    | [] => none
    | b :: rest => findHeaderFrom nameColon (b == 10) rest

def findHeader (resp nameColon : List UInt8) : Option (List UInt8) :=
  findHeaderFrom nameColon true resp

/-- Where a redirect leads. -/
structure Location where
  isHttps : Bool
  host : List UInt8
  path : List UInt8

/-- The host and the path of a location with a scheme. -/
def absolute (isHttps : Bool) (afterScheme : List UInt8) : Location :=
  let host := afterScheme.takeWhile fun b => b ≠ 47 ∧ b ≠ 63
  let path := afterScheme.dropWhile fun b => b ≠ 47 ∧ b ≠ 63
  ⟨isHttps, host.take 128, if path.isEmpty then [47] else path.take 256⟩

/-- The `Location` header of a response. A location without a scheme is a path, with no host. -/
def parseLocation (resp : List UInt8) : Option Location := do
  let loc ← findHeader resp (text "location:")
  let val := (loc.dropWhile fun b => b = 32 ∨ b = 9).takeWhile fun b => b ≠ 13 ∧ b ≠ 10
  if val.isEmpty then none
  else if startsWithCi val (text "https://") then some (absolute true (val.drop 8))
  else if startsWithCi val (text "http://") then some (absolute false (val.drop 7))
  else some ⟨false, [], val.take 256⟩

/-- Where a response redirects to, if it does. -/
def redirect (resp : List UInt8) : Option Location :=
  match httpStatus resp with
  | none => none
  | some code => if 301 ≤ code ∧ code ≤ 308 ∧ code ≠ 304 then parseLocation resp else none

/-! ## The fetch -/

/-- The request of a fetch over TLS. -/
def getRequest (host path : List UInt8) (room : Nat) : Tls.Request :=
  ⟨host, text "GET", path, [], [], room⟩

/-- Fetch over TLS, and set the trust by the result. -/
def httpsGet (m : Tls.Machine) (host path : List UInt8) (room : Nat) : StackAct (List UInt8) :=
  match Tls.httpsRequest (getRequest host path room) m with
  | .ok bytes => do
    setTrust 1
    pure bytes
  | .error .refused => do
    setTrust (-1)
    .fail ()
  | .error .fault => .stuck

/-- Fetch a page over plain HTTP. -/
def plainPage (gw dns : Vector UInt8 6) (host path : List UInt8) (room : Nat) :
    NetAct (List UInt8) :=
  if isUtf8 host then do
    let ip ← dnsResolve dns host
    tcpHttpGet gw ip 80 host (if isUtf8 path then path else text "/") room
  else giveUp

/-- Return a page that came over plain HTTP. -/
def showPlain (page : List UInt8) : StackAct (List UInt8) := do
  setTrust 0
  pure page

/-- The host of a redirect to `https`, which is the current one when there is none. -/
def redirectHost (cur host : List UInt8) : List UInt8 :=
  if host.isEmpty then cur else if isUtf8 host then host else cur

/-- A path of at least one byte. -/
def atLeastOne (path : List UInt8) : List UInt8 := if path.isEmpty then [0] else path

/-- Fetch a page and follow at most `hops` redirects. -/
def follow (m : Tls.Machine) (gw dns : Vector UInt8 6) (room : Nat) :
    Nat → List UInt8 → List UInt8 → StackAct (List UInt8)
  | 0, host, path => do
    let page ← onNic (plainPage gw dns host path room)
    showPlain page
  | hops + 1, host, path => do
    let page ← onNic (plainPage gw dns host path room)
    match redirect page with
    | none => showPlain page
    | some loc =>
      let path := atLeastOne loc.path
      if loc.isHttps then
        httpsGet m (redirectHost host loc.host) (if isUtf8 path then path else text "/") room
      else follow m gw dns room hops loc.host path

def maxRedir : Nat := 5

/-- Whether the target is to be fetched over TLS, and what follows its scheme. -/
def splitScheme (target : List UInt8) : Bool × List UInt8 :=
  if startsWithCi target (text "https://") then (true, target.drop 8)
  else if startsWithCi target (text "http://") then (false, target.drop 7)
  else (false, target)

/-- The host, up to the first slash, and the path. -/
def splitPath (rest : List UInt8) : List UInt8 × List UInt8 :=
  let path := rest.dropWhile (· ≠ 47)
  (rest.takeWhile (· ≠ 47), if path.isEmpty then [47] else path)

/-- Fetch what `target` names, into a buffer of `room` bytes. -/
def httpGet (m : Tls.Machine) (target : List UInt8) (room : Nat) : StackAct (List UInt8) := do
  setTrust (-1)
  let (gw, dns) ← neighbours
  let (isHttps, rest) := splitScheme target
  let (host, path) := splitPath rest
  if isHttps then httpsGet m host path room
  else follow m gw dns room maxRedir (host.take 128) (path.take 256)

/-! ## Where the bytes came from -/

/-- The bytes are a response that was received over TLS, in a handshake whose certificates were
validated for the host. -/
def Verified (m : Tls.Machine) (room : Nat) (bytes : List UInt8) : Prop :=
  ∃ host path, Nonempty (Tls.Accepted (getRequest host path room) m) ∧
    Tls.httpsRequest (getRequest host path room) m = .ok bytes

/-- The bytes are a page that was fetched over plain HTTP from the card as it had gone on, and
nothing ran on the card after that. -/
def Plain (room : Nat) (s s' : Stack) (bytes : List UInt8) : Prop :=
  ∃ gw ip host path between, s.gwMac = some gw ∧ s.nic.Later between ∧
    tcpHttpGet gw ip 80 host path room between = some (.ok bytes, s'.nic)

/-- The flag says where the result came from. -/
inductive Told (m : Tls.Machine) (room : Nat) (s s' : Stack) : Except Unit (List UInt8) → Prop
  | verified {bytes : List UInt8} (trust : s'.lastFetchTrust = 1)
      (source : Verified m room bytes) : Told m room s s' (.ok bytes)
  | plain {bytes : List UInt8} (trust : s'.lastFetchTrust = 0)
      (source : Plain room s s' bytes) : Told m room s s' (.ok bytes)
  | failed (trust : s'.lastFetchTrust = -1) : Told m room s s' (.error ())

section Trust

variable {m : Tls.Machine} {room : Nat} {s s₁ s' : Stack} {r : Except Unit (List UInt8)}
  {gw dns : Vector UInt8 6} {host path : List UInt8}

/-- A stack on which only the card went on. -/
structure Stack.Onward (s s' : Stack) : Prop where
  nic : s.nic.Later s'.nic
  gwMac : s'.gwMac = s.gwMac
  lastFetchTrust : s'.lastFetchTrust = s.lastFetchTrust

/-- What is told of the rest of a fetch is told of all of it. -/
theorem Told.earlier (onward : s.Onward s₁) (told : Told m room s₁ s' r) : Told m room s s' r := by
  cases told with
  | verified trust source => exact .verified trust source
  | plain trust source =>
    obtain ⟨gw, ip, host, path, between, gateway, later, fetched⟩ := source
    refine .plain trust ⟨gw, ip, host, path, between, ?_, ?_, fetched⟩
    · rw [← onward.gwMac]
      exact gateway
    · exact Nic.Later.trans _ _ _ onward.nic later
  | failed trust => exact .failed trust

theorem onNic_eq_some {α : Type} {x : NetAct α} {result : Except Unit α}
    (ends : onNic x s = some (result, s')) :
    x s.nic = some (result, s'.nic) ∧ s' = { s with nic := s'.nic } := by
  rw [onNic] at ends
  obtain ⟨⟨result', nic⟩, ran, same⟩ := Option.map_eq_some_iff.mp ends
  cases same
  exact ⟨ran, rfl⟩

theorem onward_of_onNic {α : Type} {x : NetAct α} {result : Except Unit α} (goes : GoesOn x)
    (ends : onNic x s = some (result, s')) : s.Onward s' := by
  obtain ⟨ran, same⟩ := onNic_eq_some ends
  rw [same]
  exact ⟨goes _ _ _ ran, rfl, rfl⟩

theorem goesOn_plainPage (gw dns : Vector UInt8 6) (host path : List UInt8) (room : Nat) :
    GoesOn (plainPage gw dns host path room) := by
  rw [plainPage]
  split
  · exact (goesOn_dnsResolve _ _).bind fun ip => goesOn_tcpHttpGet _ _ _ _ _ _
  · exact goesOn_giveUp

/-- A page comes from one fetch, which is the last thing that ran on the card. -/
theorem plain_of_plainPage {bytes : List UInt8} (gateway : s.gwMac = some gw)
    (ends : onNic (plainPage gw dns host path room) s = some (.ok bytes, s')) :
    Plain room s s' bytes := by
  obtain ⟨ran, _⟩ := onNic_eq_some ends
  rw [plainPage] at ran
  split at ran
  · rcases Act.bind_eq_some.mp ran with ⟨_, _, none⟩ | ⟨ip, between, resolved, fetched⟩
    · cases none
    exact ⟨gw, ip, host, _, between, gateway, goesOn_dnsResolve _ _ _ _ _ resolved, fetched⟩
  · cases ran

/-- Bytes that the TLS client returns were received after a validated handshake. -/
theorem verified_of_httpsRequest {bytes : List UInt8}
    (returned : Tls.httpsRequest (getRequest host path room) m = .ok bytes) :
    Verified m room bytes := by
  have connected := returned
  rw [Tls.httpsRequest] at connected
  obtain ⟨session, connected, _⟩ := Checked.bind_eq_ok.mp connected
  exact ⟨host, path, Tls.accepted_of_connect connected, returned⟩

theorem told_of_httpsGet (ends : httpsGet m host path room s = some (r, s')) :
    Told m room s s' r := by
  rw [httpsGet] at ends
  cases returned : Tls.httpsRequest (getRequest host path room) m with
  | ok bytes =>
    rw [returned] at ends
    cases ends
    exact .verified rfl (verified_of_httpsRequest returned)
  | error stop =>
    rw [returned] at ends
    cases stop with
    | refused =>
      cases ends
      exact .failed rfl
    | fault => cases ends

/-- What a hop returns as a page is told to be plain. -/
theorem told_of_showPlain {bytes : List UInt8} (gateway : s.gwMac = some gw)
    (fetched : onNic (plainPage gw dns host path room) s = some (.ok bytes, s₁))
    (ends : showPlain bytes s₁ = some (r, s')) : Told m room s s' r := by
  obtain ⟨gw, ip, host, path, between, gateway, later, page⟩ := plain_of_plainPage gateway fetched
  cases ends
  exact .plain rfl ⟨gw, ip, host, path, between, gateway, later, page⟩

/-- Redirects are followed from a stack whose flag says that nothing was returned. -/
theorem told_of_follow (hops : Nat) (pending : s.lastFetchTrust = -1) (gateway : s.gwMac = some gw)
    (ends : follow m gw dns room hops host path s = some (r, s')) : Told m room s s' r := by
  induction hops generalizing s host path with
  | zero =>
    rw [follow] at ends
    rcases Act.bind_eq_some.mp ends with ⟨_, stopped, rfl⟩ | ⟨page, s₁, fetched, ends⟩
    · exact .failed ((onward_of_onNic (goesOn_plainPage _ _ _ _ _) stopped).lastFetchTrust.trans
        pending)
    · exact told_of_showPlain gateway fetched ends
  | succ hops ih =>
    rw [follow] at ends
    rcases Act.bind_eq_some.mp ends with ⟨_, stopped, rfl⟩ | ⟨page, s₁, fetched, ends⟩
    · exact .failed ((onward_of_onNic (goesOn_plainPage _ _ _ _ _) stopped).lastFetchTrust.trans
        pending)
    have onward := onward_of_onNic (goesOn_plainPage _ _ _ _ _) fetched
    cases leads : redirect page with
    | none =>
      rw [leads] at ends
      exact told_of_showPlain gateway fetched ends
    | some loc =>
      rw [leads] at ends
      refine Told.earlier onward ?_
      dsimp only at ends
      split at ends
      · exact told_of_httpsGet ends
      · refine ih ?_ ?_ ends
        · rw [onward.lastFetchTrust]
          exact pending
        · rw [onward.gwMac]
          exact gateway

/-- A fetch tells where its result came from. -/
theorem told_of_httpGet {target : List UInt8} (ends : httpGet m target room s = some (r, s')) :
    Told m room s s' r := by
  rw [httpGet, Act.bind_of_ok (m := { s with lastFetchTrust := -1 }) rfl] at ends
  rcases Act.bind_eq_some.mp ends with ⟨_, stopped, rfl⟩ | ⟨⟨gw, dns⟩, s₁, found, ends⟩
  · rw [neighbours] at stopped
    split at stopped
    · cases stopped
    · cases stopped
      exact .failed rfl
  · rw [neighbours] at found
    split at found
    · next gw dns _ gateway _ =>
      cases found
      dsimp only at ends
      have told : Told m room { s with lastFetchTrust := -1 } s' r := by
        split at ends
        · exact told_of_httpsGet ends
        · exact told_of_follow maxRedir rfl gateway ends
      cases told with
      | verified trust source => exact .verified trust source
      | plain trust source => exact .plain trust source
      | failed trust => exact .failed trust
    · cases found

/-- **The trust flag tells the truth**: whenever a fetch returns, the flag says `verified` only of
bytes that were received over TLS in a handshake whose certificates were validated, `plain` only
of a page that was fetched over plain HTTP, and `failed` exactly when nothing was returned. -/
theorem fetch_trust {target : List UInt8} (ends : httpGet m target room s = some (r, s')) :
    (s'.lastFetchTrust = 1 ∨ s'.lastFetchTrust = 0 ∨ s'.lastFetchTrust = -1) ∧
      (s'.lastFetchTrust = 1 → ∃ bytes, r = .ok bytes ∧ Verified m room bytes) ∧
      (s'.lastFetchTrust = 0 → ∃ bytes, r = .ok bytes ∧ Plain room s s' bytes) ∧
      (s'.lastFetchTrust = -1 ↔ r = .error ()) := by
  cases told_of_httpGet ends with
  | verified trust source =>
    rw [trust]
    refine ⟨.inl rfl, fun _ => ⟨_, rfl, source⟩, fun other => ?_, ?_⟩
    · cases other
    · exact ⟨fun other => (nomatch other), fun other => (nomatch other)⟩
  | plain trust source =>
    rw [trust]
    refine ⟨.inr (.inl rfl), fun other => ?_, fun _ => ⟨_, rfl, source⟩, ?_⟩
    · cases other
    · exact ⟨fun other => (nomatch other), fun other => (nomatch other)⟩
  | failed trust =>
    rw [trust]
    refine ⟨.inr (.inr rfl), fun other => ?_, fun other => ?_, ?_⟩
    · cases other
    · cases other
    · exact ⟨fun _ => rfl, fun _ => rfl⟩

/-! ### A sample -/

/-- An answer with an address. -/
def dnsAnswer : List UInt8 :=
  List.replicate 12 0 ++ [0x08, 0x00] ++ List.replicate 9 0 ++ [protoUdp] ++ List.replicate 10 0 ++
    shortBytes dnsPort ++ shortBytes ourDnsPort ++ [0, 35, 0, 0] ++
    [0x1A, 0x2B, 0x80, 0, 0, 0, 0, 1, 0, 0, 0, 0] ++
    [0, 0, 1, 0, 1, 0, 0, 0, 0, 0, 4, 10, 0, 2, 2]

/-- A stack whose card finds an address and then a page of one segment. -/
def stackWith (page : List UInt8) : Stack where
  nic := { pageCard 5 [⟨0, page, true⟩] with
    polls := some dnsAnswer :: (pageCard 5 [⟨0, page, true⟩]).polls }
  netUp := true
  gwMac := some (Vector.replicate 6 0)
  dnsMac := some (Vector.replicate 6 0)
  lastFetchTrust := 1

/-- A machine that reaches no host over TLS. -/
def offline : Tls.Machine where
  connection := none
  send := fun _ => true
  privKey := Vector.replicate 32 0
  clientRandom := Vector.replicate 32 0
  sessionId := Vector.replicate 32 0
  now := 0

theorem fetch_trust_sample : ∃ s', httpGet offline sampleHost 100 (stackWith [7]) =
    some (.ok [7], s') ∧ s'.lastFetchTrust = 0 ∧ Plain 100 (stackWith [7]) s' [7] := by
  have ran : ((httpGet offline sampleHost 100 (stackWith [7])).map fun p =>
      (p.1, p.2.lastFetchTrust)) = some (.ok [7], 0) := by
    decide +kernel
  obtain ⟨⟨r, s'⟩, ends, same⟩ := Option.map_eq_some_iff.mp ran
  obtain ⟨rfl, trust⟩ := Prod.mk.inj same
  obtain ⟨bytes, same, source⟩ := (fetch_trust ends).2.2.1 trust
  cases same
  exact ⟨s', ends, trust, source⟩

/-- A page that redirects to a host that TLS does not reach: nothing is returned. -/
example : ((httpGet offline sampleHost 100 (stackWith (text "HTTP/1.0 301\nLocation: https://b"))).map
    fun p => (p.1, p.2.lastFetchTrust)) = some (.error (), -1) := by
  decide +kernel

end Trust

end RustyPenguin.Net
