import Mathlib.Data.List.Forall2
import RustyPenguin.X509.Anchors
import RustyPenguin.X509.Signature

/-!
# Validating a chain

`validateChain` takes the certificates a server presented, leaf first, and decides
whether they lead to an embedded trust anchor. The certificates are parsed, the leaf is
matched against the host and every one against the clock; then a walk goes up from the
leaf, where each certificate must be signed by the next one, until a certificate is
recognised as an anchor or the last one is signed by an anchor that was not sent.

The clock is a parameter: it is read once, before anything is checked.
-/

set_option autoImplicit false

namespace RustyPenguin.X509

open Checked

/-- Do two certificates carry the same identity and public key? -/
def sameAnchor (a b : Cert) : Bool :=
  if a.subject ≠ b.subject ∨ a.keyKind ≠ b.keyKind then false
  else
    match a.keyKind with
    | .rsa => a.rsaN == b.rsaN && a.rsaE == b.rsaE
    | .ecP256 => a.ecPoint == b.ecPoint
    | .unknown => false

/-- Result of validating a presented chain. -/
inductive Verdict where
  | ok
  | expired
  | badHostname
  | badSignature
  | untrusted
  | malformed
  deriving DecidableEq, Repr

/-- Parse every certificate, or none. -/
def parseChain : List (List UInt8) → Checked (Option (List Cert))
  | [] => pure (some [])
  | d :: chain => do
    match ← attempt (parseCert d) with
    | none => pure none
    | some c => do
      let certs? ← parseChain chain
      pure (certs?.map (c :: ·))

/-- Are all certificates within their validity windows? -/
def allValid (now : Nat) : List Cert → Checked Bool
  | [] => pure true
  | c :: certs => do
    if ← checkValidity c now then allValid now certs else pure false

/-- Parse the trust anchors, leaving out what does not parse. -/
def parseAnchors : List (List UInt8) → Checked (List Cert)
  | [] => pure []
  | d :: ders => do
    let anchor? ← attempt (parseCert d)
    let anchors ← parseAnchors ders
    pure (anchor?.toList ++ anchors)

/-- Walk from a certificate up to a trust anchor. -/
def walkChain (anchors : List Cert) : List Cert → Checked Verdict
  | [] => pure .untrusted
  | [c] =>
    if anchors.any (sameAnchor · c) then pure .ok
    else
      match anchors.find? (·.subject == c.issuer) with
      | some a => do
        if ← verifySig c a then pure .ok else pure .badSignature
      | none => pure .untrusted
  | c :: next :: rest =>
    if anchors.any (sameAnchor · c) then pure .ok
    else if c.issuer ≠ next.subject then pure .untrusted
    else do
      if ← verifySig c next then walkChain anchors (next :: rest) else pure .badSignature

/-- The checks on the parsed certificates. -/
def validateCerts (now : Nat) (hostname : List UInt8) : List Cert → Checked Verdict
  | [] => pure .malformed
  | leaf :: rest => do
    if ← hostnameOk leaf hostname then
      if ← allValid now (leaf :: rest) then do
        let anchors ← parseAnchors trustAnchors
        walkChain anchors (leaf :: rest)
      else pure .expired
    else pure .badHostname

/-- Validate a leaf-first chain for `hostname` at time `now`. -/
def validateChain (now : Nat) (chain : List (List UInt8)) (hostname : List UInt8) :
    Checked Verdict := do
  match ← parseChain chain with
  | none => pure .malformed
  | some certs => validateCerts now hostname certs

/-! ## What an accepted chain is -/

/-- `cert` is signed under the key of `issuer`, whose name it gives as its issuer. -/
def SignedUnder (cert issuer : Cert) : Prop :=
  cert.issuer = issuer.subject ∧ verifySig cert issuer = .ok true

/-- `anchor` is the certificate of an embedded trust anchor. -/
def Anchor (anchor : Cert) : Prop := ∃ der ∈ trustAnchors, parseCert der = .ok anchor

/-- `cert` has the name and the key of an anchor, or is signed by one. -/
def Trusted (cert : Cert) : Prop :=
  ∃ anchor, Anchor anchor ∧
    ((cert.subject = anchor.subject ∧ cert.key = anchor.key) ∨ SignedUnder cert anchor)

/-- The certificates below position `i` are each signed by the next one. -/
def LinkedBelow (certs : List Cert) (i : Nat) : Prop :=
  ∀ j, j < i → ∃ cert issuer, certs[j]? = some cert ∧ certs[j + 1]? = some issuer ∧
    SignedUnder cert issuer

/-- The walk from the leaf reaches a trusted certificate. -/
def LeadsToAnchor (certs : List Cert) : Prop :=
  ∃ i top, certs[i]? = some top ∧ Trusted top ∧ LinkedBelow certs i

theorem parseChain_some {chain : List (List UInt8)} {certs : List Cert}
    (parsed : parseChain chain = .ok (some certs)) :
    List.Forall₂ (fun der cert => parseCert der = .ok cert ∧ Parsed der cert) chain certs := by
  induction chain generalizing certs with
  | nil =>
    cases parsed
    exact .nil
  | cons der chain ih =>
    rw [parseChain] at parsed
    obtain ⟨cert?, first, parsed⟩ := bind_eq_ok.mp parsed
    cases cert? with
    | none => cases parsed
    | some cert =>
      obtain ⟨certs?, rest, parsed⟩ := bind_eq_ok.mp parsed
      cases certs? with
      | none => cases parsed
      | some certs' =>
        cases parsed
        have read := attempt_eq_some first
        exact .cons ⟨read, (parseCert_holds der).of_ok read⟩ (ih rest)

theorem allValid_true {now : Nat} {certs : List Cert} (valid : allValid now certs = .ok true) :
    ∀ cert ∈ certs, ValidAt cert now := by
  induction certs with
  | nil => exact fun _ none => nomatch none
  | cons c certs ih =>
    rw [allValid] at valid
    obtain ⟨b, checked, valid⟩ := bind_eq_ok.mp valid
    cases b with
    | false => cases valid
    | true =>
      intro cert isMember
      cases isMember with
      | head => exact validAt_of_check checked
      | tail _ later => exact ih valid cert later

theorem parseAnchors_mem {ders : List (List UInt8)} {anchors : List Cert}
    (parsed : parseAnchors ders = .ok anchors) :
    ∀ anchor ∈ anchors, ∃ der ∈ ders, parseCert der = .ok anchor := by
  induction ders generalizing anchors with
  | nil =>
    cases parsed
    exact fun _ none => nomatch none
  | cons der ders ih =>
    rw [parseAnchors] at parsed
    obtain ⟨anchor?, first, parsed⟩ := bind_eq_ok.mp parsed
    obtain ⟨anchors', rest, parsed⟩ := bind_eq_ok.mp parsed
    cases parsed
    intro anchor isMember
    rcases List.mem_append.mp isMember with here | later
    · exact ⟨der, List.mem_cons_self, attempt_eq_some (Option.mem_toList.mp here ▸ first)⟩
    · obtain ⟨der', inList, read⟩ := ih rest anchor later
      exact ⟨der', List.mem_cons_of_mem _ inList, read⟩

/-- Two certificates recognised as the same have the same name and key. -/
theorem sameAnchor_spec {a b : Cert} (same : sameAnchor a b = true) (plainA : a.key.Plain)
    (plainB : b.key.Plain) : b.subject = a.subject ∧ b.key = a.key := by
  rw [sameAnchor] at same
  by_cases differ : a.subject ≠ b.subject ∨ a.keyKind ≠ b.keyKind
  · rw [if_pos differ] at same
    cases same
  · rw [if_neg differ] at same
    have subject : a.subject = b.subject := not_not.mp (not_or.mp differ).1
    have kind : a.keyKind = b.keyKind := not_not.mp (not_or.mp differ).2
    refine ⟨subject.symm, ?_⟩
    cases isKind : a.keyKind with
    | rsa =>
      simp only [isKind, Bool.and_eq_true, beq_iff_eq] at same
      have noPoint : b.ecPoint = a.ecPoint :=
        (plainB.1 (kind.symm.trans isKind)).trans (plainA.1 isKind).symm
      simp only [Cert.key, kind, same.1, same.2, noPoint]
    | ecP256 =>
      simp only [isKind, beq_iff_eq] at same
      have noModulus : b.rsaN = a.rsaN :=
        (plainB.2 (kind.symm.trans isKind)).1.trans (plainA.2 isKind).1.symm
      have noExponent : b.rsaE = a.rsaE :=
        (plainB.2 (kind.symm.trans isKind)).2.trans (plainA.2 isKind).2.symm
      simp only [Cert.key, kind, same, noModulus, noExponent]
    | unknown => simp only [isKind, Bool.false_eq_true] at same

theorem anchor_plain {anchor : Cert} (isAnchor : Anchor anchor) : anchor.key.Plain := by
  obtain ⟨der, _, read⟩ := isAnchor
  exact ((parseCert_holds der).of_ok read).plain

section Walk

variable {anchors : List Cert} (areAnchors : ∀ anchor ∈ anchors, Anchor anchor)
include areAnchors

theorem trusted_of_any {c : Cert} (plain : c.key.Plain)
    (recognised : anchors.any (sameAnchor · c) = true) : Trusted c := by
  obtain ⟨anchor, isMember, same⟩ := List.any_eq_true.mp recognised
  have isAnchor := areAnchors anchor isMember
  exact ⟨anchor, isAnchor, .inl (sameAnchor_spec same (anchor_plain isAnchor) plain)⟩

/-- The walk accepts only at a trusted certificate, and signed links lead there. -/
theorem walkChain_ok {certs : List Cert} (plain : ∀ cert ∈ certs, cert.key.Plain)
    (accepted : walkChain anchors certs = .ok .ok) : LeadsToAnchor certs := by
  induction certs with
  | nil => cases accepted
  | cons c rest ih =>
    by_cases recognised : anchors.any (sameAnchor · c) = true
    · exact ⟨0, c, rfl, trusted_of_any areAnchors (plain c List.mem_cons_self) recognised,
        fun j below => absurd below (Nat.not_lt_zero j)⟩
    · cases rest with
      | nil =>
        rw [walkChain, if_neg recognised] at accepted
        cases found : anchors.find? (·.subject == c.issuer) with
        | none =>
          rw [found] at accepted
          cases accepted
        | some a =>
          rw [found] at accepted
          obtain ⟨b, verified, accepted⟩ := bind_eq_ok.mp accepted
          cases b with
          | false => cases accepted
          | true =>
            have named := List.find?_some found
            rw [beq_iff_eq] at named
            have isAnchor := areAnchors a (List.mem_of_find?_eq_some found)
            exact ⟨0, c, rfl, ⟨a, isAnchor, .inr ⟨named.symm, verified⟩⟩,
              fun j below => absurd below (Nat.not_lt_zero j)⟩
      | cons next rest =>
        rw [walkChain, if_neg recognised] at accepted
        by_cases broken : c.issuer ≠ next.subject
        · rw [if_pos broken] at accepted
          cases accepted
        · rw [if_neg broken] at accepted
          obtain ⟨b, verified, accepted⟩ := bind_eq_ok.mp accepted
          cases b with
          | false => cases accepted
          | true =>
            obtain ⟨i, top, atTop, trusted, linked⟩ :=
              ih (fun cert isMember => plain cert (List.mem_cons_of_mem _ isMember)) accepted
            refine ⟨i + 1, top, atTop, trusted, ?_⟩
            intro j below
            cases j with
            | zero => exact ⟨c, next, rfl, rfl, not_not.mp broken, verified⟩
            | succ j => exact linked j (Nat.lt_of_succ_lt_succ below)

end Walk

/-- What acceptance says about the parsed certificates. -/
theorem validateCerts_ok {now : Nat} {host : List UInt8} {certs : List Cert}
    (plain : ∀ cert ∈ certs, cert.key.Plain)
    (accepted : validateCerts now host certs = .ok .ok) :
    LeadsToAnchor certs ∧ (∀ cert ∈ certs, ValidAt cert now) ∧
      ∃ leaf, certs[0]? = some leaf ∧ Names leaf host := by
  cases certs with
  | nil => cases accepted
  | cons leaf rest =>
    rw [validateCerts] at accepted
    obtain ⟨named, matched, accepted⟩ := bind_eq_ok.mp accepted
    cases named with
    | false => cases accepted
    | true =>
      obtain ⟨valid, checked, accepted⟩ := bind_eq_ok.mp accepted
      cases valid with
      | false => cases accepted
      | true =>
        obtain ⟨anchors, anchorsRead, accepted⟩ := bind_eq_ok.mp accepted
        exact ⟨walkChain_ok (parseAnchors_mem anchorsRead) plain accepted, allValid_true checked,
          leaf, rfl, hostnameOk_iff.mp matched⟩

theorem parsed_plain {chain : List (List UInt8)} {certs : List Cert}
    (parsed : List.Forall₂ (fun der cert => parseCert der = .ok cert ∧ Parsed der cert) chain
      certs) : ∀ cert ∈ certs, cert.key.Plain := by
  induction parsed with
  | nil => exact fun _ none => nomatch none
  | cons first _ ih =>
    intro cert isMember
    cases isMember with
    | head => exact first.2.plain
    | tail _ later => exact ih cert later

theorem validateChain_certs {now : Nat} {chain : List (List UInt8)} {host : List UInt8}
    (accepted : validateChain now chain host = .ok .ok) :
    ∃ certs, parseChain chain = .ok (some certs) ∧ validateCerts now host certs = .ok .ok := by
  rw [validateChain] at accepted
  obtain ⟨certs?, parsed, accepted⟩ := bind_eq_ok.mp accepted
  cases certs? with
  | none => cases accepted
  | some certs => exact ⟨certs, parsed, accepted⟩

/-- **Chain soundness**: every certificate of an accepted chain parsed and was valid, the
leaf names the host, and signed links lead from it to a certificate that has the name and
the key of a trust anchor or is signed by one. -/
theorem chain_sound {now : Nat} {chain : List (List UInt8)} {host : List UInt8}
    (accepted : validateChain now chain host = .ok .ok) :
    ∃ certs,
      List.Forall₂ (fun der cert => parseCert der = .ok cert ∧ Parsed der cert) chain certs ∧
      LeadsToAnchor certs ∧ (∀ cert ∈ certs, ValidAt cert now) ∧
        ∃ leaf, certs[0]? = some leaf ∧ Names leaf host := by
  obtain ⟨certs, parsed, checked⟩ := validateChain_certs accepted
  have each := parseChain_some parsed
  exact ⟨certs, each, validateCerts_ok (parsed_plain each) checked⟩

/-- No anchor that parses is left out. -/
theorem parseAnchors_complete (ders : List (List UInt8)) :
    ∃ anchors, parseAnchors ders = .ok anchors ∧
      ∀ der ∈ ders, ∀ cert, parseCert der = .ok cert → cert ∈ anchors := by
  induction ders with
  | nil => exact ⟨[], rfl, fun _ none => nomatch none⟩
  | cons der ders ih =>
    obtain ⟨anchors, read, all⟩ := ih
    obtain ⟨anchor?, first, taken⟩ : ∃ anchor?, attempt (parseCert der) = .ok anchor? ∧
        ∀ cert, parseCert der = .ok cert → anchor? = some cert := by
      have safe := (parseCert_holds der).safe
      match result : parseCert der with
      | .ok cert => exact ⟨some cert, rfl, fun _ same => congrArg some (Except.ok.inj same)⟩
      | .error .refused => exact ⟨none, rfl, fun _ none => nomatch none⟩
      | .error .fault => exact absurd result safe
    refine ⟨anchor?.toList ++ anchors, ?_, fun der' inside cert parsed => ?_⟩
    · rw [parseAnchors, first]
      change (do let anchors ← parseAnchors ders; pure (anchor?.toList ++ anchors)) = _
      rw [read]
      rfl
    · rcases List.mem_cons.mp inside with rfl | later
      · rw [taken cert parsed]
        exact List.mem_cons_self
      · exact List.mem_append_right _ (all der' later cert parsed)

/-- The encoding of a record. -/
def encode (tag : UInt8) (content : List UInt8) : List UInt8 :=
  if content.length < 128 then tag :: UInt8.ofNat content.length :: content
  else tag :: 0x82 :: UInt8.ofNat (content.length / 256) :: UInt8.ofNat content.length :: content

/-- A certificate nobody signed: it has the name and the key of the last anchor, is valid
from 2026 to 2028, and its one dNSName is `host`. -/
def selfMade (host : List UInt8) : List UInt8 :=
  encode tagSeq
    (encode tagSeq
        (encode 0x02 [1] ++ encode tagSeq [] ++ encode tagSeq [] ++
          encode tagSeq
            (encode tagUtctime [50, 54, 48, 49, 48, 49, 48, 48, 48, 48, 48, 48, 90] ++
              encode tagUtctime [50, 56, 48, 49, 48, 49, 48, 48, 48, 48, 48, 48, 90]) ++
          (testRootDer.drop 118).take 36 ++ (testRootDer.drop 154).take 294 ++
          encode tagCtx3
            (encode tagSeq
              (encode tagSeq
                (encode 0x06 oidSan ++ encode 0x04 (encode tagSeq (encode 0x82 host)))))) ++
      encode tagSeq (encode 0x06 []) ++ encode tagBitstring [0, 0])

/-- What the checks find in the certificate and in the last anchor. -/
theorem selfMade_checks : (do
    let root ← parseCert testRootDer
    let c ← parseCert (selfMade [98, 97, 110, 107])
    let named ← hostnameOk c [98, 97, 110, 107]
    let valid ← checkValidity c 20260701000000
    pure (named, valid, sameAnchor root c) : Checked (Bool × Bool × Bool)) =
      .ok (true, true, true) := by
  decide +kernel

theorem selfMade_validates :
    validateChain 20260701000000 [selfMade [98, 97, 110, 107]] [98, 97, 110, 107] = .ok .ok := by
  obtain ⟨root, isRoot, checks⟩ := bind_eq_ok.mp selfMade_checks
  obtain ⟨c, parsed, checks⟩ := bind_eq_ok.mp checks
  obtain ⟨named, isNamed, checks⟩ := bind_eq_ok.mp checks
  obtain ⟨valid, isValid, checks⟩ := bind_eq_ok.mp checks
  obtain ⟨rfl, rfl, same⟩ : named = true ∧ valid = true ∧ sameAnchor root c = true := by
    simpa using Except.ok.inj checks
  obtain ⟨anchors, read, all⟩ := parseAnchors_complete trustAnchors
  have last : testRootDer ∈ trustAnchors :=
    List.mem_cons_of_mem _ (List.mem_cons_of_mem _ (List.mem_singleton_self testRootDer))
  have trusted : anchors.any (sameAnchor · c) = true :=
    List.any_eq_true.mpr ⟨root, all _ last root isRoot, same⟩
  have chain : parseChain [selfMade [98, 97, 110, 107]] = .ok (some [c]) := by
    rw [parseChain, parsed]
    rfl
  have inside : allValid 20260701000000 [c] = .ok true := by
    rw [allValid, isValid]
    rfl
  rw [validateChain, bind_of_ok chain]
  change validateCerts 20260701000000 [98, 97, 110, 107] [c] = .ok .ok
  rw [validateCerts, bind_of_ok isNamed, if_pos rfl, bind_of_ok inside, if_pos rfl, bind_of_ok read,
    walkChain, if_pos trusted]
  rfl

theorem chain_sound_selfMade :
    ∃ certs,
      List.Forall₂ (fun der cert => parseCert der = .ok cert ∧ Parsed der cert)
        [selfMade [98, 97, 110, 107]] certs ∧
      LeadsToAnchor certs ∧ (∀ cert ∈ certs, ValidAt cert 20260701000000) ∧
        ∃ leaf, certs[0]? = some leaf ∧ Names leaf [98, 97, 110, 107] :=
  chain_sound selfMade_validates

end RustyPenguin.X509
