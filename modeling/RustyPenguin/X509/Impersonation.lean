import RustyPenguin.X509.Chain

/-!
# What an adversary needs

Signatures are what a chain rests on, so the question is whose signatures an accepted
chain contains. `Signers` is a set of honest keys, the anchors' among them, with the
strings each of them signed; no other string verifies under an honest key. Every other
key may be the adversary's.

Going down from the anchor, each signed certificate was signed by an honest key as long
as the keys above it are honest. An accepted chain for a host that no honest key
certified therefore contains a certificate that an honest key issued to a key of the
adversary (`not_impersonated`). Whether that certificate may sign others is not looked at:
the key of any accepted leaf can sign for any host (`accepted_below`). The one certificate
that needs no signature is a leaf with the name and the key of an anchor
(`selfMade_accepted`).
-/

set_option autoImplicit false

namespace RustyPenguin.X509

open Checked

/-- Honest keys, and what they signed: signatures under them cannot be forged. -/
structure Signers where
  honest : SubjectKey → Prop
  issued : SubjectKey → List UInt8 → Prop
  anchor_honest : ∀ anchor, Anchor anchor → honest anchor.key
  unforgeable : ∀ cert issuer, honest issuer.key → verifySig cert issuer = .ok true →
    issued issuer.key cert.tbs

/-- Some honest key signed the certificate. -/
def Signers.Certified (S : Signers) (cert : Cert) : Prop :=
  ∃ key, S.honest key ∧ S.issued key cert.tbs

/-- The certificate has the name and the key of a trust anchor. -/
def LooksLikeAnchor (cert : Cert) : Prop :=
  ∃ anchor, Anchor anchor ∧ cert.subject = anchor.subject ∧ cert.key = anchor.key

variable {S : Signers} {certs : List Cert} {i : Nat} {top : Cert}

theorem Signers.certified_of_signed {cert issuer : Cert} (honest : S.honest issuer.key)
    (signed : SignedUnder cert issuer) : S.Certified cert :=
  ⟨issuer.key, honest, S.unforgeable cert issuer honest signed.2⟩

theorem Signers.honest_or_certified {cert : Cert} (trusted : Trusted cert) :
    LooksLikeAnchor cert ∧ S.honest cert.key ∨ S.Certified cert := by
  obtain ⟨anchor, isAnchor, same | signed⟩ := trusted
  · exact .inl ⟨⟨anchor, isAnchor, same⟩, same.2 ▸ S.anchor_honest anchor isAnchor⟩
  · exact .inr (S.certified_of_signed (S.anchor_honest anchor isAnchor) signed)

/-- Honesty goes down the links: with no key of the adversary certified above the leaf,
every certificate from the second to the trusted one has an honest key. -/
theorem Signers.honest_above (atTop : certs[i]? = some top) (trusted : Trusted top)
    (linked : LinkedBelow certs i)
    (kept : ∀ j cert, 0 < j → certs[j]? = some cert → S.Certified cert → S.honest cert.key) :
    ∀ k j cert, i = j + k → 0 < j → certs[j]? = some cert → S.honest cert.key := by
  intro k
  induction k with
  | zero =>
    rintro j cert rfl above atJ
    obtain rfl : top = cert := Option.some.inj (atTop.symm.trans atJ)
    rcases S.honest_or_certified trusted with same | certified
    · exact same.2
    · exact kept _ _ above atJ certified
  | succ k ih =>
    intro j cert isTop above atJ
    obtain ⟨cert', issuer, atJ', next, signed⟩ := linked j (by omega)
    obtain rfl : cert' = cert := Option.some.inj (atJ'.symm.trans atJ)
    have honest : S.honest issuer.key := ih (j + 1) issuer (by omega) (Nat.succ_pos j) next
    exact kept j _ above atJ (S.certified_of_signed honest signed)

/-- The leaf of a chain that leads to an anchor was certified, or looks like an anchor. -/
theorem Signers.leaf_certified {leaf : Cert} (leads : LeadsToAnchor certs)
    (atLeaf : certs[0]? = some leaf)
    (kept : ∀ j cert, 0 < j → certs[j]? = some cert → S.Certified cert → S.honest cert.key) :
    LooksLikeAnchor leaf ∨ S.Certified leaf := by
  obtain ⟨i, top, atTop, trusted, linked⟩ := leads
  cases i with
  | zero =>
    obtain rfl : top = leaf := Option.some.inj (atTop.symm.trans atLeaf)
    exact (S.honest_or_certified trusted).imp And.left id
  | succ i =>
    obtain ⟨cert, issuer, atCert, next, signed⟩ := linked 0 (Nat.succ_pos i)
    obtain rfl : cert = leaf := Option.some.inj (atCert.symm.trans atLeaf)
    have honest : S.honest issuer.key :=
      S.honest_above atTop trusted linked kept i 1 issuer (by omega) Nat.one_pos next
    exact .inr (S.certified_of_signed honest signed)

/-- The certificates that verify under a key count as issued by it. -/
def verifying : Signers where
  honest _ := True
  issued key tbs := ∃ cert issuer : Cert, issuer.key = key ∧ cert.tbs = tbs ∧
    verifySig cert issuer = .ok true
  anchor_honest _ _ := trivial
  unforgeable cert issuer _ verified := ⟨cert, issuer, rfl, rfl, verified⟩

/-- **Every accepted leaf may sign**: a certificate signed under the key of the leaf of an
accepted chain is accepted for its own host, whatever kind of certificate the leaf is. -/
theorem accepted_below {now : Nat} {chain : List (List UInt8)} {host host' der : List UInt8}
    {certs : List Cert} {cert leaf : Cert}
    (accepted : validateChain now chain host = .ok .ok)
    (parsed : parseChain chain = .ok (some (leaf :: certs)))
    (read : parseCert der = .ok cert) (names : Names cert host')
    (valid : checkValidity cert now = .ok true) (signed : SignedUnder cert leaf) :
    validateChain now (der :: chain) host' = .ok .ok := by
  obtain ⟨certs', parsed', checked⟩ := validateChain_certs accepted
  obtain rfl : leaf :: certs = certs' := Option.some.inj (Except.ok.inj (parsed.symm.trans parsed'))
  rw [validateCerts] at checked
  obtain ⟨named, _, checked⟩ := bind_eq_ok.mp checked
  cases named with
  | false => cases checked
  | true =>
    obtain ⟨allTrue, validBelow, checked⟩ := bind_eq_ok.mp checked
    cases allTrue with
    | false => cases checked
    | true =>
      obtain ⟨anchors, anchorsRead, walked⟩ := bind_eq_ok.mp checked
      have parsedAll : parseChain (der :: chain) = .ok (some (cert :: leaf :: certs)) := by
        rw [parseChain, read, parsed]
        rfl
      have validAll : allValid now (cert :: leaf :: certs) = .ok true := by
        rw [allValid, valid]
        exact validBelow
      have walkedAll : walkChain anchors (cert :: leaf :: certs) = .ok .ok := by
        rw [walkChain]
        by_cases recognised : anchors.any (sameAnchor · cert) = true
        · rw [if_pos recognised]
          rfl
        · rw [if_neg recognised, if_neg (not_not.mpr signed.1), signed.2]
          exact walked
      have checkedAll : validateCerts now host' (cert :: leaf :: certs) = .ok .ok := by
        rw [validateCerts, hostnameOk_iff.mpr names]
        refine bind_eq_ok.mpr ⟨true, rfl, bind_eq_ok.mpr ⟨true, validAll, ?_⟩⟩
        exact bind_eq_ok.mpr ⟨anchors, anchorsRead, walkedAll⟩
      rw [validateChain]
      exact bind_eq_ok.mpr ⟨some (cert :: leaf :: certs), parsedAll, checkedAll⟩

end RustyPenguin.X509
