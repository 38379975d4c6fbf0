import RustyPenguin.X509.Cert
import RustyPenguin.Crypto.Bignum
import RustyPenguin.Crypto.P256

/-!
# Signatures of certificates

`verifySig` checks the signature of a certificate under the key of another one. Both
supported schemes hash the signed part with SHA-256: RSA with PKCS #1 v1.5 padding over
`modExp`, and ECDSA over P-256.
-/

set_option autoImplicit false

namespace RustyPenguin.X509

open Checked Crypto

/-- What precedes the hash in a padded message. -/
def sha256DigestPrefix : List UInt8 :=
  [0x30, 0x31, 0x30, 0x0d, 0x06, 0x09, 0x60, 0x86, 0x48, 0x01, 0x65, 0x03, 0x04, 0x02, 0x01, 0x05,
    0x00, 0x04, 0x20]

/-- Drop leading zeros while there are more than `k` bytes. -/
def trimTo (k : Nat) : List UInt8 → List UInt8
  | [] => []
  | x :: s => if k < s.length + 1 ∧ x = 0 then trimTo k s else x :: s

/-- Left-pad to `k` bytes; empty when the value does not fit. -/
def leftPad (b : List UInt8) (k : Nat) : List UInt8 :=
  let s := trimTo k b
  if k < s.length then [] else List.replicate (k - s.length) 0 ++ s

/-- The first position from `i` on, before `k`, that does not hold `0xff`. -/
def skipPadding (em : List UInt8) (k : Nat) : Nat → Nat → Checked Nat
  | 0, _ => fault
  | steps + 1, i =>
    if i < k then do
      let x ← index em i
      if x = 0xff then do
        let i ← addIn 64 i 1
        skipPadding em k steps i
      else pure i
    else pure i

/-- Does `em` hold the padding `00 01 FF..FF 00`, the prefix and the hash? -/
def checkPadding (em hash : List UInt8) (k : Nat) : Checked Bool := do
  let x0 ← index em 0
  let x1 ← index em 1
  if x0 ≠ 0x00 ∨ x1 ≠ 0x01 then pure false
  else do
    let i ← skipPadding em k (k + 1) 2
    if i < 10 ∨ k ≤ i then pure false
    else do
      let x ← index em i
      if x ≠ 0x00 then pure false
      else do
        let i ← addIn 64 i 1
        let t ← sub em i em.length
        pure (decide (t.length = sha256DigestPrefix.length + 32 ∧
          t.take sha256DigestPrefix.length = sha256DigestPrefix ∧
            t.drop sha256DigestPrefix.length = hash))

/-- Verify an RSA PKCS #1 v1.5 signature. -/
def rsaPkcs1Sha256Verify (n e sig hash : List UInt8) : Checked Bool := do
  let n ← stripInt n
  let k := n.length
  if k < sig.length ∨ k < sha256DigestPrefix.length + 32 + 11 then pure false
  else do
    let m ← modExp sig e n
    let em := leftPad m k
    if em.length ≠ k then pure false else checkPadding em hash k

/-- The two numbers of an ECDSA signature. -/
def ecdsaSig (sig : List UInt8) : Checked (List UInt8 × List UInt8) := do
  let sv ← tlv sig
  let (r, p) ← Seq.next sv.content
  let (s, _) ← Seq.next p
  pure (r.content, s.content)

/-- Is `point` uncompressed, and long enough for both coordinates? -/
def uncompressed (point : List UInt8) : Checked Bool :=
  if point.length < 65 then pure false
  else do
    let x ← index point 0
    pure (decide (x = 0x04))

/-- Verify the signature of `cert` under the key of `issuer`. -/
def verifySig (cert issuer : Cert) : Checked Bool :=
  let hash := sha256 cert.tbs
  if cert.sigAlg = oidRsaSha256 then
    if issuer.keyKind ≠ .rsa then pure false
    else rsaPkcs1Sha256Verify issuer.rsaN issuer.rsaE cert.sig hash
  else if cert.sigAlg = oidEcdsaSha256 then
    if issuer.keyKind ≠ .ecP256 then pure false
    else do
      if ← uncompressed issuer.ecPoint then
        match ← attempt (ecdsaSig cert.sig) with
        | none => pure false
        | some (r, s) => do
          let x ← sub issuer.ecPoint 1 33
          let y ← sub issuer.ecPoint 33 65
          pure (P256.verify x y hash r s)
      else pure false
  else pure false

end RustyPenguin.X509
