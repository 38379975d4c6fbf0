import RustyPenguin.X509.Der

/-!
# Parsing a certificate

`parseCert` takes a certificate apart: the signed part, the signature over it, the two
names, the validity window, the public key and the subject alternative names. Nothing
is decoded here beyond what the chain check needs, and every field is a slice of the
bytes that were given.

What a successful parse promises is `Parsed`: every field lies in the input, and the
field `tbs` is one whole record, the one the signature covers and the names, times and
key were read from.
-/

set_option autoImplicit false

namespace RustyPenguin.X509

open Checked

def tagSeq : UInt8 := 0x30
def tagBitstring : UInt8 := 0x03
def tagUtctime : UInt8 := 0x17
def tagGentime : UInt8 := 0x18
def tagCtx0 : UInt8 := 0xa0
def tagCtx3 : UInt8 := 0xa3

def oidRsaEnc : List UInt8 := [0x2a, 0x86, 0x48, 0x86, 0xf7, 0x0d, 0x01, 0x01, 0x01]
def oidRsaSha256 : List UInt8 := [0x2a, 0x86, 0x48, 0x86, 0xf7, 0x0d, 0x01, 0x01, 0x0b]
def oidEcPubkey : List UInt8 := [0x2a, 0x86, 0x48, 0xce, 0x3d, 0x02, 0x01]
def oidEcdsaSha256 : List UInt8 := [0x2a, 0x86, 0x48, 0xce, 0x3d, 0x04, 0x03, 0x02]
def oidSan : List UInt8 := [0x55, 0x1d, 0x11]

inductive KeyKind where
  | rsa
  | ecP256
  | unknown
  deriving DecidableEq, Repr

/-- A certificate, as slices of its encoding. -/
structure Cert where
  tbs : List UInt8
  sigAlg : List UInt8
  sig : List UInt8
  issuer : List UInt8
  subject : List UInt8
  notBefore : List UInt8
  notAfter : List UInt8
  keyKind : KeyKind
  rsaN : List UInt8
  rsaE : List UInt8
  ecPoint : List UInt8
  san : Option (List UInt8)
  deriving DecidableEq, Repr

/-- Strip a leading sign byte from a positive INTEGER. -/
def stripInt (b : List UInt8) : Checked (List UInt8) :=
  if 1 < b.length then do
    if (← index b 0) = 0x00 then sub b 1 b.length else pure b
  else pure b

/-- The content of a BIT STRING without the byte that counts its unused bits. -/
def bits (t : Tlv) : Checked (List UInt8) :=
  if t.tag ≠ tagBitstring ∨ t.content = [] then refuse else sub t.content 1 t.content.length

/-- The public key of a certificate. -/
structure SubjectKey where
  keyKind : KeyKind
  rsaN : List UInt8
  rsaE : List UInt8
  ecPoint : List UInt8
  deriving DecidableEq, Repr

/-- The key in a SubjectPublicKeyInfo. -/
def parseSpki (content : List UInt8) : Checked SubjectKey := do
  let (alg, s) ← Seq.next content
  let (keyBs, _) ← Seq.next s
  let keyBits ← bits keyBs
  let (algOid, _) ← Seq.next alg.content
  if algOid.content = oidRsaEnc then do
    let rsa ← tlv keyBits
    let (n, r) ← Seq.next rsa.content
    let rsaN ← stripInt n.content
    let (e, _) ← Seq.next r
    let rsaE ← stripInt e.content
    pure ⟨.rsa, rsaN, rsaE, []⟩
  else if algOid.content = oidEcPubkey then pure ⟨.ecP256, [], [], keyBits⟩
  else pure ⟨.unknown, [], [], []⟩

/-- The OCTET STRING of an extension, past the optional `critical` flag. -/
def octetString (e : List UInt8) : Checked (Option Tlv) :=
  eachTlv (fun _ x => pure (if x.tag = 0x04 then .done (some x) else .yield none)) e none

/-- One extension: the names of the last subjectAltName are kept. -/
def extension (san : Option (List UInt8)) (ext : Tlv) :
    Checked (ForInStep (Option (List UInt8))) := do
  match ← attempt (Seq.next ext.content) with
  | none => pure (.yield san)
  | some (oid, e) =>
    if oid.content ≠ oidSan then pure (.yield san)
    else
      match ← octetString e with
      | none => pure (.yield san)
      | some octet =>
        match ← attempt (tlv octet.content) with
        | none => pure (.yield san)
        | some names => pure (.yield (some names.content))

/-- One trailing field of the signed part: the extensions stand in field `[3]`. -/
def trailingField (san : Option (List UInt8)) (extOuter : Tlv) :
    Checked (ForInStep (Option (List UInt8))) :=
  if extOuter.tag = tagCtx3 then do
    match ← attempt (tlv extOuter.content) with
    | none => pure (.yield san)
    | some extSeq => do
      let san' ← eachTlv extension extSeq.content san
      pure (.yield san')
  else pure (.yield san)

/-- The fields of the signed part. -/
structure TbsFields where
  issuer : List UInt8
  subject : List UInt8
  notBefore : List UInt8
  notAfter : List UInt8
  key : SubjectKey
  san : Option (List UInt8)
  deriving DecidableEq, Repr

/-- Walk the content of a TBSCertificate. -/
def parseTbs (content : List UInt8) : Checked TbsFields := do
  let (first, t) ← Seq.next content
  let (_serial, t) ← (if first.tag = tagCtx0 then Seq.next t else pure (first, t))
  let (_sigAlgInner, t) ← Seq.next t
  let (issuer, t) ← Seq.next t
  let (validity, t) ← Seq.next t
  let (subject, t) ← Seq.next t
  let (spki, t) ← Seq.next t
  let (notBefore, v) ← Seq.next validity.content
  let (notAfter, _) ← Seq.next v
  let key ← parseSpki spki.content
  let san ← eachTlv trailingField t none
  pure ⟨issuer.content, subject.content, notBefore.content, notAfter.content, key, san⟩

/-- Parse a certificate: `SEQ { tbsCertificate, signatureAlgorithm, signatureValue }`. -/
def parseCert (der : List UInt8) : Checked Cert := do
  let cert ← tlv der
  if cert.tag ≠ tagSeq then refuse
  else do
    let (tbsTlv, it) ← Seq.next cert.content
    if tbsTlv.tag ≠ tagSeq then refuse
    else do
      let tbs ← sub cert.content 0 tbsTlv.total
      let (sigalgTlv, it) ← Seq.next it
      let (sigAlg, _) ← Seq.next sigalgTlv.content
      let (sigBs, _) ← Seq.next it
      let sig ← bits sigBs
      let fields ← parseTbs tbsTlv.content
      pure {
        tbs := tbs
        sigAlg := sigAlg.content
        sig := sig
        issuer := fields.issuer
        subject := fields.subject
        notBefore := fields.notBefore
        notAfter := fields.notAfter
        keyKind := fields.key.keyKind
        rsaN := fields.key.rsaN
        rsaE := fields.key.rsaE
        ecPoint := fields.key.ecPoint
        san := fields.san }

/-! ## Validity -/

/-- Two decimal digits. -/
def d2 (b : List UInt8) (i : Nat) : Checked Nat := do
  let j ← addIn 64 i 1
  if b.length ≤ j then refuse
  else do
    let hi ← index b i
    let lo ← index b j
    if ¬ (0x30 ≤ hi ∧ hi ≤ 0x39) ∨ ¬ (0x30 ≤ lo ∧ lo ≤ 0x39) then refuse
    else do
      let tens ← subIn hi.toNat 0x30
      let tens ← mulIn 8 tens 10
      let units ← subIn lo.toNat 0x30
      addIn 8 tens units

/-- A date and time as one number, `YYYYMMDDhhmmss`. -/
def pack (y mo d h mi s : Nat) : Checked Nat := do
  let acc ← mulIn 64 y 10000000000
  let acc ← addIn 64 acc (← mulIn 64 mo 100000000)
  let acc ← addIn 64 acc (← mulIn 64 d 1000000)
  let acc ← addIn 64 acc (← mulIn 64 h 10000)
  let acc ← addIn 64 acc (← mulIn 64 mi 100)
  addIn 64 acc s

/-- The year of a time, and where the month stands. -/
def yearOf (tag : UInt8) (b : List UInt8) : Checked (Nat × Nat) :=
  if tag = tagGentime then do
    let hi ← d2 b 0
    let lo ← d2 b 2
    let year ← addIn 32 (← mulIn 32 hi 100) lo
    pure (year, 4)
  else do
    let yy ← d2 b 0
    let year ← (if yy < 50 then addIn 32 2000 yy else addIn 32 1900 yy)
    pure (year, 2)

/-- Parse a UTCTime or a GeneralizedTime. -/
def parseTime (tag : UInt8) (b : List UInt8) : Checked Nat := do
  let (year, off) ← yearOf tag b
  let mo ← d2 b off
  let d ← d2 b (← addIn 64 off 2)
  let h ← d2 b (← addIn 64 off 4)
  let mi ← d2 b (← addIn 64 off 6)
  let s ← d2 b (← addIn 64 off 8)
  pack year mo d h mi s

/-- The tag of a time, from its length. -/
def timeTag (content : List UInt8) : UInt8 := if 14 ≤ content.length then tagGentime else tagUtctime

/-- Is `cert` within its validity window at `now`? -/
def checkValidity (cert : Cert) (now : Nat) : Checked Bool := do
  match ← attempt (parseTime (timeTag cert.notBefore) cert.notBefore) with
  | none => pure false
  | some nb =>
    match ← attempt (parseTime (timeTag cert.notAfter) cert.notAfter) with
    | none => pure false
    | some na => pure (decide (nb ≤ now ∧ now ≤ na))

/-! ## Host names -/

def toAsciiLowercase (b : UInt8) : UInt8 := if 0x41 ≤ b ∧ b ≤ 0x5a then b + 0x20 else b

/-- Equality up to ASCII case. -/
def eqIc (a b : List UInt8) : Bool :=
  a.length == b.length && (a.zip b).all fun p => toAsciiLowercase p.1 == toAsciiLowercase p.2

/-- Match a host against a dNSName, which may start with one `*.` label. -/
def dnsMatch (pat host : List UInt8) : Checked Bool :=
  if [0x2a, 0x2e].isPrefixOf pat then do
    let suffix ← sub pat 1 pat.length
    match host.findIdx? (· == 0x2e) with
    | some dot => do
      let tail ← sub host dot host.length
      pure (eqIc tail suffix)
    | none => pure false
  else pure (eqIc pat host)

/-- Is a general name a dNSName that matches the host? -/
def matchesName (host : List UInt8) (_ : Bool) (gn : Tlv) : Checked (ForInStep Bool) :=
  if gn.tag = 0x82 then do
    if ← dnsMatch gn.content host then pure (.done true) else pure (.yield false)
  else pure (.yield false)

/-- Does one of the names of a certificate match the host? -/
def hostnameOk (cert : Cert) (host : List UInt8) : Checked Bool :=
  match cert.san with
  | none => pure false
  | some names => eachTlv (matchesName host) names false

/-! ## What parsing promises -/

/-- The slices a certificate is made of. -/
def Cert.slices (cert : Cert) : List (List UInt8) :=
  [cert.tbs, cert.sigAlg, cert.sig, cert.issuer, cert.subject, cert.notBefore, cert.notAfter,
    cert.rsaN, cert.rsaE, cert.ecPoint] ++ cert.san.toList

/-- The public key of a certificate. -/
def Cert.key (cert : Cert) : SubjectKey := ⟨cert.keyKind, cert.rsaN, cert.rsaE, cert.ecPoint⟩

/-- The fields of a certificate that come from its signed part. -/
def Cert.fields (cert : Cert) : TbsFields :=
  ⟨cert.issuer, cert.subject, cert.notBefore, cert.notAfter, cert.key, cert.san⟩

/-- `tbs` is the encoded TBSCertificate that stands in `der`, `fields` was read from its
content, and what follows it in the certificate is `rest`. -/
structure Signed (der tbs rest : List UInt8) (fields : TbsFields) : Prop where
  contiguous : ∃ header trailing, der = header ++ tbs ++ rest ++ trailing ∧
    tlv der = .ok ⟨tagSeq, tbs ++ rest, (header ++ tbs ++ rest).length⟩
  whole : ∃ content, tlv tbs = .ok ⟨tagSeq, content, tbs.length⟩ ∧
    parseTbs content = .ok fields

/-- What a successful parse of `der` promises. -/
structure Parsed (der : List UInt8) (cert : Cert) : Prop where
  inside : ∀ part ∈ cert.slices, part <:+: der
  signed : ∃ rest, Signed der cert.tbs rest cert.fields

theorem next_inside {rest whole : List UInt8} (within : rest <:+: whole) :
    Holds (Seq.next rest) fun p => p.1.content <:+: whole ∧ p.2 <:+: whole := by
  refine (next_holds rest).mono ?_
  rintro ⟨t, rest'⟩ ⟨_, made⟩
  have suffix : rest' <:+ rest := ⟨rest.take t.total, made.split.symm⟩
  exact ⟨made.reads.content_infix.trans within, suffix.isInfix.trans within⟩

theorem tlv_inside {buf whole : List UInt8} (within : buf <:+: whole) :
    Holds (tlv buf) fun t => t.content <:+: whole :=
  (tlv_holds buf).mono fun _ reads => reads.content_infix.trans within

theorem drop_one_holds {b whole : List UInt8} (within : b <:+: whole) (inside : 1 ≤ b.length) :
    Holds (sub b 1 b.length) fun part => part <:+: whole := by
  refine (holds_sub inside (Nat.le_refl _)).mono ?_
  rintro part rfl
  exact ((List.take_prefix _ _).isInfix.trans (List.drop_suffix _ _).isInfix).trans within

theorem stripInt_holds {b whole : List UInt8} (within : b <:+: whole) :
    Holds (stripInt b) fun part => part <:+: whole := by
  rw [stripInt]
  refine Holds.ite (fun long => ?_) fun _ => within
  refine (holds_index (by omega)).bind fun first _ => ?_
  exact Holds.ite (fun _ => drop_one_holds within (by omega)) fun _ => within

theorem bits_holds {t : Tlv} {whole : List UInt8} (within : t.content <:+: whole) :
    Holds (bits t) fun part => part <:+: whole := by
  rw [bits]
  refine Holds.ite (fun _ => trivial) fun accepted => ?_
  have nonempty : t.content ≠ [] := fun empty => accepted (.inr empty)
  exact drop_one_holds within (List.length_pos_iff.mpr nonempty)

/-- The slices of a key. -/
def SubjectKey.Within (key : SubjectKey) (whole : List UInt8) : Prop :=
  key.rsaN <:+: whole ∧ key.rsaE <:+: whole ∧ key.ecPoint <:+: whole

/-- Only the parts of a key that belong to its kind are filled in. -/
def SubjectKey.Plain (key : SubjectKey) : Prop :=
  (key.keyKind = .rsa → key.ecPoint = []) ∧
    (key.keyKind = .ecP256 → key.rsaN = [] ∧ key.rsaE = [])

theorem parseSpki_holds {content whole : List UInt8} (within : content <:+: whole) :
    Holds (parseSpki content) fun key => key.Within whole ∧ key.Plain := by
  have empty : ([] : List UInt8) <:+: whole := List.nil_infix
  rw [parseSpki]
  refine (next_inside within).bind fun alg algIn => ?_
  refine (next_inside algIn.2).bind fun keyBs keyIn => ?_
  refine (bits_holds keyIn.1).bind fun keyBits bitsIn => ?_
  refine (next_inside algIn.1).bind fun algOid _ => ?_
  refine Holds.ite (fun _ => ?_) fun _ => Holds.ite
    (fun _ => ⟨⟨empty, empty, bitsIn⟩, fun kind => (nomatch kind), fun _ => ⟨rfl, rfl⟩⟩)
    fun _ => ⟨⟨empty, empty, empty⟩, fun kind => (nomatch kind), fun kind => (nomatch kind)⟩
  refine (tlv_inside bitsIn).bind fun rsa rsaIn => ?_
  refine (next_inside rsaIn).bind fun n nIn => ?_
  refine (stripInt_holds nIn.1).bind fun rsaN modulus => ?_
  refine (next_inside nIn.2).bind fun e eIn => ?_
  refine (stripInt_holds eIn.1).bind fun rsaE exponent => ?_
  exact ⟨⟨modulus, exponent, empty⟩, fun _ => rfl, fun kind => nomatch kind⟩

/-- Any names found so far lie in `whole`. -/
def SanWithin (whole : List UInt8) (san : Option (List UInt8)) : Prop :=
  ∀ names, san = some names → names <:+: whole

theorem octetString_holds {e whole : List UInt8} (within : e <:+: whole) :
    Holds (octetString e) fun octet? => ∀ octet, octet? = some octet → octet.content <:+: whole := by
  refine eachTlv_holds (fun _ x _ content => ?_) fun _ none => nomatch none
  by_cases octet : x.tag = 0x04
  · rw [if_pos octet]
    intro y same
    cases same
    exact content.trans within
  · rw [if_neg octet]
    exact fun _ none => nomatch none

theorem extension_holds {san : Option (List UInt8)} {ext : Tlv} {whole : List UInt8}
    (found : SanWithin whole san) (within : ext.content <:+: whole) :
    Holds (extension san ext) fun r => SanWithin whole r.value := by
  rw [extension]
  refine (next_inside within).attempt.bind fun oid? oidIn => ?_
  cases oid? with
  | none => exact found
  | some pair =>
    refine Holds.ite (fun _ => found) fun _ => ?_
    refine (octetString_holds (oidIn pair rfl).2).bind fun octet? octetIn => ?_
    cases octet? with
    | none => exact found
    | some octet =>
      refine (tlv_inside (octetIn octet rfl)).attempt.bind fun names? namesIn => ?_
      cases names? with
      | none => exact found
      | some names =>
        intro content same
        cases same
        exact namesIn names rfl

theorem trailingField_holds {san : Option (List UInt8)} {outer : Tlv} {whole : List UInt8}
    (found : SanWithin whole san) (within : outer.content <:+: whole) :
    Holds (trailingField san outer) fun r => SanWithin whole r.value := by
  rw [trailingField]
  refine Holds.ite (fun _ => ?_) fun _ => found
  refine (tlv_inside within).attempt.bind fun extSeq? extIn => ?_
  cases extSeq? with
  | none => exact found
  | some extSeq =>
    have kept : ∀ s t, SanWithin whole s → t.content <:+: extSeq.content →
        Holds (extension s t) fun r => SanWithin whole r.value :=
      fun s t found' content => extension_holds found' (content.trans (extIn extSeq rfl))
    exact (eachTlv_holds kept found).bind fun _ found' => found'

/-- The slices read from the signed part lie in `whole`. -/
structure TbsFields.Within (fields : TbsFields) (whole : List UInt8) : Prop where
  issuer : fields.issuer <:+: whole
  subject : fields.subject <:+: whole
  notBefore : fields.notBefore <:+: whole
  notAfter : fields.notAfter <:+: whole
  key : fields.key.Within whole
  plain : fields.key.Plain
  san : SanWithin whole fields.san

theorem parseTbs_holds {content whole : List UInt8} (within : content <:+: whole) :
    Holds (parseTbs content) fun fields => fields.Within whole := by
  rw [parseTbs]
  refine (next_inside within).bind fun first firstIn => ?_
  have serial : Holds (if first.1.tag = tagCtx0 then Seq.next first.2 else pure (first.1, first.2))
      fun p => p.1.content <:+: whole ∧ p.2 <:+: whole :=
    Holds.ite (fun _ => next_inside firstIn.2) fun _ => firstIn
  refine serial.bind fun _ serialIn => ?_
  refine (next_inside serialIn.2).bind fun _ algIn => ?_
  refine (next_inside algIn.2).bind fun issuer issuerIn => ?_
  refine (next_inside issuerIn.2).bind fun validity validityIn => ?_
  refine (next_inside validityIn.2).bind fun subject subjectIn => ?_
  refine (next_inside subjectIn.2).bind fun spki spkiIn => ?_
  refine (next_inside validityIn.1).bind fun notBefore beforeIn => ?_
  refine (next_inside beforeIn.2).bind fun notAfter afterIn => ?_
  refine (parseSpki_holds spkiIn.1).bind fun key keyIn => ?_
  have kept : ∀ s t, SanWithin whole s → t.content <:+: spki.2 →
      Holds (trailingField s t) fun r => SanWithin whole r.value :=
    fun s t found content => trailingField_holds found (content.trans spkiIn.2)
  have noneYet : SanWithin whole none := fun _ same => nomatch same
  refine (eachTlv_holds kept noneYet).bind fun san sanIn => ?_
  exact ⟨issuerIn.1, subjectIn.1, beforeIn.1, afterIn.1, keyIn.1, keyIn.2, sanIn⟩

theorem parseCert_holds (der : List UInt8) : Holds (parseCert der) (Parsed der) := by
  rw [parseCert]
  refine (tlv_holds der).returned.bind fun cert certRead => ?_
  obtain ⟨certOk, certReads⟩ := certRead
  have certIn : cert.content <:+: der := certReads.content_infix
  refine Holds.ite (fun _ => trivial) fun isSeq => ?_
  refine (next_holds cert.content).bind ?_
  rintro ⟨tbsTlv, it⟩ ⟨tbsOk, made⟩
  refine Holds.ite (fun _ => trivial) fun tbsSeq => ?_
  refine (holds_sub (Nat.zero_le _) made.reads.total_le).bind ?_
  rintro tbs rfl
  rw [List.drop_zero, Nat.sub_zero]
  have itIn : it <:+: der :=
    (List.IsSuffix.isInfix ⟨cert.content.take tbsTlv.total, made.split.symm⟩).trans certIn
  refine (next_inside itIn).bind fun sigalgTlv sigalgIn => ?_
  refine (next_inside sigalgIn.1).bind fun sigAlg algIn => ?_
  refine (next_inside sigalgIn.2).bind fun sigBs sigIn => ?_
  refine (bits_holds sigIn.1).bind fun sig sigIn => ?_
  have contentIn : tbsTlv.content <:+: der := made.reads.content_infix.trans certIn
  refine (parseTbs_holds contentIn).returned.bind ?_
  rintro fields ⟨fieldsOk, within⟩
  have tbsIn : cert.content.take tbsTlv.total <:+: der :=
    (List.take_prefix _ _).isInfix.trans certIn
  have tags : cert.tag = tagSeq ∧ tbsTlv.tag = tagSeq :=
    ⟨not_not.mp isSeq, not_not.mp tbsSeq⟩
  obtain ⟨header, encoded⟩ := certReads.encoded
  have size : (cert.content.take tbsTlv.total).length = tbsTlv.total :=
    List.length_take_of_le made.reads.total_le
  have split : cert.content = cert.content.take tbsTlv.total ++ it := made.split
  refine ⟨?_, it, ⟨header, der.drop cert.total, ?_, ?_⟩, tbsTlv.content, ?_, fieldsOk⟩
  · simp only [Cert.slices, List.mem_append, List.mem_cons, List.not_mem_nil, or_false,
      Option.mem_toList]
    rintro part ((rfl | rfl | rfl | rfl | rfl | rfl | rfl | rfl | rfl | rfl) | isSan)
    · exact tbsIn
    · exact algIn.1
    · exact sigIn
    · exact within.issuer
    · exact within.subject
    · exact within.notBefore
    · exact within.notAfter
    · exact within.key.1
    · exact within.key.2.1
    · exact within.key.2.2
    · exact within.san part isSan
  · rw [List.append_assoc header, ← split, ← encoded, List.take_append_drop]
  · rw [certOk, List.append_assoc header, ← split, ← encoded,
      List.length_take_of_le certReads.total_le]
    simp only [← tags.1]
  · rw [tlv_take tbsOk, size]
    simp only [← tags.2]

/-- The key of a parsed certificate has only the parts of its kind. -/
theorem Parsed.plain {der : List UInt8} {cert : Cert} (parsed : Parsed der cert) :
    cert.key.Plain := by
  obtain ⟨rest, signed⟩ := parsed.signed
  obtain ⟨content, _, fieldsOk⟩ := signed.whole
  exact ((parseTbs_holds (List.infix_refl content)).of_ok fieldsOk).plain

/-! ## Times and host names -/

theorem digit_toNat {b : UInt8} (digit : 0x30 ≤ b ∧ b ≤ 0x39) :
    0x30 ≤ b.toNat ∧ b.toNat ≤ 0x39 :=
  ⟨UInt8.le_iff_toNat_le.mp digit.1, UInt8.le_iff_toNat_le.mp digit.2⟩

theorem d2_holds {b : List UInt8} {i : Nat} (small : i < 100) :
    Holds (d2 b i) fun n => n ≤ 99 := by
  rw [d2]
  refine (holds_addIn (by omega)).bind ?_
  rintro j rfl
  refine Holds.ite (fun _ => trivial) fun long => ?_
  refine (holds_index (by omega)).bind fun hi _ => ?_
  refine (holds_index (by omega)).bind fun lo _ => ?_
  refine Holds.ite (fun _ => trivial) fun digits => ?_
  have both := not_or.mp digits
  have tens := digit_toNat (not_not.mp both.1)
  have units := digit_toNat (not_not.mp both.2)
  refine (holds_subIn tens.1).bind ?_
  rintro x rfl
  refine (holds_mulIn (by omega)).bind ?_
  rintro x rfl
  refine (holds_subIn units.1).bind ?_
  rintro y rfl
  refine (holds_addIn (by omega)).mono ?_
  rintro n rfl
  omega

theorem yearOf_holds (tag : UInt8) (b : List UInt8) :
    Holds (yearOf tag b) fun p => p.1 ≤ 9999 ∧ p.2 ≤ 4 := by
  rw [yearOf]
  refine Holds.ite (fun _ => ?_) fun _ => ?_
  · refine (d2_holds (by omega)).bind fun hi hundreds => ?_
    refine (d2_holds (by omega)).bind fun lo years => ?_
    refine (holds_mulIn (by omega)).bind ?_
    rintro _ rfl
    refine (holds_addIn (by omega)).bind ?_
    rintro year rfl
    exact ⟨by simp only; omega, Nat.le_refl 4⟩
  · refine (d2_holds (by omega)).bind fun yy years => ?_
    have century : Holds (if yy < 50 then addIn 32 2000 yy else addIn 32 1900 yy)
        fun year => year ≤ 9999 := by
      refine Holds.ite (fun _ => ?_) fun _ => ?_
      · refine (holds_addIn (by omega)).mono ?_
        rintro year rfl
        omega
      · refine (holds_addIn (by omega)).mono ?_
        rintro year rfl
        omega
    exact century.bind fun year bound => ⟨bound, by simp only; omega⟩

theorem pack_holds {y mo d h mi s : Nat} (year : y ≤ 9999) (month : mo ≤ 99) (day : d ≤ 99)
    (hour : h ≤ 99) (minute : mi ≤ 99) (second : s ≤ 99) :
    Holds (pack y mo d h mi s) fun _ => True := by
  rw [pack]
  refine (holds_mulIn (by omega)).bind ?_
  rintro _ rfl
  refine (holds_mulIn (by omega)).bind ?_
  rintro _ rfl
  refine (holds_addIn (by omega)).bind ?_
  rintro _ rfl
  refine (holds_mulIn (by omega)).bind ?_
  rintro _ rfl
  refine (holds_addIn (by omega)).bind ?_
  rintro _ rfl
  refine (holds_mulIn (by omega)).bind ?_
  rintro _ rfl
  refine (holds_addIn (by omega)).bind ?_
  rintro _ rfl
  refine (holds_mulIn (by omega)).bind ?_
  rintro _ rfl
  refine (holds_addIn (by omega)).bind ?_
  rintro _ rfl
  exact (holds_addIn (by omega)).mono fun _ _ => trivial

/-- Parsing a time never faults, whatever the tag and the bytes. -/
theorem parseTime_holds (tag : UInt8) (b : List UInt8) :
    Holds (parseTime tag b) fun _ => True := by
  rw [parseTime]
  refine (yearOf_holds tag b).bind ?_
  rintro ⟨year, off⟩ ⟨years, start⟩
  refine (d2_holds (by simp only at start; omega)).bind fun mo months => ?_
  refine (holds_addIn (by simp only at start; omega)).bind ?_
  rintro _ rfl
  refine (d2_holds (by simp only at start; omega)).bind fun d days => ?_
  refine (holds_addIn (by simp only at start; omega)).bind ?_
  rintro _ rfl
  refine (d2_holds (by simp only at start; omega)).bind fun h hours => ?_
  refine (holds_addIn (by simp only at start; omega)).bind ?_
  rintro _ rfl
  refine (d2_holds (by simp only at start; omega)).bind fun mi minutes => ?_
  refine (holds_addIn (by simp only at start; omega)).bind ?_
  rintro _ rfl
  refine (d2_holds (by simp only at start; omega)).bind fun s seconds => ?_
  exact pack_holds years months days hours minutes seconds

theorem checkValidity_holds (cert : Cert) (now : Nat) :
    Holds (checkValidity cert now) fun _ => True := by
  rw [checkValidity]
  refine (parseTime_holds _ _).attempt.bind fun nb? _ => ?_
  cases nb? with
  | none => trivial
  | some nb =>
    refine (parseTime_holds _ _).attempt.bind fun na? _ => ?_
    cases na? with
    | none => trivial
    | some na => trivial

/-- Comparing a name always gives an answer. -/
theorem dnsMatch_total (pat host : List UInt8) : ∃ found, dnsMatch pat host = .ok found := by
  rw [dnsMatch]
  by_cases wildcard : [0x2a, 0x2e].isPrefixOf pat = true
  · have two : 2 ≤ pat.length := (List.isPrefixOf_iff_prefix.mp wildcard).length_le
    have suffix : ∃ part, sub pat 1 pat.length = .ok part :=
      ⟨_, sub_eq_ok.mpr ⟨by omega, Nat.le_refl _, rfl⟩⟩
    obtain ⟨part, cut⟩ := suffix
    rw [if_pos wildcard]
    cases dot? : host.findIdx? (· == 0x2e) with
    | none => exact ⟨false, bind_eq_ok.mpr ⟨part, cut, rfl⟩⟩
    | some dot =>
      have inside : dot < host.length := (List.findIdx?_eq_some_iff_findIdx_eq.mp dot?).1
      have tail : sub host dot host.length = .ok ((host.drop dot).take (host.length - dot)) :=
        sub_eq_ok.mpr ⟨by omega, Nat.le_refl _, rfl⟩
      exact ⟨_, bind_eq_ok.mpr ⟨part, cut, bind_eq_ok.mpr ⟨_, tail, rfl⟩⟩⟩
  · rw [if_neg wildcard]
    exact ⟨_, rfl⟩

/-- The walk over names stops at a match and goes on otherwise. -/
theorem matchesName_total (host : List UInt8) (s : Bool) (gn : Tlv) :
    matchesName host s gn = .ok (.done true) ∨ matchesName host s gn = .ok (.yield false) := by
  rw [matchesName]
  by_cases dns : gn.tag = 0x82
  · obtain ⟨found, compared⟩ := dnsMatch_total gn.content host
    rw [if_pos dns, compared]
    cases found with
    | true => exact .inl rfl
    | false => exact .inr rfl
  · rw [if_neg dns]
    exact .inr rfl

theorem hostnameOk_holds (cert : Cert) (host : List UInt8) :
    Holds (hostnameOk cert host) fun _ => True := by
  rw [hostnameOk]
  cases cert.san with
  | none => trivial
  | some names =>
    refine eachTlv_holds (fun s gn _ _ => ?_) trivial
    rcases matchesName_total host s gn with ran | ran
    · rw [ran]
      trivial
    · rw [ran]
      trivial

/-- A certificate was valid at `now`. -/
def ValidAt (cert : Cert) (now : Nat) : Prop :=
  ∃ nb na, parseTime (timeTag cert.notBefore) cert.notBefore = .ok nb ∧
    parseTime (timeTag cert.notAfter) cert.notAfter = .ok na ∧ nb ≤ now ∧ now ≤ na

theorem validAt_of_check {cert : Cert} {now : Nat} (valid : checkValidity cert now = .ok true) :
    ValidAt cert now := by
  rw [checkValidity] at valid
  obtain ⟨nb?, before, valid⟩ := bind_eq_ok.mp valid
  cases nb? with
  | none => cases valid
  | some nb =>
    obtain ⟨na?, after, valid⟩ := bind_eq_ok.mp valid
    cases na? with
    | none => cases valid
    | some na =>
      have window : nb ≤ now ∧ now ≤ na := of_decide_eq_true (Except.ok.inj valid)
      exact ⟨nb, na, attempt_eq_some before, attempt_eq_some after, window⟩

/-- One of the dNSNames of a certificate matches the host. -/
def Names (cert : Cert) (host : List UInt8) : Prop :=
  ∃ names gn, cert.san = some names ∧ Listed names gn ∧ gn.tag = 0x82 ∧
    dnsMatch gn.content host = .ok true

theorem matchesName_done {host : List UInt8} {s : Bool} {gn : Tlv} :
    matchesName host s gn = .ok (.done true) ↔
      gn.tag = 0x82 ∧ dnsMatch gn.content host = .ok true := by
  rw [matchesName]
  constructor
  · intro ran
    by_cases dns : gn.tag = 0x82
    · rw [if_pos dns] at ran
      obtain ⟨found, matched, ran⟩ := bind_eq_ok.mp ran
      cases found with
      | true => exact ⟨dns, matched⟩
      | false => cases ran
    · rw [if_neg dns] at ran
      cases ran
  · rintro ⟨dns, matched⟩
    rw [if_pos dns]
    exact bind_eq_ok.mpr ⟨true, matched, rfl⟩

/-- A walk over names finds a match that is listed. -/
theorem walk_matches {host rest : List UInt8} {gn : Tlv} (listed : Listed rest gn)
    (matched : matchesName host false gn = .ok (.done true)) (steps : Nat)
    (enough : rest.length < steps) : walk (matchesName host) steps rest false = .ok true := by
  induction steps generalizing rest with
  | zero => exact absurd enough (Nat.not_lt_zero _)
  | succ steps ih =>
    rw [walk]
    cases listed with
    | here next =>
      exact bind_eq_ok.mpr ⟨_, congrArg attempt next, bind_eq_ok.mpr ⟨_, matched, rfl⟩⟩
    | @there _ rest' t' _ next later =>
      refine bind_eq_ok.mpr ⟨_, congrArg attempt next, ?_⟩
      have shorter : rest'.length < rest.length := ((next_holds rest).of_ok next).2.shorter
      rcases matchesName_total host false t' with ran | ran
      · exact bind_eq_ok.mpr ⟨_, ran, rfl⟩
      · exact bind_eq_ok.mpr ⟨_, ran, ih later (by omega)⟩

/-- The host is accepted exactly when a dNSName of the certificate matches it. -/
theorem hostnameOk_iff {cert : Cert} {host : List UInt8} :
    hostnameOk cert host = .ok true ↔ Names cert host := by
  rw [hostnameOk]
  constructor
  · intro found
    cases isSan : cert.san with
    | none =>
      rw [isSan] at found
      cases found
    | some names =>
      rw [isSan] at found
      obtain ⟨s₀, gn, r, listed, rfl, ran, out⟩ :=
        walk_visits (· = false) found rfl Bool.noConfusion
      rcases matchesName_total host false gn with stops | goes
      · obtain ⟨dns, matched⟩ := matchesName_done.1 stops
        exact ⟨names, gn, isSan, listed, dns, matched⟩
      · cases ran.symm.trans goes
        exact absurd rfl out
  · rintro ⟨names, gn, isSan, listed, dns, matched⟩
    rw [isSan]
    exact walk_matches listed (matchesName_done.2 ⟨dns, matched⟩) _ (Nat.lt_succ_self _)

/-- **Parser safety**: no reader of the certificate parser leaves its input or overflows,
every slice it returns lies in the input, every step of a walk consumes the record it
returns, and a parsed certificate's signed part is the one contiguous record its fields
were read from. -/
theorem parser_safe :
    (∀ buf, Holds (tlv buf) fun t => t.content <:+: buf ∧ 2 ≤ t.total ∧ t.total ≤ buf.length) ∧
    (∀ rest, Holds (Seq.next rest) fun p =>
      p.1.content <:+: rest ∧ 0 < p.1.total ∧ rest = rest.take p.1.total ++ p.2 ∧
        p.2.length < rest.length) ∧
    (∀ der, Holds (parseCert der) (Parsed der)) ∧
    (∀ content, Holds (parseSpki content) fun key => key.Within content) ∧
    (∀ outer, Holds (trailingField none outer) fun r => SanWithin outer.content r.value) ∧
    (∀ tag b, Holds (parseTime tag b) fun _ => True) ∧
    (∀ cert now, Holds (checkValidity cert now) fun _ => True) ∧
    (∀ cert host, Holds (hostnameOk cert host) fun _ => True) := by
  refine ⟨fun buf => ?_, fun rest => ?_, parseCert_holds,
    fun content => (parseSpki_holds (List.infix_refl content)).mono fun _ read => read.1,
    fun outer => trailingField_holds (fun _ same => nomatch same) (List.infix_refl _),
    parseTime_holds, checkValidity_holds, hostnameOk_holds⟩
  · exact (tlv_holds buf).mono fun t reads => ⟨reads.content_infix, reads.two_le, reads.total_le⟩
  · refine (next_holds rest).mono ?_
    rintro ⟨t, rest'⟩ ⟨_, made⟩
    exact ⟨made.reads.content_infix, Nat.lt_of_lt_of_le Nat.two_pos made.reads.two_le,
      made.split, made.shorter⟩

end RustyPenguin.X509
