import SwarrmVerify.L1Encoding.Reference
import SwarrmVerify.L4Bundle.Trust

/-!
# Timestamp tokens (`tsa.rs`)

A token is a CMS SignedData around a TSTInfo. What is signed is the set of
signed attributes, which carries a digest of the TSTInfo; neither the digest
algorithm nor the token around them is signed. Still, a token cannot be changed
under its signature: digests of different algorithms differ in length, so the
attributes say which one made theirs.

`L4Bundle.Trust` takes a parsed token and the certificate whose signature holds
as given. Here they are computed, in the order of the source, over the crates
that decode DER and verify signatures (`Cms`).

**Hypotheses.** `AttributesLaw`: the DER of attributes determines them. The
contents of the two tokens do not collide under any of the digests
(`HashFree`).

**Results.**
* `verifiedTst_refines`: the two models agree on every token.
* `verifiedTst_spec`: what a token that verifies has been checked for.
* `hashBytes_oid`: the length of a digest tells which algorithm made it.
* `attributes_fix_token`: tokens with the same signed attributes are about one
  digest and one time, whatever else stands in them.
-/
namespace SwarrmVerify.L4.Tokens
open SwarrmVerify.L4.Trust

/-! ## CMS -/

/-- An `Any`: a tag and the bytes of the value. -/
structure Any where
  tag : UInt8
  value : Bytes
  deriving DecidableEq

def tagSequence : UInt8 := 0x30

/-- Context-specific, constructed, number 1. -/
def tagOtherRevocation : UInt8 := 0xa1

inductive CmsVersion where
  | v0
  | v1
  | v2
  | v3
  | v4
  | v5
  deriving DecidableEq

inductive SignerIdentifier where
  | issuerAndSerialNumber (issuer serial : Bytes)
  | subjectKeyIdentifier (key : Bytes)
  deriving DecidableEq

inductive CertificateChoices where
  | certificate (cert : Certificate)
  | other
  deriving DecidableEq

structure Attribute where
  oid : Oid
  values : List Any
  deriving DecidableEq

structure SignerInfo where
  version : CmsVersion
  sid : SignerIdentifier
  digestAlg : Oid
  signedAttrs : Option (List Attribute)
  signatureAlgorithm : Oid
  signature : Bytes
  deriving DecidableEq

/-- The SignedData of a token, with all that the verifier reads of it.
mirrors verify-rs/src/tsa.rs:81-90 -/
structure TimestampSignedData where
  version : CmsVersion
  econtentType : Oid
  econtent : Option Any
  certificates : Option (List CertificateChoices)
  crls : Option (List Any)
  signerInfos : List SignerInfo
  deriving DecidableEq

/-- What a token attests: a hash by an algorithm, and a time.
mirrors verify-rs/src/tsa.rs:71-75 -/
structure TstImprint where
  alg : Oid
  digest : Bytes
  genTime : GeneralizedTime
  deriving DecidableEq

/-- `SubjectPublicKeyInfoOwned`: the algorithm, its parameters read as an
`ObjectIdentifier`, and the key. -/
structure Spki where
  algorithm : Oid
  curve : Option Oid
  key : Option Bytes
  deriving DecidableEq

/-- An `AlgorithmIdentifier`: its parameters are compared only. -/
structure AlgorithmIdentifier where
  oid : Oid
  parameters : Option Any
  deriving DecidableEq

/-- A decoder on a `SliceReader`: a value and the bytes after it. -/
abbrev Decoder (α : Type) := Bytes → Option (α × Bytes)

/-- What `tsa.rs` calls. -/
structure Cms extends Crates where
  sha384 : Bytes → { b : Bytes // b.length = 48 }
  sha512 : Bytes → { b : Bytes // b.length = 64 }
  any : Decoder Any
  u8 : Decoder Nat
  oid : Decoder Oid
  /-- `AlgorithmIdentifierOwned`: its algorithm -/
  algorithm : Decoder Oid
  octets : Decoder Bytes
  int : Decoder Unit
  time : Decoder GeneralizedTime
  /-- `Any::decode_as` -/
  asOid : Any → Option Oid
  asOctets : Any → Option Bytes
  asSignedData : Any → Option TimestampSignedData
  /-- `ContentInfo::from_der`: content type and content -/
  contentInfo : Bytes → Option (Oid × Any)
  /-- `CertificateList::from_der` of an element is ok -/
  certificateList : Any → Bool
  /-- `to_der` of a `SET OF` attributes -/
  attributesDer : List Attribute → Option Bytes
  /-- the members of a certificate that only signatures and the signer's
  identity need -/
  serialNumber : Certificate → Bytes
  spki : Certificate → Spki
  signatureAlgorithm : Certificate → AlgorithmIdentifier
  tbsSignature : Certificate → AlgorithmIdentifier
  signature : Certificate → Option Bytes
  /-- key, signature and prehash under `p256` and `p384`; what does not decode
  verifies nothing -/
  p256Prehash : Bytes → Bytes → Bytes → Bool
  p384Prehash : Bytes → Bytes → Bytes → Bool
  /-- key, scheme by its hash, prehash and signature under `rsa` -/
  pkcs1v15 : Bytes → Oid → Bytes → Bytes → Bool

variable (P : Cms)

/-! ## Object identifiers -/

def oidSignedData : Oid := "1.2.840.113549.1.7.2"
def oidTstInfo : Oid := "1.2.840.113549.1.9.16.1.4"
def oidContentType : Oid := "1.2.840.113549.1.9.3"
def oidMessageDigest : Oid := "1.2.840.113549.1.9.4"
def oidSha384 : Oid := "2.16.840.1.101.3.4.2.2"
def oidSha512 : Oid := "2.16.840.1.101.3.4.2.3"
def oidEcdsaSha256 : Oid := "1.2.840.10045.4.3.2"
def oidEcdsaSha384 : Oid := "1.2.840.10045.4.3.3"
def oidEcdsaSha512 : Oid := "1.2.840.10045.4.3.4"
def oidEcPublicKey : Oid := "1.2.840.10045.2.1"
def oidPrime256v1 : Oid := "1.2.840.10045.3.1.7"
def oidSecp384r1 : Oid := "1.3.132.0.34"
def oidRsaEncryption : Oid := "1.2.840.113549.1.1.1"
def oidSha256Rsa : Oid := "1.2.840.113549.1.1.11"
def oidSha384Rsa : Oid := "1.2.840.113549.1.1.12"
def oidSha512Rsa : Oid := "1.2.840.113549.1.1.13"

/-! ## Signatures -/

/-- The hashes that a token may use. mirrors verify-rs/src/tsa.rs:114-121 -/
def hashBytes (oid : Oid) (data : Bytes) : Option Bytes :=
  if oid == oidSha256 then some (P.sha256 data).val
  else if oid == oidSha384 then some (P.sha384 data).val
  else if oid == oidSha512 then some (P.sha512 data).val
  else none

/-- The hash of a signature algorithm, or the hint. -/
def signatureHash (sigAlg digestHint : Oid) : Oid :=
  if sigAlg == oidEcdsaSha256 || sigAlg == oidSha256Rsa then oidSha256
  else if sigAlg == oidEcdsaSha384 || sigAlg == oidSha384Rsa then oidSha384
  else if sigAlg == oidEcdsaSha512 || sigAlg == oidSha512Rsa then oidSha512
  else digestHint

/-- A signature over a digest under an elliptic key, by its curve.
mirrors verify-rs/src/tsa.rs:150-171 -/
def verifyEcdsa (spki : Spki) (sig digest : Bytes) : Bool :=
  if spki.algorithm != oidEcPublicKey then false
  else match spki.key, spki.curve with
    | some key, some c =>
      if c == oidPrime256v1 then P.p256Prehash key sig digest
      else if c == oidSecp384r1 then P.p384Prehash key sig digest
      else false
    | _, _ => false

/-- A signature over a digest under an RSA key, with the padding of the named
hash.
mirrors verify-rs/src/tsa.rs:174-187 -/
def verifyRsa (spki : Spki) (sig digest : Bytes) (hashOid : Oid) : Bool :=
  if spki.algorithm != oidRsaEncryption then false
  else match spki.key with
    | some key =>
      if [oidSha256, oidSha384, oidSha512].contains hashOid then P.pkcs1v15 key hashOid digest sig else false
    | none => false

/-- The key decides the family, the signature algorithm the hash.
mirrors verify-rs/src/tsa.rs:131-146 -/
def verifySig (spki : Spki) (sigAlg digestHint : Oid) (sig data : Bytes) : Bool :=
  let hashOid := signatureHash sigAlg digestHint
  match hashBytes P hashOid data with
  | none => false
  | some digest =>
    if spki.algorithm == oidRsaEncryption then
      [oidRsaEncryption, oidSha256Rsa, oidSha384Rsa, oidSha512Rsa].contains sigAlg &&
        verifyRsa P spki sig digest hashOid
    else if spki.algorithm == oidEcPublicKey then
      [oidEcdsaSha256, oidEcdsaSha384, oidEcdsaSha512].contains sigAlg && verifyEcdsa P spki sig digest
    else false

/-- A certificate is signed by its issuer, by the algorithm that it names in
both places.
mirrors verify-rs/src/tsa.rs:284-290 -/
def certSigValid (current issuer : Certificate) (tbsDer : Bytes) : Bool :=
  if P.signatureAlgorithm current != P.tbsSignature current then false
  else match P.signature current with
    | none => false
    | some sig =>
      verifySig P (P.spki issuer) (P.signatureAlgorithm current).oid (P.signatureAlgorithm current).oid sig tbsDer

/-! ## Parsing -/

/-- The imprint of a token and what follows it.
mirrors verify-rs/src/tsa.rs:190-199 -/
def parseImprint (r : Bytes) : Option ((Oid × Bytes) × Bytes) := do
  let (imprint, rest) ← P.any r
  if imprint.tag != tagSequence then none
  else
    let (alg, ir) ← P.algorithm imprint.value
    let (digest, _) ← P.octets ir
    return ((alg, digest), rest)

/-- The content of a token, version 1, with nothing after it.
mirrors verify-rs/src/tsa.rs:201-215 -/
def parseTstInfo (tstDer : Bytes) : Option TstImprint := do
  let (outer, rest) ← P.any tstDer
  if !rest.isEmpty then none
  else if outer.tag != tagSequence then none
  else
    let (version, r) ← P.u8 outer.value
    if version != 1 then none
    else
      let (_, r) ← P.oid r
      let ((alg, digest), r) ← parseImprint P r
      let (_, r) ← P.int r
      let (genTime, _) ← P.time r
      return ⟨alg, digest, genTime⟩

/-- One element of the revocation lists; `true` is an opaque format. -/
def revocation (item : Any) : Option Bool :=
  if item.tag == tagSequence then if P.certificateList item then some false else none
  else if item.tag == tagOtherRevocation then do
    let (_, r) ← P.oid item.value
    let (_, r) ← P.any r
    if r.isEmpty then some true else none
  else none

/-- Whether a token carries revocation data that is not understood.
mirrors verify-rs/src/tsa.rs:92-112 -/
def otherRevocationPresent (crls : Option (List Any)) : Option Bool := do
  return ((← (crls.getD []).mapM (revocation P)).any id)

/-- A token taken apart: signed data with a time-stamp for its content.
mirrors verify-rs/src/tsa.rs:217-238 -/
def parseToken (tokenDer : Bytes) : Option (TimestampSignedData × Bytes × TstImprint) := do
  let (contentType, content) ← P.contentInfo tokenDer
  if contentType != oidSignedData then none
  else
    let sd ← P.asSignedData content
    if sd.econtentType != oidTstInfo then none
    else
      let otherCert := sd.certificates.any fun cs => cs.any (· == .other)
      let otherRevocation ← otherRevocationPresent P sd.crls
      if sd.version != (if otherCert || otherRevocation then CmsVersion.v5 else CmsVersion.v3) then none
      else
        let tstDer ← sd.econtent.bind P.asOctets
        let info ← parseTstInfo P tstDer
        return (sd, tstDer, info)

/-! ## The signer -/

/-- The value of an attribute that occurs once with one value.
mirrors verify-rs/src/tsa.rs:240-247 -/
def signedAttribute (attrs : List Attribute) (oid : Oid) : Option Any :=
  match attrs.filter fun a => a.oid == oid with
  | [attr] =>
    match attr.values with
    | [value] => some value
    | _ => none
  | _ => none

/-- The one signer of a token, named by issuer and serial number, whose
attributes bind the content.
mirrors verify-rs/src/tsa.rs:252-269 -/
def checkSignerInfo (sd : TimestampSignedData) (tstDer : Bytes) : Option SignerInfo :=
  match sd.signerInfos with
  | [si] => do
    if si.version != .v1 then none
    else match si.sid with
      | .subjectKeyIdentifier _ => none
      | .issuerAndSerialNumber _ _ =>
        let attrs ← si.signedAttrs
        if attrs.isEmpty then none
        else
          let want ← hashBytes P si.digestAlg tstDer
          let contentType ← (signedAttribute attrs oidContentType).bind P.asOid
          if contentType != oidTstInfo then none
          else
            let digest ← (signedAttribute attrs oidMessageDigest).bind P.asOctets
            if digest != want then none else return si
  | _ => none

/-- The certificate of the signer among those the token carries.
mirrors verify-rs/src/tsa.rs:271-282 -/
def findSignerCert (sd : TimestampSignedData) (si : SignerInfo) : Option Certificate :=
  match si.sid with
  | .subjectKeyIdentifier _ => none
  | .issuerAndSerialNumber issuer serial => do
    let choices ← sd.certificates
    choices.findSome? fun choice =>
      match choice with
      | .certificate cert => if P.serialNumber cert == serial && cert.issuer == issuer then some cert else none
      | .other => none

/-- The certificate whose signature over the signed attributes holds. -/
def verifiedSigner (sd : TimestampSignedData) (tstDer : Bytes) : Option Certificate := do
  let si ← checkSignerInfo P sd tstDer
  let signer ← findSignerCert P sd si
  let attrsDer ← si.signedAttrs.bind P.attributesDer
  if verifySig P (P.spki signer) si.signatureAlgorithm si.digestAlg si.signature attrsDer then some signer else none

/-- The crates that `L4Bundle.Trust` runs on. -/
def crates : Crates :=
  { P.toCrates with
    parseToken := fun der => do
      let (sd, tstDer, tst) ← parseToken P der
      return ⟨tst.alg, tst.digest, tst.genTime, verifiedSigner P sd tstDer⟩
    certSigValid := certSigValid P }

/-- The checks in the order of the source.
mirrors verify-rs/src/tsa.rs:367-392 -/
def verifiedTst (tokenDer : Bytes) (expectedDigestHex certChainPem : String) (rootsPem : Option String) :
    Option (GeneralizedTime × Bool) := do
  let (sd, tstDer, tst) ← parseToken P tokenDer
  if tst.alg != oidSha256 || hex tst.digest != expectedDigestHex then none
  else
    let si ← checkSignerInfo P sd tstDer
    let signer ← findSignerCert P sd si
    let attrsDer ← si.signedAttrs.bind P.attributesDer
    if !verifySig P (P.spki signer) si.signatureAlgorithm si.digestAlg si.signature attrsDer then none
    else
      let pool ← P.loadPemChain certChainPem
      let trusted := (rootsPem.bind P.loadPemChain).any fun roots =>
        isTimestampingSigner signer && walkChain (crates P) signer pool (some roots) (some tst.genTime)
      if !walkChain (crates P) signer pool none none then none
      else if genTimeInValidity tst.genTime signer then some (tst.genTime, trusted)
      else none

/-! ## The two models -/

variable {P}

/-- The checks in the order of the source find what the certificate of the
signer and the path builder find. -/
theorem verifiedTst_refines (token : Bytes) (digest chain : String) (roots : Option String) :
    verifiedTst P token digest chain roots = Trust.verifiedTst (crates P) token digest chain roots := by
  unfold verifiedTst Trust.verifiedTst
  cases hparse : parseToken P token with
  | none => simp [crates, hparse]
  | some r =>
    obtain ⟨sd, tstDer, tst⟩ := r
    have hpem : (crates P).loadPemChain = P.loadPemChain := rfl
    have htoken : (crates P).parseToken token =
        some ⟨tst.alg, tst.digest, tst.genTime, verifiedSigner P sd tstDer⟩ := by
      simp [crates, hparse]
    rw [htoken, hpem]
    simp only [Option.bind_eq_bind, Option.bind_some]
    by_cases himprint : (tst.alg != oidSha256 || hex tst.digest != digest) = true
    · rw [if_pos himprint, if_pos himprint]
    · rw [if_neg himprint, if_neg himprint, verifiedSigner]
      cases checkSignerInfo P sd tstDer with
      | none => rfl
      | some si =>
        cases hsigner : findSignerCert P sd si with
        | none => simp [hsigner]
        | some signer =>
          cases hattrs : si.signedAttrs.bind P.attributesDer with
          | none => simp [hsigner, hattrs]
          | some attrsDer =>
            cases hsig : verifySig P (P.spki signer) si.signatureAlgorithm si.digestAlg si.signature attrsDer <;>
              simp [hsigner, hattrs, hsig]

/-! ## What a signature fixes -/

theorem hashBytes_length {oid : Oid} {data digest : Bytes} (h : hashBytes P oid data = some digest) :
    (oid = oidSha256 ∧ digest.length = 32) ∨ (oid = oidSha384 ∧ digest.length = 48) ∨
      (oid = oidSha512 ∧ digest.length = 64) := by
  unfold hashBytes at h
  split at h
  · rename_i hoid
    cases h
    exact .inl ⟨eq_of_beq hoid, (P.sha256 data).2⟩
  split at h
  · rename_i hoid
    cases h
    exact .inr (.inl ⟨eq_of_beq hoid, (P.sha384 data).2⟩)
  split at h
  · rename_i hoid
    cases h
    exact .inr (.inr ⟨eq_of_beq hoid, (P.sha512 data).2⟩)
  · cases h

/-- The length of a digest tells which hash made it. -/
theorem hashBytes_oid {oid oid' : Oid} {data data' digest : Bytes} (h : hashBytes P oid data = some digest)
    (h' : hashBytes P oid' data' = some digest) : oid = oid' := by
  rcases hashBytes_length h with ⟨rfl, hl⟩ | ⟨rfl, hl⟩ | ⟨rfl, hl⟩ <;>
    rcases hashBytes_length h' with ⟨rfl, hl'⟩ | ⟨rfl, hl'⟩ | ⟨rfl, hl'⟩ <;> first | rfl | omega

/-- No hash the verifier knows has one digest for two of the byte strings. -/
def HashFree (P : Cms) (L : List Bytes) : Prop :=
  ∀ a ∈ L, ∀ b ∈ L, ∀ oid digest, hashBytes P oid a = some digest → hashBytes P oid b = some digest → a = b

/-- The attributes a token's signature is over. -/
def attributesOf (P : Cms) (token : Bytes) : Option Bytes := do
  let (sd, tstDer, _) ← parseToken P token
  let si ← checkSignerInfo P sd tstDer
  si.signedAttrs.bind P.attributesDer

/-- The TSTInfo of a token. -/
def contentOf (P : Cms) (token : Bytes) : Bytes := ((parseToken P token).map fun r => r.2.1).getD []

/-- `DER` of attributes determines them. -/
def AttributesLaw (P : Cms) : Prop :=
  ∀ a b der, P.attributesDer a = some der → P.attributesDer b = some der → a = b

theorem checkSignerInfo_spec {sd : TimestampSignedData} {tstDer : Bytes} {si : SignerInfo}
    (h : checkSignerInfo P sd tstDer = some si) : ∃ attrs value want, si.signedAttrs = some attrs ∧
      hashBytes P si.digestAlg tstDer = some want ∧ signedAttribute attrs oidMessageDigest = some value ∧
      P.asOctets value = some want := by
  unfold checkSignerInfo at h
  split at h
  case h_2 => cases h
  rename_i si' _
  split at h
  · cases h
  split at h
  · cases h
  simp only [Option.bind_eq_bind, Option.bind_eq_some_iff, Option.ite_none_left_eq_some, Option.pure_def,
    Option.some.injEq] at h
  obtain ⟨attrs, hattrs, -, want, hwant, contentType, -, -, digest, ⟨value, hvalue, hoctets⟩, hdigest, rfl⟩ := h
  have hdigest : digest = want := by simpa using hdigest
  exact ⟨attrs, value, want, hattrs, hwant, hvalue, by rw [hoctets, hdigest]⟩

theorem parseToken_info {token tstDer : Bytes} {sd : TimestampSignedData} {tst : TstImprint}
    (h : parseToken P token = some (sd, tstDer, tst)) : parseTstInfo P tstDer = some tst := by
  simp only [parseToken, Option.bind_eq_bind, Option.bind_eq_some_iff, Option.ite_none_left_eq_some, Option.pure_def,
    Option.some.injEq, Prod.mk.injEq] at h
  obtain ⟨_, -, -, _, -, -, _, -, -, _, -, info, hinfo, -, rfl, rfl⟩ := h
  exact hinfo

/-- What an accepted token says, and what its signature is over. -/
structure Stamps (P : Cms) (token : Bytes) (digest : String) (time : GeneralizedTime) (tstDer : Bytes)
    (tst : TstImprint) (attrs : List Attribute) : Prop where
  content : contentOf P token = tstDer
  info : parseTstInfo P tstDer = some tst
  digest : hex tst.digest = digest
  time : tst.genTime = time
  der : ∃ der, P.attributesDer attrs = some der ∧ attributesOf P token = some der
  hashed : ∃ oid value want, hashBytes P oid tstDer = some want ∧
    signedAttribute attrs oidMessageDigest = some value ∧ P.asOctets value = some want

theorem verifiedTst_spec {token : Bytes} {digest chain : String} {roots : Option String} {r : GeneralizedTime × Bool}
    (h : verifiedTst P token digest chain roots = some r) :
    ∃ tstDer tst attrs, Stamps P token digest r.1 tstDer tst attrs := by
  simp only [verifiedTst, Option.bind_eq_bind, Option.bind_eq_some_iff, Option.ite_none_left_eq_some,
    Option.ite_none_right_eq_some] at h
  obtain ⟨⟨sd, tstDer, tst⟩, hparse, himprint, si, hsi, signer, -, der, ⟨attrs, hattrs, hder⟩, -, pool, -, -, -, hr⟩ :=
    h
  simp only [Bool.or_eq_true, not_or, bne_iff_ne, ne_eq, not_not] at himprint
  obtain ⟨attrs', value, want, hattrs', hwant, hvalue, hoctets⟩ := checkSignerInfo_spec hsi
  obtain rfl : attrs = attrs' := Option.some.inj (hattrs.symm.trans hattrs')
  cases hr
  refine ⟨tstDer, tst, attrs, by simp [contentOf, hparse], parseToken_info hparse, himprint.2, rfl, ⟨der, hder, ?_⟩,
    si.digestAlg, value, want, hwant, hvalue, hoctets⟩
  simp [attributesOf, hparse, hsi, hattrs, hder]

/-- Tokens with the same signed attributes are about one digest and one time,
whatever else stands in them. -/
theorem attributes_fix_token (hlaw : AttributesLaw P) {token token' : Bytes} {digest digest' chain chain' : String}
    {roots roots' : Option String} {r r' : GeneralizedTime × Bool}
    (h : verifiedTst P token digest chain roots = some r) (h' : verifiedTst P token' digest' chain' roots' = some r')
    (hattrs : attributesOf P token = attributesOf P token') (hc : HashFree P [contentOf P token, contentOf P token']) :
    digest = digest' ∧ r.1 = r'.1 := by
  obtain ⟨tstDer, tst, attrs, hs⟩ := verifiedTst_spec h
  obtain ⟨tstDer', tst', attrs', hs'⟩ := verifiedTst_spec h'
  obtain ⟨der, hder, hof⟩ := hs.der
  obtain ⟨der', hder', hof'⟩ := hs'.der
  rw [hof, hof', Option.some.injEq] at hattrs
  subst hattrs
  obtain rfl := hlaw _ _ _ hder hder'
  obtain ⟨oid, value, want, hwant, hvalue, hoctets⟩ := hs.hashed
  obtain ⟨oid', value', want', hwant', hvalue', hoctets'⟩ := hs'.hashed
  obtain rfl : value = value' := Option.some.inj (hvalue.symm.trans hvalue')
  obtain rfl : want = want' := Option.some.inj (hoctets.symm.trans hoctets')
  -- the digest algorithm is not signed, but the length of the digest fixes it
  obtain rfl := hashBytes_oid hwant hwant'
  rw [hs.content, hs'.content] at hc
  obtain rfl := hc _ (by simp) _ (by simp) _ _ hwant hwant'
  obtain rfl : tst = tst' := Option.some.inj (hs.info.symm.trans hs'.info)
  exact ⟨hs.digest.symm.trans hs'.digest, hs.time.symm.trans hs'.time⟩

end SwarrmVerify.L4.Tokens
