import SwarrmVerify.L4Bundle.Checkpoints
import SwarrmVerify.L4Bundle.Tokens
import SwarrmVerify.L5Guarantees.SplitView

/-!
# Timestamped checkpoints

A timestamp record binds a checkpoint of its bundle to a token of RFC 3161. The
token's signature is over its signed attributes only, and these hold the digest
of the content; so the same signature can be carried around in other tokens, of
other certificates, and in other bundles. What it pins down all the same is the
time and the checkpoint, and through the checkpoint everything below it.

**Hypotheses** of `stamps_pin_history`: both bundles verify, under trust
contexts of their own; each has a record whose token has the same signed
attributes; the DER of attributes determines them (`AttributesLaw`); and there
are no collisions between the contents of the two tokens, nor among the bytes
that the two bundles hash.

**Results.**
* `record_stamps`: a record of a verified bundle names a checkpoint of it, and
  its token verifies over the hash of that checkpoint (`Stamp`).
* `walkChain_carried`: a carried chain ends at a self-issued issuer of the
  signer.
* `stamps_pin_history`: the two records name one checkpoint and one time, and
  the bundles agree below that checkpoint.

The second part writes a stamped log out in DER: a signer and an authority, a
token with either set of certificates, and two bundles that carry it.
-/
namespace SwarrmVerify.L5.Stamped
open SwarrmVerify.L2.Merkle SwarrmVerify.L3.Receipt SwarrmVerify.L3.Keys
open SwarrmVerify.L4.Checkpoint SwarrmVerify.L4.Bundle SwarrmVerify.L4.Trust
open SwarrmVerify.L4.Tokens (Cms crates attributesOf contentOf AttributesLaw HashFree attributes_fix_token
  verifiedTst_refines)
open SwarrmVerify.L5.Membership SwarrmVerify.L5.SplitView

variable {X : Crates}

/-- The timestamp records of a bundle, in the order listed. A bundle without the
member, or with another kind of value there, has none. -/
def recordsOf (bundle : Value) : List Value := ((bundle.getSome "tst_records").bind Value.asArray).getD []

/-- The token of a record, decoded. A text that is no base64 is no token. -/
def tokenOf (X : Crates) (record : Value) : Option Bytes := (record.getStr "token_der_b64").bind X.b64Decode

/-- A record, the token in it and the checkpoint it names, which stands in the
chain of the bundle. The time it displays is the one the token attests. -/
structure Stamp (X : Crates) (bundle record : Value) (roots : Option String) (hash : String) (token : Bytes)
    (time : GeneralizedTime) : Prop where
  names : record.getStr "checkpoint_body_hash" = some hash
  carries : tokenOf X record = some token
  displays : record.getStr "gen_time" = some time.text
  verified : ∃ chain trusted, verifiedTst X token hash chain roots = some (time, trusted)
  checkpoint : ∃ cp ∈ chainOf bundle, checkpointBodyHash X cp = some hash

theorem tstLoop_records {roots : Option String} {records : List Value} : ∀ {trusted : List String},
    (tstLoop X roots records trusted).1 = true → ∀ r ∈ records, (tstRecord X roots r).isSome = true := by
  induction records with
  | nil => exact fun _ => List.forall_mem_nil _
  | cons record records ih =>
    intro trusted h
    unfold tstLoop at h
    split at h
    · cases h
    · rename_i p hp
      exact List.forall_mem_cons.mpr ⟨by rw [hp]; rfl, ih h⟩

theorem record_stamps {bundle : Value} {trust : Option Value} (h : (verifyBundleFacts X bundle trust).ok = true)
    {record : Value} (hr : record ∈ recordsOf bundle) :
    ∃ hash token time, Stamp X bundle record (tsaRootsPem trust) hash token time := by
  obtain ⟨checkpoints, htable⟩ := verified_checkpoints h
  have hrecords := htable.records
  unfold checkAttestationRecords at hrecords
  unfold recordsOf at hr
  cases htst : bundle.getSome "tst_records" with
  | none =>
    rw [htst] at hr
    cases hr
  | some tsts =>
    rw [htst, Option.bind_some] at hr
    rw [htst] at hrecords
    dsimp only at hrecords
    have hchecked : (checkTstRecords X tsts checkpoints (tsaRootsPem trust)).1 = true := by
      by_contra hno
      rw [Bool.not_eq_true] at hno
      rw [hno] at hrecords
      simp [hno] at hrecords
    unfold checkTstRecords at hchecked
    split at hchecked
    · cases hchecked
    rename_i hbound
    cases hitems : tsts.asArray with
    | none => simp [hitems] at hchecked
    | some items =>
      rw [hitems] at hchecked hr
      rw [Option.getD_some] at hr
      obtain ⟨p, hp⟩ := Option.isSome_iff_exists.mp (tstLoop_records hchecked record hr)
      simp only [tstRecord, Option.bind_eq_bind, Option.bind_eq_some_iff, Option.ite_none_left_eq_some] at hp
      obtain ⟨hash, hhash, tokenB64, hb64, displayed, hdisplayed, chain, hchain, token, htoken, ⟨time, trusted⟩,
        hverified, htext, -⟩ := hp
      have htext : time.text = displayed := by simpa using htext
      refine ⟨hash, token, time, hhash, by rw [tokenOf, hb64]; exact htoken, by rw [htext]; exact hdisplayed,
        ⟨chain, trusted, hverified⟩, ?_⟩
      have hshown : boundRecordOk record tstRequired "gen_time" checkpoints = true := by
        simp only [checkBoundRecords, hitems] at hbound
        split at hbound
        · simp at hbound
        · exact List.all_eq_true.mp (by simpa using hbound) record hr
      unfold boundRecordOk at hshown
      split at hshown
      · cases hshown
      split at hshown
      · cases hshown
      rw [hhash, Option.getD_some] at hshown
      split at hshown
      · cases hshown
      · rename_i signed size hlookup
        obtain ⟨cp, hcp, hbody, -⟩ := (checkpointFacts_spec htable.chain).1 hash (signed, size) hlookup
        exact ⟨cp, hcp, hbody⟩

/-- **Timestamps pin history.** Two verified bundles, of whatever trust, carry
tokens with the same signed attributes. The records then name one checkpoint and
one time, and the bundles agree below the checkpoint. -/
theorem stamps_pin_history (P : Cms) (hX : WriterLaws (crates P)) (hlaw : AttributesLaw P) (a b : Value)
    (ta tb : Option Value) (ha : (verifyBundleFacts (crates P) a ta).ok = true)
    (hb : (verifyBundleFacts (crates P) b tb).ok = true) (r r' : Value) (hr : r ∈ recordsOf a) (hr' : r' ∈ recordsOf b)
    (token token' : Bytes) (ht : tokenOf (crates P) r = some token) (ht' : tokenOf (crates P) r' = some token')
    (hattrs : attributesOf P token = attributesOf P token') (hc : HashFree P [contentOf P token, contentOf P token'])
    (hview : CollisionFree (crates P) (viewHashed (crates P) a ++ viewHashed (crates P) b)) :
    r.getStr "checkpoint_body_hash" = r'.getStr "checkpoint_body_hash" ∧ r.getStr "gen_time" = r'.getStr "gen_time" ∧
      ∃ cp ∈ chainOf a, checkpointBodyHash (crates P) cp = r.getStr "checkpoint_body_hash" ∧
        AgreeBelow (crates P) a b (targetSize cp) := by
  obtain ⟨hash, s, time, hs⟩ := record_stamps ha hr
  obtain ⟨hash', s', time', hs'⟩ := record_stamps hb hr'
  obtain rfl : token = s := Option.some.inj (ht.symm.trans hs.carries)
  obtain rfl : token' = s' := Option.some.inj (ht'.symm.trans hs'.carries)
  obtain ⟨chain, trusted, hv⟩ := hs.verified
  obtain ⟨chain', trusted', hv'⟩ := hs'.verified
  rw [← verifiedTst_refines] at hv hv'
  obtain ⟨hhash, htime⟩ := attributes_fix_token hlaw hv hv' hattrs hc
  subst hhash
  rw [show time = time' from htime] at hs
  obtain ⟨cp, hcp, hbody⟩ := hs.checkpoint
  obtain ⟨cp', hcp', hbody'⟩ := hs'.checkpoint
  obtain ⟨hL, hL'⟩ := List.append_subset.mp
    (List.Subset.refl (viewHashed (crates P) a ++ viewHashed (crates P) b))
  obtain ⟨d, hseen, hseen'⟩ := shared_below hX ha hb hview hL hL' hcp hcp' hbody hbody'
  exact ⟨hs.names.trans hs'.names.symm, hs.displays.trans hs'.displays.symm, cp, hcp, hbody.trans hs.names.symm,
    hseen.agree hview hseen'⟩

/-- A carried chain ends at a self-issued issuer of the signer. One step of the
walk, with the limits on the pool left to the evaluation. -/
theorem walkChain_carried {X : Crates} {signer issuer : Certificate} {pool : List Certificate} {tbs : Bytes}
    (hder : signer.der.isSome = true) (htbs : signer.tbsDer = some tbs) (hmem : issuer ∈ pool)
    (hissuer : issuer.der.isSome = true) (hsubject : issuer.subject = signer.issuer)
    (hself : issuer.subject = issuer.issuer) (hsig : X.certSigValid signer issuer tbs = true) :
    walkChain X signer pool none none = true := by
  rw [walkChain, walkLoop]
  dsimp only
  split
  · rename_i hnone
    rw [hnone] at hder
    cases hder
  · simp only [Option.isSome_none, Bool.false_and, Bool.false_eq_true, if_false, Option.any_none, dite_false,
      Option.getD_none, List.nil_append, Bool.not_false, Bool.true_and, htbs]
    refine if_pos (List.any_eq_true.mpr ⟨⟨issuer, List.mem_cons_of_mem _ hmem⟩, List.mem_filter.mpr ⟨?_, ?_⟩,
      by simpa using hself⟩)
    · rw [List.mem_reverse, sortByDer, List.mem_insertionSort, List.mem_filter, List.mem_filter, List.mem_map]
      exact ⟨⟨⟨⟨issuer, hmem⟩, List.mem_attach _ _, rfl⟩, by simpa using hsubject⟩, hissuer⟩
    · simp [pathCandidateOk, hsig]

section
open Sha256 SwarrmVerify.L1.Reference SwarrmVerify.L3.Published SwarrmVerify.L4.Tokens

/-! ## A stamped log

An authority issued the certificate of a timestamp signer, which stamped the
head of the published log. The same signature stands in two tokens: the second
carries the authority's certificate too. Keys, signatures and digests are
genuine. -/

def lengthBytes (n : Nat) : Bytes :=
  if n < 128 then [UInt8.ofNat n]
  else if n < 256 then [0x81, UInt8.ofNat n]
  else [0x82, UInt8.ofNat (n / 256), UInt8.ofNat n]

def der (tag : UInt8) (value : Bytes) : Bytes := tag :: (lengthBytes value.length ++ value)

/-- One element with a length of at most two bytes: the short form, or one or
two bytes after the prefix. Longer elements do not occur in the tokens below. -/
def readDer : Decoder Any
  | tag :: 0x81 :: n :: r => if n.toNat ≤ r.length then some (⟨tag, r.take n.toNat⟩, r.drop n.toNat) else none
  | tag :: 0x82 :: h :: l :: r =>
    let n := h.toNat * 256 + l.toNat
    if n ≤ r.length then some (⟨tag, r.take n⟩, r.drop n) else none
  | tag :: n :: r =>
    if n.toNat < 128 ∧ n.toNat ≤ r.length then some (⟨tag, r.take n.toNat⟩, r.drop n.toNat) else none
  | _ => none

/-- The object identifiers of the tokens, by their bytes: the content types, the
digests, the signature and the attributes. -/
def oids : List (Bytes × Oid) :=
  [([0x2a, 0x86, 0x48, 0x86, 0xf7, 0x0d, 0x01, 0x07, 0x02], oidSignedData),
    ([0x2a, 0x86, 0x48, 0x86, 0xf7, 0x0d, 0x01, 0x09, 0x10, 0x01, 0x04], oidTstInfo),
    ([0x60, 0x86, 0x48, 0x01, 0x65, 0x03, 0x04, 0x02, 0x01], oidSha256),
    ([0x2b, 0x06, 0x01, 0x04, 0x01, 0xa0, 0x32, 0x02, 0x03], "1.3.6.1.4.1.4146.2.3")]

def readOid (a : Any) : Option Oid := if a.tag == 0x06 then oids.lookup a.value else none

/-- An element of a tag, read. What does not have the tag, or does not read, is
no value of the type. -/
def element {α : Type} (tag : UInt8) (read : Bytes → Option α) : Decoder α := fun b =>
  (readDer b).bind fun q => if q.1.tag == tag then (read q.1.value).map fun a => (a, q.2) else none

def tstInfo : Bytes :=
  bytesBE 85 0x305302010106092b06010401a0320203302f300b060960864801650304020104207c88fa2cbedba311e1b4e6be42a0f05af051b589c7d3b7d98a97ff2a88df4e02020107180f32303236303130313030303030355a

def attributesBytes : Bytes :=
  bytesBE 79 0x314d301a06092a864886f70d010903310d060b2a864886f70d0109100104302f06092a864886f70d0109043122042005269037a9b9549727103e9a654b248eb22daa283443a4821608d4829d76aaf2

def stampSig : Bytes :=
  bytesBE 71 0x304502206ff86ad3e318b7fab385c6afec7a52cd121f7dde80375bae99ed3b379ac295b6022100b710e4e37c1b285c8700ca424495dcb9535cf1618fdcecef1470f7c213a25673

def authorityTbs : Bytes :=
  bytesBE 217 0x3081d6a003020102020101300a06082a8648ce3d040302300f310d300b06035504030c04526f6f74301e170d3235303130313030303030305a170d3335303130313030303030305a300f310d300b06035504030c04526f6f743059301306072a8648ce3d020106082a8648ce3d0301070342000472fe98ddb78f71493af5d9917b78e5fb003317916b544de1381dfa6d3ff57a7cbb13473c14d683766264cf97593f08162c184e29fa5615513de3550662e1543ba3233021300f0603551d130101ff040530030101ff300e0603551d0f0101ff040403020204

def authoritySig : Bytes :=
  bytesBE 71 0x3045022079c3a6fb0c5f11287f51cfa297e741b49b9f53317e5ae0c5540c3a57d0c09de60221009c6ac176704bfef99e59bf8340a5ebedfe45e083eefec07c98a34ecfec5d1bb0

def signerTbs : Bytes :=
  bytesBE 207 0x3081cca003020102020102300a06082a8648ce3d040302300f310d300b06035504030c04526f6f74301e170d3235303130313030303030305a170d3335303130313030303030305a300e310c300a06035504030c035453413059301306072a8648ce3d020106082a8648ce3d0301070342000488931b411b182f580bb5a4e9addc79afa3ad4f403913b438744b592632a74bfacd282968ed514d4e7cece5bf1b1733e9b0a2d414c9a18bbf62536c5c683fa79ba31a301830160603551d250101ff040c300a06082b06010505070308

def signerSig : Bytes :=
  bytesBE 70 0x3044022011871c515a458a9adf36490a5c8d7caf2a2b22348b3e24ddef501659a3acae3a02204a31d7001449c7450d4c58bced3d4020a5cc7a4d4bed714648b561d4ca2ab546

def ecdsaAlgorithm : Bytes := der 0x30 (der 0x06 [0x2a, 0x86, 0x48, 0xce, 0x3d, 0x04, 0x03, 0x02])

def sha256Algorithm : Bytes := der 0x30 (der 0x06 [0x60, 0x86, 0x48, 0x01, 0x65, 0x03, 0x04, 0x02, 0x01])

/-- A name of one common name, as a sequence of one set of one attribute. -/
def nameOf (cn : Bytes) : Bytes := der 0x30 (der 0x31 (der 0x30 (der 0x06 [0x55, 0x04, 0x03] ++ der 0x0c cn)))

def authorityName : Bytes := nameOf (utf8 "Root")

def certificateDer (tbs sig : Bytes) : Bytes := der 0x30 (tbs ++ ecdsaAlgorithm ++ der 0x03 (0 :: sig))

def authority : Certificate where
  der := some (certificateDer authorityTbs authoritySig)
  tbsDer := some authorityTbs
  subject := authorityName
  issuer := authorityName
  basicConstraints := some (true, none)
  keyCertSign := some true
  extendedKeyUsage := none
  extensions := some [(oidBasicConstraints, true), (oidKeyUsage, true)]
  notBefore := 1735689600
  notAfter := 2051222400

def signer : Certificate where
  der := some (certificateDer signerTbs signerSig)
  tbsDer := some signerTbs
  subject := nameOf (utf8 "TSA")
  issuer := authorityName
  basicConstraints := none
  keyCertSign := none
  extendedKeyUsage := some (true, [oidIdKpTimeStamping])
  extensions := some [(oidExtendedKeyUsage, true)]
  notBefore := 1735689600
  notAfter := 2051222400

def authorityKey : Bytes :=
  bytesBE 65 0x0472fe98ddb78f71493af5d9917b78e5fb003317916b544de1381dfa6d3ff57a7cbb13473c14d683766264cf97593f08162c184e29fa5615513de3550662e1543b

def signerKey : Bytes :=
  bytesBE 65 0x0488931b411b182f580bb5a4e9addc79afa3ad4f403913b438744b592632a74bfacd282968ed514d4e7cece5bf1b1733e9b0a2d414c9a18bbf62536c5c683fa79b

def attributes : List Attribute :=
  [⟨oidContentType, [⟨0x06, [0x2a, 0x86, 0x48, 0x86, 0xf7, 0x0d, 0x01, 0x09, 0x10, 0x01, 0x04]⟩]⟩,
    ⟨oidMessageDigest, [⟨0x04, (sha256 tstInfo).val⟩]⟩]

def signerInfo : SignerInfo where
  version := .v1
  sid := .issuerAndSerialNumber authorityName [2]
  digestAlg := oidSha256
  signedAttrs := some attributes
  signatureAlgorithm := oidEcdsaSha256
  signature := stampSig

/-- The SignedData with some certificates, and its DER. The certificates are
outside of what is signed. -/
def signedData (certs : List Certificate) : TimestampSignedData where
  version := .v3
  econtentType := oidTstInfo
  econtent := some ⟨0x04, tstInfo⟩
  certificates := some (certs.map .certificate)
  crls := none
  signerInfos := [signerInfo]

def signedDataDer (certs : List Certificate) : Bytes :=
  der 0x02 [3] ++ der 0x31 sha256Algorithm ++
    der 0x30 (der 0x06 [0x2a, 0x86, 0x48, 0x86, 0xf7, 0x0d, 0x01, 0x09, 0x10, 0x01, 0x04] ++
      der 0xa0 (der 0x04 tstInfo)) ++
    der 0xa0 (certs.flatMap fun c => c.der.getD []) ++
    der 0x31 (der 0x30 (der 0x02 [1] ++ der 0x30 (authorityName ++ der 0x02 [2]) ++ sha256Algorithm ++
      (0xa0 :: attributesBytes.drop 1) ++ ecdsaAlgorithm ++ der 0x04 stampSig))

def tokenWith (certs : List Certificate) : Bytes :=
  der 0x30 (der 0x06 [0x2a, 0x86, 0x48, 0x86, 0xf7, 0x0d, 0x01, 0x07, 0x02] ++
    der 0xa0 (der 0x30 (signedDataDer certs)))

def authorityPem : String :=
  "\n".intercalate
    ["-----BEGIN CERTIFICATE-----",
      "MIIBLzCB1qADAgECAgEBMAoGCCqGSM49BAMCMA8xDTALBgNVBAMMBFJvb3QwHhcN",
      "MjUwMTAxMDAwMDAwWhcNMzUwMTAxMDAwMDAwWjAPMQ0wCwYDVQQDDARSb290MFkw",
      "EwYHKoZIzj0CAQYIKoZIzj0DAQcDQgAEcv6Y3bePcUk69dmRe3jl+wAzF5FrVE3h",
      "OB36bT/1eny7E0c8FNaDdmJkz5dZPwgWLBhOKfpWFVE941UGYuFUO6MjMCEwDwYD",
      "VR0TAQH/BAUwAwEB/zAOBgNVHQ8BAf8EBAMCAgQwCgYIKoZIzj0EAwIDSAAwRQIg",
      "ecOm+wxfESh/Uc+il+dBtJufUzF+WuDFVAw6V9DAneYCIQCcasF2cEv++Z5Zv4NA",
      "pevt/kXgg+7+wHyYo07P7F0bsA==",
      "-----END CERTIFICATE-----", ""]

/-- The crates on the log and the tokens: a reader of DER that reads these
tokens and the signatures that verify on them. -/
def stamping : Cms where
  toCrates := { L3.Published.crates with loadPemChain := fun s => if s = authorityPem then some [authority] else none }
  sha384 _ := ⟨List.replicate 48 0, rfl⟩
  sha512 _ := ⟨List.replicate 64 0, rfl⟩
  any := readDer
  u8 := element 0x02 fun v => if v.length = 1 then v.head?.map UInt8.toNat else none
  oid b := (readDer b).bind fun q => (readOid q.1).map fun o => (o, q.2)
  algorithm := element 0x30 fun v => (readDer v).bind fun q => readOid q.1
  octets := element 0x04 some
  int := element 0x02 fun _ => some ()
  time := element 0x18 fun v =>
    if v = utf8 "20260101000005Z" then some ⟨1767225605, "2026-01-01T00:00:05Z"⟩ else none
  asOid := readOid
  asOctets a := if a.tag == 0x04 then some a.value else none
  asSignedData a :=
    ([[signer], [signer, authority]].find? fun certs => a == ⟨0x30, signedDataDer certs⟩).map signedData
  contentInfo b := do
    let (outer, _) ← readDer b
    let (contentType, r) ← readDer outer.value
    let (explicit, _) ← readDer r
    let (content, _) ← readDer explicit.value
    return (← readOid contentType, content)
  certificateList _ := false
  attributesDer attrs := if attrs = attributes then some attributesBytes else none
  serialNumber c := if c = signer then [2] else [1]
  spki c := ⟨oidEcPublicKey, some oidPrime256v1, some (if c = signer then signerKey else authorityKey)⟩
  signatureAlgorithm _ := ⟨oidEcdsaSha256, none⟩
  tbsSignature _ := ⟨oidEcdsaSha256, none⟩
  signature c := some (if c = signer then signerSig else authoritySig)
  p256Prehash key sig digest :=
    [(signerKey, stampSig, sha256 attributesBytes), (authorityKey, signerSig, sha256 signerTbs),
      (authorityKey, authoritySig, sha256 authorityTbs)].any fun t =>
        t.1 == key && t.2.1 == sig && t.2.2.val == digest
  p384Prehash _ _ _ := false
  pkcs1v15 _ _ _ _ := false

/-- A timestamp record for the head of the log, displaying the time that its
token attests. -/
def recordOf (token : Bytes) : Value :=
  .object
    [("cert_chain_pem", .string authorityPem), ("checkpoint_body_hash", .string (hex body4Hash.val)),
      ("gen_time", .string "2026-01-01T00:00:05Z"), ("qualified", .bool false),
      ("token_der_b64", .string (b64Encode token)), ("tsa_url", .string "https://tsa.example")]

/-- A bundle of the log with that record, everything else as it was
published. -/
def stamped (entries : List Value) (token : Bytes) : Value :=
  match bundle entries with
  | .object m => .object (m ++ [("tst_records", .array [recordOf token])])
  | v => v

def tokens : List Bytes := [tokenWith [signer], tokenWith [signer, authority]]

theorem tokens_checked : ∀ t ∈ tokens,
    attributesOf stamping t = some attributesBytes ∧ contentOf stamping t = tstInfo ∧
      (crates stamping).parseToken t =
        some ⟨oidSha256, body4Hash.val, ⟨1767225605, "2026-01-01T00:00:05Z"⟩, some signer⟩ := by
  decide +kernel

/-- The log verifies without the record, and its table has the head. Evaluated
once, for both lengths of the listing. -/
theorem log_checked : ∀ es ∈ [[entry0, entry3], [entry0]],
    (verifyBundleFacts (crates stamping) (bundle es) none).ok = true ∧
    ((checkpointFacts (crates stamping) (chainOf (bundle es))).bind fun t => t.lookup (hex body4Hash.val)) =
      some ("2026-01-01T00:00:03Z", 4) ∧
    ∀ t ∈ tokens, withinCaps (crates stamping) (stamped es t) = withinCaps (crates stamping) (bundle es) := by
  decide +kernel

theorem token_verifies {t : Bytes} (ht : t ∈ tokens) :
    L4.Trust.verifiedTst (crates stamping) t (hex body4Hash.val) authorityPem none =
      some (⟨1767225605, "2026-01-01T00:00:05Z"⟩, false) := by
  obtain ⟨-, -, hparse⟩ := tokens_checked t ht
  have hload : (crates stamping).loadPemChain = fun s => if s = authorityPem then some [authority] else none := rfl
  have hpem : (crates stamping).loadPemChain authorityPem = some [authority] := by
    rw [hload]
    exact if_pos rfl
  have hsig : (crates stamping).certSigValid signer authority signerTbs = true := by decide +kernel
  have hwalk : walkChain (crates stamping) signer [authority] none none = true :=
    walkChain_carried rfl rfl List.mem_cons_self rfl rfl rfl hsig
  have htime : genTimeInValidity ⟨1767225605, "2026-01-01T00:00:05Z"⟩ signer = true := by decide
  simp [L4.Trust.verifiedTst, hparse, hpem, hwalk, htime]

theorem tokenOf_recordOf (t : Bytes) : tokenOf (crates stamping) (recordOf t) = some t := by
  have hb64 : (crates stamping).b64Decode (b64Encode t) = some t := reference_b64 known signed receipts t
  have htext : (recordOf t).getStr "token_der_b64" = some (b64Encode t) := rfl
  rw [tokenOf, htext, Option.bind_some, hb64]

theorem stamped_get {es : List Value} {t : Bytes} {k : String} (hk : k ≠ "tst_records") :
    (stamped es t).get k = (bundle es).get k := by
  have hne : (k == "tst_records") = false := beq_eq_false_iff_ne.mpr hk
  simp [stamped, bundle, Value.get, List.lookup_cons, hne]

theorem stamped_ok {es : List Value} {t : Bytes} (hes : es ∈ [[entry0, entry3], [entry0]]) (ht : t ∈ tokens) :
    (verifyBundleFacts (crates stamping) (stamped es t) none).ok = true := by
  obtain ⟨hok, hhead, hcaps⟩ := log_checked es hes
  obtain ⟨checkpoints, htable⟩ := verified_checkpoints hok
  rw [htable.chain, Option.bind_some] at hhead
  rw [reattested_ok ⟨fun k hk _ => stamped_get hk, hcaps t ht⟩ hok htable.chain]
  have htst : (stamped es t).getSome "tst_records" = some (.array [recordOf t]) := rfl
  have hanchors : (stamped es t).getSome "anchor_records" = none := rfl
  have hbound : boundRecordOk (recordOf t) tstRequired "gen_time" checkpoints = true := by
    have hnames : (recordOf t).getStr "checkpoint_body_hash" = some (hex body4Hash.val) := rfl
    have hfields : tstRequired.any (fun f => !Value.hasKey
        [("cert_chain_pem", .string authorityPem), ("checkpoint_body_hash", .string (hex body4Hash.val)),
          ("gen_time", .string "2026-01-01T00:00:05Z"), ("qualified", .bool false),
          ("token_der_b64", .string (b64Encode t)), ("tsa_url", .string "https://tsa.example")] f) = false := rfl
    have hlate : recordNotBeforeCheckpoint (recordOf t) "gen_time" "2026-01-01T00:00:03Z" = true := by
      have htime : (recordOf t).getStr "gen_time" = some "2026-01-01T00:00:05Z" := rfl
      rw [recordNotBeforeCheckpoint, htime]
      decide +kernel
    rw [boundRecordOk, hnames, Option.getD_some, hhead]
    simp [recordOf, Value.asObject, hfields]
    exact hlate
  have hrecord : tstRecord (crates stamping) none (recordOf t) = some (hex body4Hash.val, false) := by
    have hb64 : (crates stamping).b64Decode (b64Encode t) = some t := reference_b64 known signed receipts t
    have htext : (recordOf t).getStr "token_der_b64" = some (b64Encode t) := rfl
    have hnames : (recordOf t).getStr "checkpoint_body_hash" = some (hex body4Hash.val) := rfl
    have hdisplayed : (recordOf t).getStr "gen_time" = some "2026-01-01T00:00:05Z" := rfl
    have hchain : (recordOf t).getStr "cert_chain_pem" = some authorityPem := rfl
    simp [tstRecord, htext, hnames, hdisplayed, hchain, hb64, token_verifies ht]
  have hdigests : [recordOf t].filterMap (fun r => r.getStr "checkpoint_body_hash") = [hex body4Hash.val] := rfl
  have hchecked : checkBoundRecords (.array [recordOf t]) tstRequired "gen_time" checkpoints = true := by
    simp [checkBoundRecords, Value.asArray, hdigests, maxAttestationRecords, hbound]
  have hroots : tsaRootsPem none = none := rfl
  simp [checkAttestationRecords, htst, hanchors, hroots, checkTstRecords, hchecked, Value.asArray, tstLoop, hrecord]

/-- The same signature, in a bundle of two entries and in one of the first: the
tokens differ in the certificates they carry. -/
def late : Value := stamped [entry0, entry3] (tokenWith [signer])

def early : Value := stamped [entry0] (tokenWith [signer, authority])

theorem stamping_attributes : AttributesLaw stamping := by
  intro a b der ha hb
  simp only [stamping, Option.ite_none_right_eq_some] at ha hb
  rw [ha.1, hb.1]

theorem stamping_writerLaws : WriterLaws (crates stamping) := by
  obtain ⟨hquote, hread, hfinite⟩ := reference_writerLaws known signed receipts
  exact ⟨hquote, hread, hfinite⟩

theorem stamping_collisionFree :
    CollisionFree (crates stamping) (viewHashed (crates stamping) late ++ viewHashed (crates stamping) early) := by
  have hview : ∀ b ∈ viewHashed (crates stamping) late ++ viewHashed (crates stamping) early,
      b ∈ known.map Prod.fst := by
    decide +kernel
  exact known_collisionFree.mono hview

theorem stamps_pin_history_published :
    tokenWith [signer] ≠ tokenWith [signer, authority] ∧
    ∃ cp ∈ chainOf late, checkpointBodyHash (crates stamping) cp = some (hex body4Hash.val) ∧
      AgreeBelow (crates stamping) late early (targetSize cp) := by
  have hdiffer : tokenWith [signer] ≠ tokenWith [signer, authority] := by decide +kernel
  obtain ⟨hattrs, hcontent, -⟩ := tokens_checked (tokenWith [signer]) (by simp [tokens])
  obtain ⟨hattrs', hcontent', -⟩ := tokens_checked (tokenWith [signer, authority]) (by simp [tokens])
  have hfree : HashFree stamping
      [contentOf stamping (tokenWith [signer]), contentOf stamping (tokenWith [signer, authority])] := by
    rw [hcontent, hcontent']
    intro a ha b hb
    simp only [List.mem_cons, List.not_mem_nil, or_false, or_self] at ha hb
    exact fun _ _ _ _ => ha.trans hb.symm
  have hlate : (verifyBundleFacts (crates stamping) late none).ok = true := stamped_ok (by simp) (by simp [tokens])
  have hearly : (verifyBundleFacts (crates stamping) early none).ok = true := stamped_ok (by simp) (by simp [tokens])
  have hr : recordOf (tokenWith [signer]) ∈ recordsOf late := List.mem_cons_self
  have hr' : recordOf (tokenWith [signer, authority]) ∈ recordsOf early := List.mem_cons_self
  obtain ⟨-, -, cp, hcp, hhash, hagree⟩ := stamps_pin_history stamping stamping_writerLaws stamping_attributes late
    early none none hlate hearly _ _ hr hr' _ _ (tokenOf_recordOf _) (tokenOf_recordOf _) (hattrs.trans hattrs'.symm)
    hfree stamping_collisionFree
  exact ⟨hdiffer, cp, hcp, hhash, hagree⟩

end

end SwarrmVerify.L5.Stamped
