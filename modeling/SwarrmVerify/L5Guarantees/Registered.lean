import SwarrmVerify.L3KeyLog.Issuers
import SwarrmVerify.L4Certificate.CoreValues
import SwarrmVerify.L5Guarantees.Certified
import SwarrmVerify.L5Guarantees.Echo
import SwarrmVerify.L1Encoding.CborCodec
import SwarrmVerify.L4Certificate.Scitt

/-!
# What a registered action has shown (`certificate.rs`, `scitt.rs`)

A report that says REGISTERED or ELIGIBLE rests on the pack that the core
carries: statement, receipt, checkpoint and policy. Trust enters in one place.
The relying party names the key of the policy, the policy the keys of
checkpoint and receipt, and the embedded log the key of the statement. What the
producer wrote into `scitt_receipt_valid` is overwritten before it is read.

`Shown` lists what a pack proves about its certificate, link by link: the
policy is signed under the named service's key; a key that it lists signed the
checkpoint and the receipt over one body; the statement is signed by a key that
an active issuer of the log created for it and that no entry revokes; its
payload is the digest of this certificate; and it is the leaf at its index in
every tree that has the size and root of the checkpoint.

Nothing is assumed of the core, of the context or of the crates.

**Results.**
* `scittPackValid_shown`: a pack that counts has shown all of it.
* `override_ignores`: the producer's boolean is lost, whatever it was.
* `registered_shown`: for every core, whatever else it carries, and with or
  without a view.

The second part deposits a certificate: a log with its issuer, a service with
its policy, and the envelopes of both, down to the bytes.
-/
namespace SwarrmVerify.L5.Registered
open SwarrmVerify.L1.Jcs SwarrmVerify.L1.CborWire SwarrmVerify.L2.Merkle SwarrmVerify.L3.Receipt SwarrmVerify.L3.Keys
open SwarrmVerify.L3.KeyRun SwarrmVerify.L3.Issuers
open SwarrmVerify.L4.Trust SwarrmVerify.L4.Action SwarrmVerify.L4.Certificate SwarrmVerify.L4.Scitt

/-! ## Evidence -/

section Evidence

variable (X : Crates)

/-- The policy lists the key under this kid. -/
def Listed (policy : Value) (kid : String) (key : Digest) : Prop :=
  ∃ entry ∈ arr policy "ts_keys", ∃ jwk, policyKey X entry = some (jwk, kid, key)

/-- The root signed the policy. -/
def PolicySigned (policy : Value) (root : Digest) : Prop :=
  ∃ members canonical signature, policy = .object members ∧
    canonicalChecked X (unsignedPolicy members) = some canonical ∧
    (policy.getStr "signature").bind (strictB64 X) = some signature ∧ ed25519Verify X root canonical signature = true

/-- The key signed the checkpoint, whose body has this canonical text. -/
def CheckpointSigned (checkpoint : Value) (canonical : Bytes) (kid : String) (key : Digest) : Prop :=
  checkpoint.getStr "kid" = some kid ∧ ∃ signature,
    (checkpoint.getStr "sig").bind (strictB64 X) = some signature ∧
      ed25519Verify X key (L4.Scitt.pae checkpointType canonical) signature = true

/-- The bytes are an envelope of these headers and this payload, and the key
signed it. -/
def EnvelopeSigned (ciborium : Bytes → Option Cbor.Value) (cose : Bytes) (s : Sign1) (key : Digest) : Prop :=
  ∃ data array protectedBytes signature input, cose = 0xd2 :: data ∧
    decodeSlice ciborium data L4.Scitt.maxDepth = some array ∧
    unpack array = some (protectedBytes, s.unprotected, s.payload, signature) ∧
    decodeSlice ciborium protectedBytes L4.Scitt.maxDepth = some s.header ∧ kidOf s.header = some s.kid ∧
    sigStructure protectedBytes s.payload = some input ∧ ed25519Verify X key input signature = true

/-- A key of the log that an active issuer created as a SCITT issuer and that
no entry revokes. -/
def ScittIssuer (entries : List Value) (kid : String) (key : Digest) : Prop :=
  (∃ p c kl s, AppliedAt X (collectKeyEntries X entries).zipIdx p c kl ∧ c.kid = kid ∧ c.material = key ∧
    c.action = "evd.key.created" ∧ c.ctx.getStr "role" = some "scitt-issuer" ∧ IssuerSigned X kl p.1 c.ts s) ∧
  ∀ e ∈ collectKeyEntries X entries, ∀ c, keyClaim X e = some c → c.kid = kid → c.action ≠ "evd.key.revoked"

/-- The leaf of a statement in the service's tree. -/
def statementLeaf (statement : Bytes) : Digest := X.sha256 (0x00 :: (X.sha256 statement).val)

end Evidence

/-- The parts of a pack, decoded. Each is named once, so that the links between
them can be stated. -/
structure Parts where
  pack : Value
  policy : Value
  statement : Bytes
  receipt : Bytes
  checkpoint : Value
  body : Value
  canonical : Bytes
  /-- the place of the statement in the service's tree -/
  index : UInt64
  path : List Digest

/-- The registration of a core as evidence for its certificate, link by link,
from the key that the relying party names to the leaf of the statement. -/
structure Shown (X : Crates) (ciborium : Bytes → Option Cbor.Value) (bundle registration : Value) (id : String)
    (trust : Option Value) (c : Parts) : Prop where
  pack : registration.get "scitt_pack" = some c.pack
  named : c.pack.getStr "certificate_id" = some id
  policy : c.pack.get "registration_policy" = some c.policy
  statement : (c.pack.getStr "signed_statement").bind hexToBytes = some c.statement
  receipt : (c.pack.getStr "receipt").bind hexToBytes = some c.receipt
  checkpoint : c.pack.get "checkpoint" = some c.checkpoint
  body : c.checkpoint.get "body" = some c.body
  canonical : canonicalChecked X c.body = some c.canonical
  /-- the relying party's key of the service signed the policy -/
  trusted : ∃ scope service root, registration.get "scope_registration" = some scope ∧
    scope.getStr "transparency_service" = some service ∧
    (keyFor X trust "scitt_ts_keys" (some service)).bind toDigest = some root ∧ PolicySigned X c.policy root
  signed : ∃ kid key, Listed X c.policy kid key ∧ CheckpointSigned X c.checkpoint c.canonical kid key
  /-- the receipt is over the same body, and holds the path -/
  receipted : ∃ s key, EnvelopeSigned X ciborium c.receipt s key ∧ Listed X c.policy s.kid key ∧
    s.payload = some (X.sha256 c.canonical).val ∧
    ((imap s.unprotected (-2)).bind checkpointBody).map Prod.fst = some c.body ∧
    (inclusion s.unprotected).map Prod.snd = some (c.index, c.path)
  issued : ∃ s key cid, EnvelopeSigned X ciborium c.statement s key ∧ ScittIssuer X (arr bundle "entries") s.kid key ∧
    hexToBytes id = some cid ∧ s.payload = some cid
  included : ∀ D : List Digest, (c.body.getU64 "tree_size").map UInt64.toNat = some D.length →
    (c.body.getStr "root_hash").bind hexToBytes = some (treeHash X D).val →
    CollisionFree X (inclusionInputs X (statementLeaf X c.statement).val c.index (UInt64.ofNat D.length) c.path ++
      treeInputs X D) →
    D[c.index.toNat]? = some (statementLeaf X c.statement)

/-! ## The policy and its keys -/

section Pieces

variable {X : Crates}

theorem insertPolicyKey_cases {keys keys' : Table Digest} {entry carried : Value}
    (h : insertPolicyKey X keys entry carried = some keys') :
    ∃ jwk kid key, policyKey X entry = some (jwk, kid, key) ∧ keys' = keys.insert kid key := by
  simp only [insertPolicyKey, Option.bind_eq_bind, Option.bind_eq_some_iff] at h
  obtain ⟨⟨jwk, kid, key⟩, hkey, h⟩ := h
  split at h
  · exact ⟨jwk, kid, key, hkey, (Option.some.inj h).symm⟩
  · cases h

/-- Every key of the table is that of one of the entries. Entries are inserted
one after the other, and a kid that repeats is refused. -/
theorem insertPolicyKeys_listed {pairs : List (Value × Value)} {keys keys' : Table Digest} {kid : String}
    {key : Digest} (h : pairs.foldlM (fun ks p => insertPolicyKey X ks p.1 p.2) keys = some keys')
    (hk : keys'.lookup kid = some key) :
    keys.lookup kid = some key ∨ ∃ p ∈ pairs, ∃ jwk, policyKey X p.1 = some (jwk, kid, key) := by
  induction pairs generalizing keys with
  | nil =>
    cases h
    exact .inl hk
  | cons p pairs ih =>
    simp only [List.foldlM_cons, Option.bind_eq_bind, Option.bind_eq_some_iff] at h
    obtain ⟨keys₁, hfirst, h⟩ := h
    obtain ⟨jwk, kid₁, key₁, hpolicy, rfl⟩ := insertPolicyKey_cases hfirst
    rcases ih h with hlookup | ⟨q, hq, hrest⟩
    · rcases lookup_insert_cases hlookup with ⟨rfl, rfl⟩ | ⟨_, hlookup⟩
      · exact .inr ⟨p, List.mem_cons_self, jwk, hpolicy⟩
      · exact .inl hlookup
    · exact .inr ⟨q, List.mem_cons_of_mem p hq, hrest⟩

theorem policyTsKeys_listed {policy pack : Value} {keys : Table Digest} {kid : String} {key : Digest}
    (h : policyTsKeys X policy pack = some keys) (hk : keys.lookup kid = some key) : Listed X policy kid key := by
  simp only [policyTsKeys, Option.bind_eq_bind, Option.bind_eq_some_iff] at h
  obtain ⟨entries, hentries, h⟩ := h
  split at h
  · cases h
  · obtain ⟨carried, _, h⟩ := Option.bind_eq_some_iff.mp h
    rcases insertPolicyKeys_listed h hk with hempty | ⟨p, hp, jwk, hpolicy⟩
    · cases hempty
    · refine ⟨p.1, ?_, jwk, hpolicy⟩
      rw [arr, hentries]
      exact (List.of_mem_zip hp).1

theorem policySignatureValid_signed {policy : Value} {root : Digest}
    (h : policySignatureValid X policy (AList.singleton "" root) = true) : PolicySigned X policy root := by
  unfold policySignatureValid at h
  split at h
  · rename_i signature members hsig hobj
    obtain ⟨canonical, hcanonical, hany⟩ := (Option.any_eq_true _ _).mp h
    obtain ⟨r, hr, hverify⟩ := List.any_eq_true.mp hany
    obtain rfl := List.mem_singleton.mp hr
    exact ⟨members, canonical, signature, Value.asObject_eq_some hobj, hcanonical, hsig, hverify⟩
  · cases h

/-- The keys that count are those of the policy, and the root signed it. Without
a named root there are none. -/
theorem verifiedScittPackKeys_policy {pack : Value} {root : Digest} {ss : Bytes} {keys : Table Digest}
    (h : verifiedScittPackKeys X pack (AList.singleton "" root) ss = some keys) :
    ∃ policy, pack.get "registration_policy" = some policy ∧ PolicySigned X policy root ∧
      ∀ kid key, keys.lookup kid = some key → Listed X policy kid key := by
  simp only [verifiedScittPackKeys, Option.bind_eq_bind, Option.bind_eq_some_iff] at h
  obtain ⟨object, hobject, h⟩ := h
  split at h
  · cases h
  · obtain ⟨policy, hpolicy, h⟩ := Option.bind_eq_some_iff.mp h
    split at h
    · cases h
    · rename_i hvalid
      simp only [Bool.not_eq_true', Bool.not_eq_false, Bool.and_eq_true] at hvalid
      simp only [Option.bind_eq_some_iff] at h
      obtain ⟨keys', hkeys, origin, _, checkpoint, _, h⟩ := h
      split at h
      · cases h
        have hmembers : pack = .object object := by
          simp only [objectFields, Option.bind_eq_bind, Option.bind_eq_some_iff] at hobject
          obtain ⟨members, hmembers, h⟩ := hobject
          split at h
          · cases h
            exact Value.asObject_eq_some hmembers
          · cases h
        exact ⟨policy, by rw [hmembers]; exact hpolicy, policySignatureValid_signed hvalid.2,
          fun kid key hk => policyTsKeys_listed hkeys hk⟩
      · cases h

/-! ## Envelopes and checkpoints -/

/-- An envelope that verifies is of the profile that is asked for, and a key of
the table signed its protected header and its payload. -/
theorem verifySign1_signed {ciborium : Bytes → Option Cbor.Value} {cose : Bytes} {keys : Table Digest} {s : Sign1}
    (h : verifySign1 X ciborium cose keys L4.Scitt.maxBytes L4.Scitt.maxDepth = some s) :
    ∃ key, keys.lookup s.kid = some key ∧ EnvelopeSigned X ciborium cose s key := by
  unfold verifySign1 at h
  split at h
  · cases h
  · rename_i htag
    simp only [Bool.or_eq_true, not_or, bne_iff_ne, ne_eq, not_not] at htag
    simp only [Option.bind_eq_bind, Option.bind_eq_some_iff, Prod.exists] at h
    obtain ⟨array, harray, protectedBytes, unprotected, payload, signature, hunpack, header, hheader, kid, hkid, key,
      hkey, input, hinput, h⟩ := h
    split at h
    · cases h
    · rename_i hverify
      cases h
      obtain ⟨data, rfl⟩ : ∃ data, cose = 0xd2 :: data := List.head?_eq_some_iff.mp htag.2
      exact ⟨key, hkey, data, array, protectedBytes, signature, input, rfl, harray, hunpack, hheader, hkid, hinput,
        by simpa using hverify⟩

theorem verifySignedCheckpoint_signed {checkpoint body : Value} {keys : Table Digest} {origin : Option String}
    {canonical : Bytes} (h : verifySignedCheckpoint X checkpoint keys origin = true)
    (hbody : checkpoint.get "body" = some body) (hcanonical : canonicalChecked X body = some canonical) :
    ∃ kid key, keys.lookup kid = some key ∧ CheckpointSigned X checkpoint canonical kid key := by
  unfold verifySignedCheckpoint at h
  split at h
  · cases h
  · split at h
    · cases h
    · rename_i body' hbody'
      obtain ⟨hget, _⟩ := Option.filter_eq_some_iff.mp hbody'
      cases hbody.symm.trans hget
      split at h
      · cases h
      · split at h
        · rename_i key signature canonical' hkey hsig hcanonical'
          cases hcanonical.symm.trans hcanonical'
          obtain ⟨kid, hkid, hlookup⟩ := Option.bind_eq_some_iff.mp hkey
          exact ⟨kid, key, hlookup, hkid, signature, hsig, h⟩
        · cases h

/-- The rebuilt body holds the root and the size that are returned, and no
float, so its canonical text determines it. -/
theorem checkpointBody_reads {b : Cbor.Value} {body : Value} {rootHex : String} {size : UInt64}
    (h : checkpointBody b = some (body, rootHex, size)) :
    body.getStr "root_hash" = some rootHex ∧ body.getU64 "tree_size" = some size ∧ floatless body = true := by
  simp only [checkpointBody, Option.bind_eq_bind, Option.bind_eq_some_iff] at h
  obtain ⟨algorithm, _, schema, _, h⟩ := h
  by_cases hguard : (schema != checkpointSchema || mapLen b != some (6 + if algorithm.isSome then 1 else 0)) = true
  · rw [if_pos hguard] at h
    cases h
  · rw [if_neg hguard] at h
    simp only [Option.bind_eq_some_iff, Option.pure_def, Option.some.injEq, Prod.mk.injEq] at h
    obtain ⟨root, _, size', _, origin, _, ts, _, prev, _, rfl, rfl, rfl⟩ := h
    cases algorithm with
    | none => exact ⟨rfl, rfl, rfl⟩
    | some a => exact ⟨rfl, rfl, rfl⟩

/-- Receipt and checkpoint are over one body: the receipt's payload is its
hash. -/
theorem receiptCheckpoint_agrees {s : Sign1} {keys : Table Digest} {outer : Value} {root : Bytes} {size : UInt64}
    (h : receiptCheckpoint X s keys (some outer) = some (root, size)) :
    ∃ body canonical, outer.get "body" = some body ∧ canonicalChecked X body = some canonical ∧
      s.payload = some (X.sha256 canonical).val ∧
      ((imap s.unprotected (-2)).bind checkpointBody).map Prod.fst = some body ∧
      (body.getStr "root_hash").bind hexToBytes = some root ∧ body.getU64 "tree_size" = some size ∧
      verifySignedCheckpoint X outer keys none = true := by
  simp only [receiptCheckpoint, Option.bind_eq_bind, Option.bind_eq_some_iff, Prod.exists] at h
  obtain ⟨inner, bodyHash, root', size', hcheckpoint, h⟩ := h
  simp only [checkpoint, Option.bind_eq_bind, Option.bind_eq_some_iff, Prod.exists, Option.pure_def, Option.some.injEq,
    Prod.mk.injEq] at hcheckpoint
  obtain ⟨b, hb, body, rootHex, size, hbody, canonical, hcanonical, root, hroot, rfl, rfl, rfl, rfl⟩ := hcheckpoint
  obtain ⟨hrootHex, hsize, hfloat⟩ := checkpointBody_reads hbody
  split at h
  · cases h
  · rename_i hpayload
    simp only [bne_iff_ne, ne_eq, not_not] at hpayload
    split at h
    · rename_i hagree
      cases h
      rw [Bool.and_eq_true] at hagree
      obtain ⟨p, hp, hhash⟩ := Option.map_eq_some_iff.mp hpayload
      have houter : outer.get "body" = some body := by
        cases hget : outer.get "body" with
        | none => rw [hget] at hagree; cases hagree.1
        | some o =>
          rw [hget, Value.eqvOpt, Value.eqv_comm] at hagree
          rw [eqv_eq hfloat hagree.1]
      refine ⟨body, canonical, houter, hcanonical, by rw [hp, hex_inj hhash], ?_, ?_, hsize, hagree.2⟩
      · rw [hb, Option.bind_some, hbody, Option.map_some]
      · rw [hrootHex, Option.bind_some, hroot]
    · cases h

/-! ## Issuers -/

/-- An introduced key stays in the log. -/
theorem introduced_key {entries : List Value} {p : KeyEntry × Nat} {c : KeyClaim} {kl : KeyLog}
    (hok : (replayKeyLog X entries).ok = true) (h : AppliedAt X (collectKeyEntries X entries).zipIdx p c kl)
    (hi : Introduces c) : (replayKeyLog X entries).keys.lookup c.kid = some c.material := by
  obtain ⟨_, fin, hrun, he⟩ := replayKeyLog_ok hok
  obtain ⟨⟨pre, post, hsplit, hpre⟩, hclaim⟩ := h
  rw [hsplit] at hrun
  obtain ⟨kl', hkl', hrest⟩ := Replay.run_append.mp hrun
  cases hpre.symm.trans hkl'
  obtain ⟨kl₁, hstep, hrest⟩ := Replay.run_cons.mp hrest
  obtain ⟨c', hc', _, ht⟩ := applyKeyEntry_cases hstep
  cases hclaim.symm.trans hc'
  have hsame := (explained_run hpre).sameKeys
  have hkey : kl₁.keys.lookup c.kid = some c.material := by
    cases ht with
    | created => exact AList.lookup_insert _
    | rotated => exact AList.lookup_insert _
    | revoked _ _ ha => rcases hi with hi | hi <;> rw [hi] at ha <;> exact absurd ha (by decide)
  rw [he]
  exact (grows_run (step_sameKeys hsame ht) hrest).keys _ _ hkey

/-- A key that may sign statements: the log created it as a SCITT issuer, by an
active issuer, and no entry revokes it. -/
theorem authorizedKeys_issuer {bundle : Value} {kid : String} {key : Digest}
    (h : (kid, key) ∈ authorizedKeys X bundle true) : ScittIssuer X (arr bundle "entries") kid key := by
  unfold authorizedKeys at h
  dsimp only at h
  split at h
  · cases h
  · rename_i hok
    have hok : (replayKeyLog X (arr bundle "entries")).ok = true := by simpa using hok
    obtain ⟨k, hk, heq⟩ := List.mem_map.mp h
    cases heq
    obtain ⟨hmem, hheld⟩ := List.mem_filter.mp hk
    obtain ⟨st, hst, hheld⟩ := (Option.any_eq_true _ _).mp hheld
    simp only [if_true, Bool.and_eq_true, Option.isNone_iff_eq_none] at hheld
    obtain ⟨hlive, hscitt⟩ := hheld
    have hlookup : (replayKeyLog X (arr bundle "entries")).keys.lookup k.1 = some k.2 := AList.mem_lookup_iff.mpr hmem
    refine ⟨?_, fun e he c hc hkid hrev => ?_⟩
    · obtain ⟨p, c, kl, s, hat, hkid, hact, hrole, hsig⟩ :=
        ((issuer_pedigree X _ hok).2.1 k.1 st hst).2 hscitt
      have hmaterial := introduced_key hok hat (.inl hact)
      rw [hkid, hlookup, Option.some.injEq] at hmaterial
      exact ⟨p, c, kl, s, hat, hkid, hmaterial.symm, hact, hrole, hsig⟩
    · -- a revocation would show in the state
      obtain ⟨_, fin, hrun, hfin⟩ := replayKeyLog_ok hok
      obtain ⟨i, hi⟩ := List.mem_iff_getElem?.mp he
      obtain ⟨st', eff, hst', hrevoked, _⟩ := (explained_run hrun).revokes (e, i)
        (List.mk_mem_zipIdx_iff_getElem?.mpr hi) c hc hrev
      rw [hfin] at hst
      rw [hkid] at hst'
      cases hst.symm.trans hst'
      rw [hlive] at hrevoked
      cases hrevoked

end Pieces

/-! ## The pack -/

section Pack

variable {X : Crates} {ciborium : Bytes → Option Cbor.Value}

/-- What receipt and statement show once the receipt counts. -/
theorem verifyScittReceipt_shown {statement receipt : Bytes} {tsKeys issuerKeys : Table Digest} {id : String}
    {outer : Value}
    (h : verifyScittReceiptWithCheckpoint X ciborium statement receipt tsKeys issuerKeys id outer = true) :
    ∃ s r cid root size index path, hexToBytes id = some cid ∧
      verifySign1 X ciborium statement issuerKeys L4.Scitt.maxBytes L4.Scitt.maxDepth = some s ∧ s.payload = some cid ∧
      verifySign1 X ciborium receipt tsKeys L4.Scitt.maxBytes L4.Scitt.maxDepth = some r ∧
      receiptCheckpoint X r tsKeys (some outer) = some (root, size) ∧
      inclusion r.unprotected = some (size, index, path) ∧
      verifyInclusion X (statementLeaf X statement).val index size path root = true := by
  unfold verifyScittReceiptWithCheckpoint verifyScittReceiptInner at h
  split at h
  · cases h
  · split at h
    · rename_i cid s hcid hs
      split at h
      · cases h
      · rename_i hprofile
        split at h
        · cases h
        · rename_i r hr
          split at h
          · cases h
          · split at h
            · rename_i root checkpointSize size index path hcheckpoint hinclusion
              split at h
              · cases h
              · rename_i hsize
                simp only [Bool.or_eq_true, bne_iff_ne, ne_eq, decide_eq_true_eq, not_or, not_not] at hsize
                obtain ⟨rfl, _⟩ := hsize
                have hpayload : s.payload = some cid := by
                  by_contra hne
                  rw [statementProfile, if_pos (by simp [hne])] at hprofile
                  exact hprofile rfl
                exact ⟨s, r, cid, root, size, index, path, hcid, hs, hpayload, hr, hcheckpoint, hinclusion, h⟩
            · cases h
    · cases h

/-- The statement stands at its index in every tree of the checkpoint, whatever
the service shows of the tree otherwise. -/
theorem statement_included {body : Value} {statement root : Bytes} {index size : UInt64} {path : List Digest}
    (hroot : (body.getStr "root_hash").bind hexToBytes = some root) (hsize : body.getU64 "tree_size" = some size)
    (h : verifyInclusion X (statementLeaf X statement).val index size path root = true) (D : List Digest)
    (hlen : (body.getU64 "tree_size").map UInt64.toNat = some D.length)
    (hD : (body.getStr "root_hash").bind hexToBytes = some (treeHash X D).val)
    (hc : CollisionFree X (inclusionInputs X (statementLeaf X statement).val index (UInt64.ofNat D.length) path ++
      treeInputs X D)) : D[index.toNat]? = some (statementLeaf X statement) := by
  rw [hsize, Option.map_some, Option.some.injEq] at hlen
  rw [hroot, Option.some.injEq] at hD
  have hn : D.length < 2 ^ 64 := by
    rw [← hlen]
    exact size.toNat_lt
  have hofNat : size = UInt64.ofNat D.length := by rw [← hlen, UInt64.ofNat_toNat]
  rw [hD, hofNat] at h
  obtain ⟨_, hget, _⟩ := inclusion_sound X D hn index _ path hc h
  obtain ⟨d, hd, hval⟩ := Option.map_eq_some_iff.mp hget
  rw [hd, Subtype.ext hval]

/-- Only a named service has a key. -/
theorem keyFor_named {registration : Value} {trust : Option Value} {category : String} {root : Digest}
    (h : (keyFor X trust category ((registration.get "scope_registration").bind fun scope =>
      scope.getStr "transparency_service")).bind toDigest = some root) :
    ∃ scope service, registration.get "scope_registration" = some scope ∧
      scope.getStr "transparency_service" = some service := by
  obtain ⟨material, hmaterial, _⟩ := Option.bind_eq_some_iff.mp h
  unfold keyFor at hmaterial
  split at hmaterial
  · cases hmaterial
  · simp only [Option.bind_eq_bind, Option.bind_eq_some_iff] at hmaterial
    obtain ⟨_, _, _, _, _, _, service, ⟨scope, hscope, hservice⟩, _⟩ := hmaterial
    exact ⟨scope, service, hscope, hservice⟩

theorem mem_of_lookup_toAList {l : List (String × Digest)} {kid : String} {key : Digest}
    (h : ((l.map fun k => (⟨k.1, k.2⟩ : (_ : String) × Digest)).toAList).lookup kid = some key) : (kid, key) ∈ l := by
  rw [AList.lookup_to_alist] at h
  obtain ⟨k, hk, heq⟩ := List.mem_map.mp (List.of_mem_dlookup h)
  cases heq
  exact hk

/-- A pack that counts has shown all of it. -/
theorem scittPackValid_shown {E : Engine} {pack registration bundle : Value} {id : String} {trust : Option Value}
    (hpack : registration.get "scitt_pack" = some pack)
    (h : scittPackValid (verifier E ciborium) pack id bundle
      ((keyFor E.toCrates trust "scitt_ts_keys" ((registration.get "scope_registration").bind
        fun scope => scope.getStr "transparency_service")).bind toDigest) = true) :
    ∃ c, Shown E.toCrates ciborium bundle registration id trust c := by
  unfold scittPackValid at h
  split at h
  · rename_i root statement receipt outer hroot hstatement hreceipt houter
    obtain ⟨tsKeys, htsKeys, h⟩ := (Option.any_eq_true _ _).mp h
    rw [Bool.and_eq_true, beq_iff_eq] at h
    obtain ⟨hnamed, h⟩ := h
    obtain ⟨policy, hpolicy, hsigned, hlisted⟩ := verifiedScittPackKeys_policy htsKeys
    obtain ⟨s, r, cid, rootBytes, size, index, path, hcid, hs, hpayload, hr, hcheckpoint, hinclusion, hincluded⟩ :=
      verifyScittReceipt_shown h
    obtain ⟨body, canonical, hbody, hcanonical, hhash, hinner, hrootHash, hsize, hverified⟩ :=
      receiptCheckpoint_agrees hcheckpoint
    obtain ⟨kid, key, hkey, hcheckpointSigned⟩ := verifySignedCheckpoint_signed hverified hbody hcanonical
    obtain ⟨rkey, hrkey, hreceiptSigned⟩ := verifySign1_signed hr
    obtain ⟨skey, hskey, hstatementSigned⟩ := verifySign1_signed hs
    refine ⟨⟨pack, policy, statement, receipt, outer, body, canonical, index, path⟩, ?_⟩
    exact {
      pack := hpack, named := hnamed, policy := hpolicy, statement := hstatement, receipt := hreceipt
      checkpoint := houter, body := hbody, canonical := hcanonical
      trusted := by
        obtain ⟨scope, service, hscope, hservice⟩ := keyFor_named hroot
        rw [hscope, Option.bind_some, hservice] at hroot
        exact ⟨scope, service, root, hscope, hservice, hroot, hsigned⟩
      signed := ⟨kid, key, hlisted kid key hkey, hcheckpointSigned⟩
      receipted := ⟨r, rkey, hreceiptSigned, hlisted _ _ hrkey, hhash, hinner, by rw [hinclusion, Option.map_some]⟩
      issued := ⟨s, skey, cid, hstatementSigned, authorizedKeys_issuer (mem_of_lookup_toAList hskey), hcid, hpayload⟩
      included := statement_included hrootHash hsize hincluded }
  · cases h

end Pack

/-! ## The report -/

section Report

variable {V : Verifier} {vi : Value} {id : String} {bundle : Value} {trust : Option Value}

/-- A pack with all its parts. -/
theorem scittPackValid_carried {pack checkpoint : Value} {root : Digest} {ss rc : Bytes}
    (hss : (pack.getStr "signed_statement").bind hexToBytes = some ss)
    (hrc : (pack.getStr "receipt").bind hexToBytes = some rc) (hcheckpoint : pack.get "checkpoint" = some checkpoint)
    (hnamed : pack.getStr "certificate_id" = some id) :
    scittPackValid V pack id bundle (some root) = (V.scittPackKeys pack root ss).any fun tsKeys =>
      V.scittReceipt ss rc tsKeys ((authorizedKeys V.toCrates bundle true).map fun k => ⟨k.1, k.2⟩).toAList id
        checkpoint := by
  unfold scittPackValid
  rw [hss, hrc, hcheckpoint]
  simp only [hnamed, beq_self_eq_true, Bool.true_and]

/-- After the override the flag says whether the pack counts, and nothing that
the producer wrote. -/
theorem override_flag (h : flag ((applyScittOverride V vi id bundle trust).index "registration")
      "scitt_receipt_valid" = true) :
    ∃ registration pack, vi.get "registration" = some registration ∧ registration.get "scitt_pack" = some pack ∧
      scittPackValid V pack id bundle ((keyFor V.toCrates trust "scitt_ts_keys"
        ((registration.get "scope_registration").bind fun scope => scope.getStr "transparency_service")).bind
          toDigest) = true := by
  unfold applyScittOverride at h
  split at h
  · rename_i hnone
    -- a flag is a member of an object
    have hobject : (vi.index "registration").isObject = true := by
      cases hr : vi.index "registration" with
      | object m => rfl
      | _ => rw [hr] at h; cases h
    cases hget : vi.get "registration" with
    | none => rw [Value.index, hget] at hobject; cases hobject
    | some r =>
      rw [Value.index, hget, Option.getD_some] at hobject
      rw [obj, hget, Option.filter_some, if_pos hobject] at hnone
      cases hnone
  · rename_i registration hregistration
    dsimp only at h
    rw [Value.index, get_setIndex_self, Option.getD_some, flag, get_setIndex_self, Option.bind_some] at h
    obtain ⟨pack, hpack, hvalid⟩ := (Option.any_eq_true _ _).mp (show Option.any _ _ = true from h)
    exact ⟨registration, pack, (Option.filter_eq_some_iff.mp hregistration).1, (Option.filter_eq_some_iff.mp hpack).1,
      hvalid⟩

theorem setMember_setMember (m : List (String × Value)) (k : String) (x y : Value) :
    setMember (setMember m k x) k y = setMember m k y := by
  induction m with
  | nil => simp [setMember]
  | cons p m ih =>
    obtain ⟨j, w⟩ := p
    by_cases hkj : k = j
    · rw [setMember, if_pos hkj, setMember, if_pos rfl, setMember, if_pos hkj]
    · by_cases hlt : k < j
      · rw [setMember, if_neg hkj, if_pos hlt, setMember, if_pos rfl, setMember, if_neg hkj, if_pos hlt]
      · rw [setMember, if_neg hkj, if_neg hlt, setMember, if_neg hkj, if_neg hlt, ih, setMember, if_neg hkj, if_neg hlt]

theorem setIndex_setIndex (v : Value) (k : String) (x y : Value) :
    setIndex (setIndex v k x) k y = setIndex v k y := by
  cases v <;> simp [setIndex, setMember_setMember, setMember]

/-- Whatever the producer wrote there, the input is the same. -/
theorem override_ignores {registration : Value} (h : obj vi "registration" = some registration) (b : Value) :
    applyScittOverride V (setIndex vi "registration" (setIndex registration "scitt_receipt_valid" b)) id bundle trust =
      applyScittOverride V vi id bundle trust := by
  have hobj : obj (setIndex vi "registration" (setIndex registration "scitt_receipt_valid" b)) "registration" =
      some (setIndex registration "scitt_receipt_valid" b) := by
    rw [obj, get_setIndex_self]
    cases registration <;> rfl
  unfold applyScittOverride
  rw [hobj, h]
  dsimp only
  rw [get_setIndex_ne registration (by decide), obj, get_setIndex_ne registration (by decide), setIndex_setIndex,
    setIndex_setIndex]
  rfl

/-- Both values rest on the flag: an action is eligible only if it is
registered. -/
theorem derived_flag {E : Engine} {v : VerdictVector} (hd : Derived E vi trust v)
    (h : v.registrationStatus = .registered ∨ v.technicalEligibility = .eligible) :
    flag (vi.index "registration") "scitt_receipt_valid" = true := by
  rcases h with hr | he
  · rw [hd.registration, registrationStatus] at hr
    split at hr
    · rename_i hall
      simp only [Bool.and_eq_true] at hall
      exact hall.1.2
    · split at hr <;> cases hr
  · have helig := hd.eligibility
    rw [he, eligibility] at helig
    obtain ⟨ws, _, helig⟩ := Option.map_eq_some_iff.mp helig
    split at helig
    · cases helig
    · split at helig
      · rename_i hall
        simp only [eligible, Bool.and_eq_true] at hall
        exact hall.2
      · cases helig

end Report

/-- **Registered means registered.** A core whose registration is reported as
REGISTERED, or its action as ELIGIBLE, carries a pack that has shown all of
`Shown`; without such a pack neither is reported, whatever the core says. -/
theorem registered_shown (E : Engine) (ciborium : Bytes → Option Cbor.Value) (id : String) (core : Cbor.Value)
    (view : Option Cbor.Value) (trust : Option Value) (v : VerdictVector)
    (hv : (verifyCore (verifier E ciborium) id core view trust).vector = some v)
    (h : v.registrationStatus = .registered ∨ v.technicalEligibility = .eligible) :
    ∃ j registration c, gatedCore core = .ok j ∧ (j.index "verdict_input").get "registration" = some registration ∧
      Shown E.toCrates ciborium (j.index "bundle") registration id trust c := by
  obtain ⟨j, hj, rfl⟩ := Certified.verifyCore_vector hv
  rcases deriveVector_derived E (derivedInput (verifier E ciborium) id j view trust) trust with hd | ⟨-, hw⟩
  · obtain ⟨registration, pack, hregistration, hpack, hvalid⟩ := override_flag (derived_flag hd h)
    rw [Certified.invalidated_get (by decide), Certified.withView_get (by decide)] at hregistration
    obtain ⟨c, hc⟩ := scittPackValid_shown hpack hvalid
    exact ⟨j, registration, c, hj, hregistration, hc⟩
  · -- the vector of an input that raises says neither
    have hvector : deriveVectorWithTrust (verifier E ciborium).toEngine
        (derivedInput (verifier E ciborium) id j view trust) trust = weakVector E := hw
    rw [hvector, weakVector_eq] at h
    rcases h with h | h <;> cases h

end SwarrmVerify.L5.Registered

/-! ## A deposited certificate

The deputy of the published log is created as a SCITT issuer and signs a
statement about a certificate; a transparency service, the third test key of
RFC 8032, puts it at leaf 1 of a tree of two, and signs the receipt, the
checkpoint, its policy and the registration of the scope. The signatures and
digests are genuine. -/

namespace SwarrmVerify.L4.Deposited
open Sha256 SwarrmVerify.L1.Jcs SwarrmVerify.L1.CborWire SwarrmVerify.L1.Reference SwarrmVerify.L3.Receipt
open SwarrmVerify.L3.Published SwarrmVerify.L4.Action SwarrmVerify.L4.Certificate SwarrmVerify.L4.Scitt

/-! ### Making envelopes -/

/-- The canonical bytes of a value, whose maps have integer keys. -/
def packed (v : Cbor.Value) : Bytes := (canonicalBytes v Scitt.maxDepth coseProfile).getD []

/-- A COSE_Sign1 envelope. -/
def sealed (header unprotected : List (Cbor.Value × Cbor.Value)) (payload sig : Bytes) : Bytes :=
  0xd2 :: packed (.array [.bytes (packed (.map header)), .map unprotected, .bytes payload, .bytes sig])

/-- What its signature covers. -/
def sealedInput (header : List (Cbor.Value × Cbor.Value)) (payload : Bytes) : Bytes :=
  (sigStructure (packed (.map header)) (some payload)).getD []

/-! ### The statement -/

def issuerCreatedSig : Bytes :=
  bytesBE 64 0xc383ca1990496339323dab1a32d63fcdb90c2b4cd6422b670e41c59df2173842f0f185054b785ab0d2f91be19cdef9eda3001a03bb43ca6935f623bf1055e80d

def issuerCreated : Value :=
  body "_system" "evd.key.created" "k2" 2 "2026-01-01T00:00:01Z" (.object [])
    (.object [("effective_ts", .string "2026-01-01T00:00:01Z"), ("jwk", deputyJwk), ("role", .string "scitt-issuer")])

def log : Value :=
  .object [("entries", .array [entry 0 (envelope genesisCreated genesisKid genesisCreatedSig) [],
    entry 1 (envelope issuerCreated genesisKid issuerCreatedSig) []])]

def certificate : Digest := digestOf 0x81acd762140fa692a142822d2fbe4dc6f54bcaa501f68ab37e5aeed0bafe4d99
def statementSig : Bytes :=
  bytesBE 64 0x6bc45234b065acf5f9dc94b210814206b3b345ccd5aa9b7eda07acf9e8a58b8b5689ba8334af7623af97f65f776410701d0ad73c54f93524a65cc33fe4f92905

def statementHeader : List (Cbor.Value × Cbor.Value) :=
  [(.integer 1, .integer (-8)), (.integer 3, .text statementCty), (.integer 4, .bytes (utf8 deputyKid)),
    (.integer 15, .map [(.integer 1, .text "acme"), (.integer 2, .text (hex certificate.val))])]

def statement : Bytes := sealed statementHeader [] certificate.val statementSig

/-! ### The service -/

def service : Digest := digestOf 0xfc51cd8e6218a1a38da47ed00230f0580816ed13ba3303ac5deb911548908025
def serviceKid : String := "2sBz4BI73qWd2bO9"

def statementHash : Digest := digestOf 0x7ed1cb86ddc137f9fd92b397fa1c595c3d02eefe164311ec28b74b96d2c21d9d
def statementLeaf : Digest := digestOf 0x122bfa4487562d242a37a3e93dd13b1dcc2348db5bbb90d0e1460931ee754c77
def otherLeaf : Digest := digestOf 0x39f1393034806d3c38653a8e34a7d92171f649d7bb7e3d69d22229d94d5a8c0e
def serviceRoot : Digest := digestOf 0x1f08fce861bc38a272384307468ccb0701c78f4df54a2eedcf346cf63406cae0
def serviceBodyHash : Digest := digestOf 0x95c3711246d7a3bd5e751089eeb7efc1fb8f61989f45e0ec9bd0284e6e524c23

def serviceBodySig : Bytes :=
  bytesBE 64 0xf32899bf82027807bacb55b1f74af592f2134d8c3287b044f39e76fe21feecb46586c5e1d8526ac1f4f4e806c00c47cd95c3349f3b55fdc3d4dd53137c0d950d
def receiptSig : Bytes :=
  bytesBE 64 0xec3e18f845b60e12ada87285917556cdd97e8ea9f836cb4e17baf23c0bb00848597172786a51ed96329b41d30bb8a0209481af42296b135d45ca77fa14e11702
def policySig : Bytes :=
  bytesBE 64 0xeaa6e9022c6f0cabbfddb23c180533270e42bd706179f06629a06f683c61d49cfc738e7ddaab55bf7d0b2a436b60506151f44d4be844057043152ad4bb436105
def scopeSig : Bytes :=
  bytesBE 64 0xd7328fcc250495d25fbf6586e8436a7f420a60c564993809ebfe4d58e33e3f5de4fc529bc940659aafc93a0be23325b948ce7f283f8d34edab7a57048adcc004

def serviceBody : Value :=
  .object [("origin", .string "evd://ts.example"), ("prev_hash", .string ""),
    ("root_hash", .string (hex serviceRoot.val)), ("schema", .string checkpointSchema),
    ("tree_size", .number (.posInt 2)), ("ts", .string "2026-01-02T00:00:00Z")]

def receiptHeader : List (Cbor.Value × Cbor.Value) :=
  [(.integer 1, .integer (-8)), (.integer 4, .bytes (utf8 serviceKid)), (.integer 395, .integer 1)]

/-- The inclusion proof and the checkpoint's body. -/
def receiptUnprotected : List (Cbor.Value × Cbor.Value) :=
  [(.integer 396, .map [(.integer (-1), .array [.integer 2, .integer 1, .array [.bytes otherLeaf.val]])]),
    (.integer (-2), .map [(.text "origin", .text "evd://ts.example"), (.text "prev_hash", .text ""),
      (.text "root_hash", .text (hex serviceRoot.val)), (.text "schema", .text checkpointSchema),
      (.text "tree_size", .integer 2), (.text "ts", .text "2026-01-02T00:00:00Z")])]

def receipt : Bytes := sealed receiptHeader receiptUnprotected serviceBodyHash.val receiptSig

def serviceJwk : Value :=
  .object [("alg", .string "EdDSA"), ("crv", .string "Ed25519"), ("kid", .string serviceKid), ("kty", .string "OKP"),
    ("use", .string "sig"), ("x", .string (b64urlEncode service.val))]

def terms : List (String × Value) :=
  [("accepted_profiles", .array [.string policyProfile]), ("max_statement_bytes", .number (.posInt 4096)),
    ("policy_version", .string "1"), ("schema", .string policySchema),
    ("ts_keys", .array [.object [("jwk", serviceJwk), ("kid", .string serviceKid)]]),
    ("ts_origin", .string "evd://ts.example")]

def pack : Value :=
  .object [("certificate_id", .string (hex certificate.val)), ("checkpoint", checkpoint serviceBody serviceKid serviceBodySig),
    ("receipt", .string (hex receipt)),
    ("registration_policy", setIndex (.object terms) "signature" (.string (b64Encode policySig))),
    ("schema", .string packSchema), ("signed_statement", .string (hex statement)),
    ("ts_jwks", .object [("keys", .array [serviceJwk])])]

def scope : List (String × Value) :=
  [("covers_scope", .bool true), ("registration", .object []), ("term_valid", .bool true),
    ("transparency_service", .string "ts.example")]

def registration : Value :=
  .object [("scitt_pack", pack), ("scope_registration", setIndex (.object scope) "signature" (.string (hex scopeSig)))]

/-- The core, as JSON. -/
def document : Value :=
  .object [("bundle", log), ("coverage_doc", .object []), ("event_matches", .array []), ("events", .array []),
    ("limitations", .array []), ("open_findings", .array []), ("proof_digests", .array []),
    ("schema", .string coreSchema), ("subject", .object []),
    ("verdict_input", .object [("registration", registration)])]

/-- A relying party that names the service. -/
def trust : Option Value :=
  some (.object [("scitt_ts_keys", .object [("ts.example", .string (hex service.val))])])

/-! ### The verifier -/

/-- What a verifier of the certificate hashes, and the digests. -/
def known : List (Bytes × Digest) :=
  [(statement, statementHash), (0x00 :: statementHash.val, statementLeaf),
    (0x01 :: (otherLeaf.val ++ statementLeaf.val), serviceRoot), (text serviceBody, serviceBodyHash),
    (genesis.val, digestOf 0x21fe31dfa154a261626bf854046fd2271b7bed4b6abe45aa58877ef47f9721b9),
    (deputy.val, digestOf 0x39f713d0a644253f04529421b9f51b9b08979d08295959c4f3990ee617f5139f),
    (service.val, digestOf 0xdac073e0123bdea59dd9b3bda9cf6037f63aca82627d7abcd5c4ac29dd74003e)]

def signed : List Signed :=
  [⟨genesis, L3.Receipt.pae receiptType (text genesisCreated), genesisCreatedSig⟩,
    ⟨genesis, L3.Receipt.pae receiptType (text issuerCreated), issuerCreatedSig⟩,
    ⟨deputy, sealedInput statementHeader certificate.val, statementSig⟩,
    ⟨service, sealedInput receiptHeader serviceBodyHash.val, receiptSig⟩,
    ⟨service, Scitt.pae checkpointType (text serviceBody), serviceBodySig⟩,
    ⟨service, text (.object terms), policySig⟩,
    ⟨service, utf8 "evd/v1/scope-registration" ++ 0 :: text (.object scope), scopeSig⟩]

def crates : Crates := reference known signed [genesisCreated, issuerCreated]

/-- The digests are genuine. -/
theorem crates_sha256 : crates.sha256 = sha256 := by
  have h : ∀ p ∈ known, sha256 p.1 = p.2 := by
    simp only [known, List.forall_mem_cons, List.not_mem_nil, false_imp_iff, implies_true, and_true]
    refine ⟨?_, ?_, ?_, ?_, ?_, ?_, ?_⟩ <;> exact sha256_of_window (by decide +kernel)
  exact reference_sha256 known signed _ h

def engine : Engine := referenceEngine crates

/-- A verifier that looks at this certificate. -/
def checker : Verifier := verifier engine fromReader

/-! ### What the verifier finds -/

theorem log_issuers : authorizedKeys checker.toCrates log true = [(deputyKid, deputy)] := by decide +kernel

/-- The policy's key is the service's, and receipt and statement verify. -/
theorem pack_checked : ((checker.scittPackKeys pack service statement).any fun keys =>
    checker.scittReceipt statement receipt keys
      ([(deputyKid, deputy)].map fun k => (⟨k.1, k.2⟩ : (_ : String) × Digest)).toAList (hex certificate.val)
      (checkpoint serviceBody serviceKid serviceBodySig)) = true := by
  decide +kernel

end SwarrmVerify.L4.Deposited

/-! ## Its registration -/

namespace SwarrmVerify.L5.Registered
open SwarrmVerify.L1.Jcs SwarrmVerify.L1.CborWire SwarrmVerify.L2.Merkle SwarrmVerify.L3.Receipt SwarrmVerify.L3.Keys
open SwarrmVerify.L3.KeyRun SwarrmVerify.L3.Issuers
open SwarrmVerify.L4.Trust SwarrmVerify.L4.Action SwarrmVerify.L4.Certificate SwarrmVerify.L4.Scitt

section
open SwarrmVerify.L1.Reference SwarrmVerify.L3.Published SwarrmVerify.L4.Deposited

theorem document_gated : gatedCore (Echo.toCbor document) = .ok document := by
  have hread : cborToJson (Echo.toCbor document) L1.CborWire.maxDepth = some document :=
    Echo.cborToJson_toCbor document _ (by decide +kernel)
  have hshape : coreShapeOk document = true := by decide +kernel
  have hkeys : coreKeysOk document = true := by decide +kernel
  have hbindings : b28BindingsOk document = true := by decide +kernel
  have hcaps : coreCapsOk document = true := by decide +kernel
  unfold gatedCore
  rw [hread, Option.filter_some, if_pos hshape]
  dsimp only
  rw [hkeys, hbindings, hcaps]
  rfl

/-- Receipt and statement of the pack are those of the service. -/
theorem pack_valid : scittPackValid checker pack (hex certificate.val) log (some service) = true := by
  have hss : pack.get "signed_statement" = some (.string (hex statement)) := by simp [pack, Value.get, List.lookup]
  have hrc : pack.get "receipt" = some (.string (hex receipt)) := by simp [pack, Value.get, List.lookup]
  have hcheckpoint : pack.get "checkpoint" = some (checkpoint serviceBody serviceKid serviceBodySig) := by
    simp [pack, Value.get, List.lookup]
  have hid : pack.get "certificate_id" = some (.string (hex certificate.val)) := by simp [pack, Value.get, List.lookup]
  have hstatement : (pack.getStr "signed_statement").bind hexToBytes = some statement := by
    rw [Value.getStr, hss, Option.bind_some, Value.asStr, Option.bind_some, hexToBytes_hex]
  have hreceipt : (pack.getStr "receipt").bind hexToBytes = some receipt := by
    rw [Value.getStr, hrc, Option.bind_some, Value.asStr, Option.bind_some, hexToBytes_hex]
  have hnamed : pack.getStr "certificate_id" = some (hex certificate.val) := by
    rw [Value.getStr, hid]
    rfl
  rw [scittPackValid_carried hstatement hreceipt hcheckpoint hnamed, log_issuers]
  exact pack_checked

/-- The registration the engine sees. -/
theorem document_derived : (derivedInput checker (hex certificate.val) document none trust).get
    "registration" = some (setIndex registration "scitt_receipt_valid" (.bool true)) := by
  have hbundle : document.index "bundle" = log := by simp [document, Value.index, Value.get, List.lookup]
  have hinput : document.index "verdict_input" = .object [("registration", registration)] := by
    simp [document, Value.index, Value.get, List.lookup]
  have hregistration (failed : Bool) :
      obj (invalidated (withView (.object [("registration", registration)]) none) failed) "registration" =
        some registration := by
    rw [obj, Certified.invalidated_get (by decide), Certified.withView_get (by decide)]
    rfl
  have hpack : obj registration "scitt_pack" = some pack := rfl
  have hroot : (keyFor checker.toCrates trust "scitt_ts_keys"
      ((registration.get "scope_registration").bind fun scope => scope.getStr "transparency_service")).bind toDigest =
        some service := by
    decide +kernel
  unfold derivedInput
  dsimp only
  rw [hbundle, hinput, applyScittOverride, hregistration]
  dsimp only
  rw [get_setIndex_self, hroot, hpack, Option.any_some, pack_valid]

/-- The deposited certificate is registered. -/
theorem registered_shown_deposited : ∃ v,
    (verifyCore checker (hex certificate.val) (Echo.toCbor document) none trust).vector = some v ∧
    v.registrationStatus = .registered ∧ ∃ j r c, gatedCore (Echo.toCbor document) = .ok j ∧
      (j.index "verdict_input").get "registration" = some r ∧
      Shown L4.Deposited.crates fromReader (j.index "bundle") r (hex certificate.val) trust c := by
  have hvector : ∃ v, (verifyCore checker (hex certificate.val) (Echo.toCbor document) none
      trust).vector = some v ∧ v.registrationStatus = .registered := by
    have hread : readable checker.toEngine (derivedInput checker (hex certificate.val) document none trust) = true := by
      rw [Certified.readable_congr checker.toEngine fun _ => Certified.derivedInput_get]
      decide +kernel
    obtain ⟨v, hv⟩ := Option.isSome_iff_exists.mp ((deriveInner_isSome _ _ trust).trans hread)
    refine ⟨v, ?_, ?_⟩
    · unfold verifyCore
      rw [document_gated]
      simp [checkedCore, deriveVectorWithTrust, hv]
    · rw [(deriveInner_derived hv).registration]
      unfold registrationStatus
      rw [Value.index, document_derived]
      decide +kernel
  obtain ⟨v, hv, hr⟩ := hvector
  exact ⟨v, hv, hr, registered_shown engine fromReader _ _ none trust v hv (.inl hr)⟩

end

end SwarrmVerify.L5.Registered
