import SwarrmVerify.L3KeyLog.Issuers
import SwarrmVerify.L5Guarantees.Order
import SwarrmVerify.L5Guarantees.Rewrites

/-!
# Which receipts a recorder attested

A leaf of a verified bundle is attested when the entry at it is signed by an
issuer and, beside it, by a recorder: a key that the log created as one and
that the relying party names with the same material. Three parts of the code
say so together. The key log grants the role, the entry check has verified
every signature, and the attestation only compares names and keys; taken alone
it would attest a receipt that nobody signed.

The code reads the role off a flag of the key's state. Flags are set by a
creation and by nothing else, so a flag is what an entry of the log says
(`granted_flags`), and a rotation in between would have cleared it.

The only hypothesis is that the bundle verifies.

**Results.**
* `recorder_mark`: the log marks a key as a recorder exactly if it was created
  as one.
* `cosigned_iff`: the attestation of one entry whose signatures are checked,
  said in full.
* `recorder_attested`: the attested leaves are those of cosigned entries, and
  who never earns one: a key that came by rotation, a SCITT issuer, and any key
  that the log does not mark.
-/
namespace SwarrmVerify.L5.Recorder
open SwarrmVerify.L1.Jcs SwarrmVerify.L3.Receipt SwarrmVerify.L3.Keys SwarrmVerify.L3.KeyRun SwarrmVerify.L3.Issuers
open SwarrmVerify.L4.Trust SwarrmVerify.L4.Entries SwarrmVerify.L4.Bundle SwarrmVerify.L5.Order

variable {X : Crates} {entries : List Value} {trust : Option Value}

/-! ## What an attestation means -/

def keyidOf (s : Value) : String := (s.getStr "keyid").getD ""

/-- The log holds the kid, with no role, under an issuer's sponsorship. -/
def Issuer (kl : KeyLog) (kid : String) : Prop := ∃ st, kl.state.lookup kid = some st ∧ st.nonIssuer = false

/-- The key was created with the role recorder under an issuer's signature,
and the relying party names its material. -/
structure RecorderKey (X : Crates) (entries : List Value) (trust : Option Value) (kid : String) : Prop where
  granted : Granted X (collectKeyEntries X entries).zipIdx kid "recorder"
  named : ∃ key : Digest, keyFor X trust "recorder_keys" (some kid) = some key.val ∧
    (replayKeyLog X entries).keys.lookup kid = some key

/-- A signature that counts: it verifies under the log's key for its kid, and
that key is active there or it is the genesis key signing its own creation. -/
structure Signs (X : Crates) (kl : KeyLog) (message : Bytes) (body : Value) (leaf : UInt64) (s : Value) : Prop where
  valid : ∃ key, kl.keys.lookup (keyidOf s) = some key ∧ signatureValid X s message key = true
  active : genesisSignature body leaf (keyidOf s) = true ∨
    keyActive kl (keyidOf s) ((body.getStr "ts_server").getD "") leaf = true

/-- The entry stands at the leaf, signed by an issuer and a recorder. -/
structure Cosigned (X : Crates) (entries : List Value) (trust : Option Value) (e : Value) (leaf : UInt64)
    (message : Bytes) (body : Value) (sigs : List Value) : Prop where
  at_ : e.getU64 "leaf_index" = some leaf
  read : envelopeMessage X (e.index "envelope") = some message
  content : bodyOf X (e.index "envelope") = some body
  signatures : (e.index "envelope").getArray "signatures" = some sigs
  several : 2 ≤ sigs.length
  all : ∀ s ∈ sigs, Signs X (replayKeyLog X entries) message body leaf s
  issuer : ∃ s ∈ sigs, Issuer (replayKeyLog X entries) (keyidOf s)
  recorder : ∃ s ∈ sigs, RecorderKey X entries trust (keyidOf s)

/-! ## Roles and marks -/

/-- A creation with a role leaves these marks on its key, for good. -/
theorem granted_flags {l : List (KeyEntry × Nat)} {fin : KeyLog} {kid role : String} (h : Granted X l kid role)
    (hrun : Replay.run (applyKeyEntry X) .empty l = some fin) :
    ∃ st, fin.state.lookup kid = some st ∧ st.recorder = (some role == some "recorder") ∧
      st.scitt = (some role == some "scitt-issuer") := by
  obtain ⟨p, c, kl, s, happlied, rfl, haction, hrole, _⟩ := h
  obtain ⟨kl', ht, hgrows⟩ := applied_final happlied hrun
  cases ht with
  | created =>
    obtain ⟨st, hst, _, hsame⟩ := hgrows.state c.kid _ (AList.lookup_insert _)
    refine ⟨st, hst, ?_, ?_⟩
    · rw [hsame, ← hrole]
    · rw [hsame, ← hrole]
  | rotated _ _ ha =>
    rw [haction] at ha
    exact absurd ha (by decide)
  | revoked _ _ ha =>
    rw [haction] at ha
    exact absurd ha (by decide)

/-- The log marks a key as a recorder exactly when it was created as one. -/
theorem recorder_mark (hok : (replayKeyLog X entries).ok = true) (kid : String) :
    ((replayKeyLog X entries).state.lookup kid).any (·.recorder) = true ↔
      Granted X (collectKeyEntries X entries).zipIdx kid "recorder" := by
  obtain ⟨_, fin, hrun, hfin⟩ := replayKeyLog_ok hok
  rw [hfin, Option.any_eq_true]
  constructor
  · intro ⟨st, hst, hmark⟩
    exact (vouched_run (numbered_zipIdx _) hrun).recorder kid st hst hmark
  · intro hgranted
    obtain ⟨st, hst, hmark, _⟩ := granted_flags hgranted hrun
    exact ⟨st, hst, hmark.trans (beq_self_eq_true _)⟩

/-- A key of the log has a state. -/
theorem state_of_key (hok : (replayKeyLog X entries).ok = true) {kid : String} {key : Digest}
    (h : (replayKeyLog X entries).keys.lookup kid = some key) :
    ∃ st, (replayKeyLog X entries).state.lookup kid = some st := by
  obtain ⟨_, fin, hrun, hfin⟩ := replayKeyLog_ok hok
  rw [hfin] at h ⊢
  have hsame : (fin.keys.lookup kid).isSome = (fin.state.lookup kid).isSome := (explained_run hrun).sameKeys kid
  rw [show fin.keys.lookup kid = some key from h, Option.isSome_some] at hsame
  exact Option.isSome_iff_exists.mp hsame.symm

/-! ## One entry -/

theorem signs_of_checkSig {kl : KeyLog} {message : Bytes} {body s : Value} {leaf : UInt64}
    (h : checkSig X message body leaf kl s = true) : Signs X kl message body leaf s := by
  unfold checkSig at h
  dsimp only at h
  split at h
  · cases h
  rename_i key hkey
  rw [Bool.and_eq_true, Bool.or_eq_true] at h
  exact ⟨⟨key, hkey, h.1⟩, h.2⟩

theorem issuer_iff (hok : (replayKeyLog X entries).ok = true) {s : Value} {key : Digest}
    (hkey : (replayKeyLog X entries).keys.lookup (keyidOf s) = some key) :
    ¬ nonIssuer (replayKeyLog X entries) (keyidOf s) = true ↔ Issuer (replayKeyLog X entries) (keyidOf s) := by
  obtain ⟨st, hst⟩ := state_of_key hok hkey
  rw [nonIssuer, Issuer, hst, Option.any_some, Bool.not_eq_true]
  constructor
  · intro h
    exact ⟨st, rfl, h⟩
  · rintro ⟨st', hst', h⟩
    rwa [Option.some.inj hst']

theorem recorderKey_iff (hok : (replayKeyLog X entries).ok = true) (kid : String) :
    RecorderKey X entries trust kid ↔
      ((replayKeyLog X entries).state.lookup kid).any (·.recorder) = true ∧
        (((keyFor X trust "recorder_keys" (some kid)).bind toDigest).any fun pubkey =>
          (replayKeyLog X entries).keys.lookup kid == some pubkey) = true := by
  rw [recorder_mark hok, Option.any_eq_true]
  constructor
  · intro h
    obtain ⟨key, hnamed, hkey⟩ := h.named
    refine ⟨h.granted, key, ?_, ?_⟩
    · rw [hnamed, Option.bind_some, toDigest, dif_pos key.property]
    · rw [hkey, beq_self_eq_true]
  · rintro ⟨hgranted, key, hnamed, hkey⟩
    obtain ⟨raw, hraw, hdigest⟩ := Option.bind_eq_some_iff.mp hnamed
    refine ⟨hgranted, key, ?_, eq_of_beq hkey⟩
    rw [hraw, toDigest_val hdigest]

/-- The attestation of an entry whose signatures have been checked. -/
theorem cosigned_iff (hok : (replayKeyLog X entries).ok = true) {e : Value} {size : UInt64} {root payload : Bytes}
    {body : Value} {leaf : UInt64} {sigs : List Value} {proof : List Digest} {message : Bytes}
    (h : Checked X e (replayKeyLog X entries) size root payload body leaf sigs proof)
    (hmessage : envelopeMessage X (e.index "envelope") = some message)
    (hsigned : ∀ s ∈ sigs, checkSig X message body leaf (replayKeyLog X entries) s = true) :
    entryRecorderAttested X (e.index "envelope") (replayKeyLog X entries) trust = true ↔
      Cosigned X entries trust e leaf message body sigs := by
  have hall : ∀ s ∈ sigs, Signs X (replayKeyLog X entries) message body leaf s :=
    fun s hs => signs_of_checkSig (hsigned s hs)
  have hissuer : ∀ s ∈ sigs, ¬ nonIssuer (replayKeyLog X entries) (keyidOf s) = true ↔
      Issuer (replayKeyLog X entries) (keyidOf s) := by
    intro s hs
    obtain ⟨key, hkey, _⟩ := (hall s hs).valid
    exact issuer_iff hok hkey
  unfold entryRecorderAttested
  rw [h.hsigs]
  dsimp only
  constructor
  · intro hattested
    split at hattested
    · cases hattested
    rename_i hmixed
    simp only [Bool.or_eq_true, decide_eq_true_eq, List.all_eq_true, not_or, not_forall] at hmixed
    obtain ⟨hseveral, s, hs, hnot⟩ := hmixed
    obtain ⟨r, hr, hrecorder⟩ := List.any_eq_true.mp hattested
    rw [Bool.and_eq_true] at hrecorder
    exact ⟨h.hleaf, hmessage, h.hbody, h.hsigs, Nat.not_lt.mp hseveral, hall, ⟨s, hs, (hissuer s hs).mp hnot⟩,
      ⟨r, hr, (recorderKey_iff hok _).mpr hrecorder⟩⟩
  · intro hcosigned
    obtain ⟨s, hs, hi⟩ := hcosigned.issuer
    obtain ⟨r, hr, hrecorder⟩ := hcosigned.recorder
    rw [if_neg]
    · rw [List.any_eq_true]
      exact ⟨r, hr, Bool.and_eq_true_iff.mpr ((recorderKey_iff hok _).mp hrecorder)⟩
    · simp only [Bool.or_eq_true, decide_eq_true_eq, List.all_eq_true, not_or, not_forall]
      exact ⟨Nat.not_lt.mpr hcosigned.several, s, hs, (hissuer s hs).mpr hi⟩

/-! ## Main result -/

/-- The loop attests what each entry earns. -/
theorem checkEntries_attested {target : Value} {chain : List Value} {kl : KeyLog}
    (h : (checkEntries X entries target chain kl trust).1 = true) :
    (checkEntries X entries target chain kl trust).2 = entries.filterMap (attestedLeaf X kl trust) := by
  unfold checkEntries at h ⊢
  dsimp only at h ⊢
  split at h
  · exact entriesLoop_attested entries [] h
  · cases h

/-- **Recorder attestation.** In a verified bundle a leaf is attested exactly
when an entry at it is signed by an issuer and a recorder, all its signatures
verifying under active keys. A rotated key, a SCITT issuer and a key the log
does not mark are no recorders, whatever the relying party names. -/
theorem recorder_attested (X : Crates) (bundle : Value) (trust : Option Value)
    (h : (verifyBundleFacts X bundle trust).ok = true) :
    (∀ leaf, leaf ∈ (verifyBundleFacts X bundle trust).recorderAttested ↔ ∃ e ∈ entriesOf bundle,
      ∃ message body sigs, Cosigned X (entriesOf bundle) trust e leaf message body sigs) ∧
    (∀ p c kl, AppliedAt X (collectKeyEntries X (entriesOf bundle)).zipIdx p c kl → c.action = "evd.key.rotated" →
      ¬ RecorderKey X (entriesOf bundle) trust c.kid) ∧
    (∀ kid, Granted X (collectKeyEntries X (entriesOf bundle)).zipIdx kid "scitt-issuer" →
      ¬ RecorderKey X (entriesOf bundle) trust kid) ∧
    ∀ kid, (∀ st ∈ (replayKeyLog X (entriesOf bundle)).state.lookup kid, st.recorder = false) →
      ¬ RecorderKey X (entriesOf bundle) trust kid := by
  obtain ⟨entries, kl, target, chainEntries, chain, root, sparse, haccepted, hreported⟩ := verified_facts h
  rw [haccepted.entries_eq]
  have hkl := haccepted.hreplay
  subst hkl
  have hok := haccepted.hok
  obtain ⟨_, fin, hrun, hfin⟩ := replayKeyLog_ok hok
  refine ⟨fun leaf => ?_, fun p c kl happlied haction hkey => ?_, fun kid hscitt hkey => ?_, fun kid hunmarked hkey => ?_⟩
  · rw [hreported.recorder, checkEntries_attested hreported.passed, List.mem_filterMap]
    constructor
    · rintro ⟨e, he, hleaf⟩
      obtain ⟨payload, body, leaf', sigs, proof, hchecked⟩ := haccepted.hchecked e he
      obtain ⟨message, hmessage, hsigned⟩ := hchecked.hsigned
      rw [attestedLeaf] at hleaf
      split at hleaf
      · rename_i hattested
        rw [hchecked.hleaf] at hleaf
        cases hleaf
        exact ⟨e, he, message, body, sigs, (cosigned_iff hok hchecked hmessage hsigned).mp hattested⟩
      · cases hleaf
    · rintro ⟨e, he, message, body, sigs, hcosigned⟩
      obtain ⟨payload, body', leaf', sigs', proof, hchecked⟩ := haccepted.hchecked e he
      obtain ⟨message', hmessage, hsigned⟩ := hchecked.hsigned
      -- the entry has one reading
      cases hchecked.hleaf.symm.trans hcosigned.at_
      cases hchecked.hbody.symm.trans hcosigned.content
      cases hchecked.hsigs.symm.trans hcosigned.signatures
      cases hmessage.symm.trans hcosigned.read
      refine ⟨e, he, ?_⟩
      rw [attestedLeaf, if_pos ((cosigned_iff hok hchecked hmessage hsigned).mpr hcosigned), hchecked.hleaf]
  · obtain ⟨st, hst, hmark, _⟩ := granted_flags hkey.granted hrun
    obtain ⟨st', hst', hno, _⟩ := rotated_roleless happlied hrun haction
    cases hst.symm.trans hst'
    rw [hno] at hmark
    cases hmark
  · obtain ⟨st, hst, hmark, _⟩ := granted_flags hkey.granted hrun
    obtain ⟨st', hst', hno, _⟩ := granted_flags hscitt hrun
    cases hst.symm.trans hst'
    rw [hno] at hmark
    exact absurd hmark (by decide)
  · obtain ⟨st, hst, hmark⟩ := (Option.any_eq_true _ _).mp ((recorder_mark hok kid).mpr hkey.granted)
    rw [hunmarked st hst] at hmark
    cases hmark

section
open SwarrmVerify.L4.Rewritten

/-- The last receipt of the rewritten log is one of them. -/
theorem rewritten_attested : ∃ e ∈ entriesOf rewritten, ∃ message body sigs,
    Cosigned crates (entriesOf rewritten) L4.Rewritten.trust e 9 message body sigs := by
  refine ((recorder_attested crates rewritten L4.Rewritten.trust rewritten_checked.1).1 9).mp ?_
  rw [rewritten_checked.2.1]
  exact List.mem_singleton_self 9

end

end SwarrmVerify.L5.Recorder
