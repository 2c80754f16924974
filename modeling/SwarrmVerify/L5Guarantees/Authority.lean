import SwarrmVerify.L5Guarantees.Membership

/-!
# Authority windows

A signature counts only inside its key's window: after the entry that
introduces the key and before the one that revokes it, in log order and in
signed time. Both are read off the entries of the log, not off the tables of
the replay (`L3KeyLog.KeyRun`).

`keyActive` compares a position with the revocation leaf by `≤`. For a
checkpoint the position is the tree size, and `size ≤ leaf` says that the tree
does not contain the revocation. For a receipt the position is its own leaf,
where `≤` also admits the revocation entry itself: a key may sign its own
revocation. Nothing else can stand at that leaf, since an entry that shares its
leaf with a key-log entry is that entry (`key_entry_at_leaf`); here SHA-256 has
to be collision-free on what the verification hashes.

**Results.**
* `checkpoint_authority_window`: in a verified bundle the target and every
  chain checkpoint is signed by an issuer inside its window.
* `receipt_authority_window`: every signature of every receipt is inside its
  key's window, exactly if no key signs its own revocation.
* `withoutDeputy_receipt_windows`, `published_receipt_outside`: a log of each
  kind.
-/
namespace SwarrmVerify.L5.Authority
open SwarrmVerify.L3.Receipt SwarrmVerify.L3.Keys SwarrmVerify.L3.KeyRun
open SwarrmVerify.L4.Checkpoint SwarrmVerify.L4.Entries SwarrmVerify.L4.Bundle
open SwarrmVerify.L5.Membership

variable {X : Crates}

/-! ## Checkpoints -/

/-- The signer of a checkpoint, its size and its time. -/
theorem checkpointAuthority_spec {kl : KeyLog} {cp : Value} (hsig : verifyCheckpointSig X cp kl.keys = true)
    (h : checkpointAuthority kl cp = true) :
    ∃ kid s ts, cp.getStr "kid" = some kid ∧ bodyU64 cp "tree_size" = some s ∧ bodyStr cp "ts" = some ts ∧
      nonIssuer kl kid = false ∧ keyActive kl kid ts s = true := by
  have hkid : ∃ kid, cp.getStr "kid" = some kid := by
    unfold verifyCheckpointSig at hsig
    split at hsig
    case h_2 => cases hsig
    rename_i kid _ _ hk _ _
    exact ⟨kid, hk⟩
  obtain ⟨kid, hk⟩ := hkid
  unfold checkpointAuthority at h
  rw [hk, Option.getD_some, Bool.and_eq_true, Bool.not_eq_true'] at h
  obtain ⟨st, t, _, ht, hlt, _⟩ := keyActive_iff.mp h.2
  -- the defaults are never active: 0 is below every leaf and "" is no time
  cases hs : bodyU64 cp "tree_size" with
  | none =>
    rw [hs] at hlt
    exact absurd hlt (UInt64.not_lt.mpr UInt64.zero_le)
  | some s =>
    cases hts : bodyStr cp "ts" with
    | none =>
      have hempty : utcEpochMicros "" = none := rfl
      rw [hts, Option.getD_none, hempty] at ht; cases ht
    | some ts =>
      rw [hs, hts] at h
      exact ⟨kid, s, ts, hk, rfl, rfl, h.1, h.2⟩

/-- **Checkpoint authority window.** In a verified bundle the target and every
chain checkpoint is signed by an issuer of the key log, introduced inside the
committed tree and no later than the checkpoint's time, and not revoked inside
that tree or before that time. -/
theorem checkpoint_authority_window (X : Crates) (bundle : Value) (trust : Option Value)
    (h : (verifyBundleFacts X bundle trust).ok = true) :
    ∀ cp ∈ targetOf bundle :: chainOf bundle, ∃ kid s ts t st,
      cp.getStr "kid" = some kid ∧ bodyU64 cp "tree_size" = some s ∧ bodyStr cp "ts" = some ts ∧
      utcEpochMicros ts = some t ∧
      (replayKeyLog X (entriesOf bundle)).state.lookup kid = some st ∧
      st.nonIssuer = false ∧ st.recorder = false ∧ st.scitt = false ∧
      (∃ e ∈ keyLogOf X bundle, ∃ c, keyClaim X e = some c ∧ Introduces c ∧ c.kid = kid ∧
        e.leaf < s ∧ c.effective ≤ t) ∧
      ∀ e ∈ keyLogOf X bundle, ∀ c, keyClaim X e = some c → c.action = "evd.key.revoked" → c.kid = kid →
        s ≤ e.leaf ∧ t ≤ c.effective := by
  obtain ⟨entries, kl, target, chainEntries, chain, root, sparse, hacc⟩ := accepted_of_ok h
  intro cp hcp
  obtain ⟨hsig, hauth⟩ := hacc.authority cp hcp
  obtain ⟨kid, s, ts, hkid, hs, hts, hiss, hact⟩ := checkpointAuthority_spec hsig hauth
  obtain ⟨t, ht, hintro, hrev⟩ := keyActive_window hacc.explained hact
  obtain ⟨st, _, hst, _⟩ := keyActive_iff.mp hact
  have hni : st.nonIssuer = false := by simpa [nonIssuer, hst] using hiss
  have hroles := hacc.explained.roles kid st hst
  rw [hni] at hroles
  refine ⟨kid, s, ts, t, st, hkid, hs, hts, ht, ?_, hni, ?_, ?_, ?_, ?_⟩
  · rw [hacc.entries_eq, hacc.hreplay]; exact hst
  · by_contra hr
    exact absurd (hroles (Or.inl (by simpa using hr))) (by decide)
  · by_contra hr
    exact absurd (hroles (Or.inr (by simpa using hr))) (by decide)
  · obtain ⟨p, hp, hrest⟩ := hintro
    exact ⟨p.1, List.fst_mem_of_mem_zipIdx hp, hrest⟩
  · intro e he c hc hact' hkid'
    obtain ⟨i, hi⟩ := List.getElem?_of_mem he
    exact hrev (e, i) (List.mk_mem_zipIdx_iff_getElem?.mpr hi) c hc hact' hkid'

section
open SwarrmVerify.L3.Published

/-- The `genesis` key signs the target of the published log. -/
theorem published_checkpoint_window :
    (verifyBundleFacts crates published none).ok = true ∧
      ∃ kid s ts t st, (targetOf published).getStr "kid" = some kid ∧
        bodyU64 (targetOf published) "tree_size" = some s ∧ bodyStr (targetOf published) "ts" = some ts ∧
        utcEpochMicros ts = some t ∧
        (replayKeyLog crates (entriesOf published)).state.lookup kid = some st ∧ st.nonIssuer = false ∧
        ∃ e ∈ keyLogOf crates published, ∃ c, keyClaim crates e = some c ∧ Introduces c ∧ c.kid = kid ∧
          e.leaf < s ∧ c.effective ≤ t := by
  obtain ⟨kid, s, ts, t, st, hkid, hs, hts, ht, hst, hni, _, _, hintro, _⟩ :=
    checkpoint_authority_window crates published none published_ok _ List.mem_cons_self
  exact ⟨published_ok, kid, s, ts, t, st, hkid, hs, hts, ht, hst, hni, hintro⟩

end

/-! ## Receipts -/

/-- The receipt at leaf `i` signed by `kid` at time `t` is inside the window
the key log gives `kid`: introduced below `i`, revoked above `i`. -/
def InWindow (X : Crates) (bundle : Value) (kid : String) (i : UInt64) (t : Int) : Prop :=
  (∃ e ∈ keyLogOf X bundle, ∃ c, keyClaim X e = some c ∧ Introduces c ∧ c.kid = kid ∧ e.leaf < i ∧
    c.effective ≤ t) ∧
  ∀ e ∈ keyLogOf X bundle, ∀ c, keyClaim X e = some c → c.action = "evd.key.revoked" → c.kid = kid →
    i < e.leaf ∧ t ≤ c.effective

/-- Every signature of every entry, the genesis self-signature apart, is
inside its key's window. -/
def ReceiptWindows (X : Crates) (bundle : Value) : Prop :=
  ∀ e ∈ entriesOf bundle, ∀ i body ts t sigs sig kid,
    e.getU64 "leaf_index" = some i → bodyOf X (e.index "envelope") = some body →
    body.getStr "ts_server" = some ts → utcEpochMicros ts = some t →
    (e.index "envelope").getArray "signatures" = some sigs → sig ∈ sigs → sig.getStr "keyid" = some kid →
    genesisSignature body i kid = false → InWindow X bundle kid i t

/-- Some revocation entry carries a signature by the key it revokes. -/
def SelfRevocation (X : Crates) (bundle : Value) : Prop :=
  ∃ e ∈ keyLogOf X bundle, ∃ c sigs, keyClaim X e = some c ∧ c.action = "evd.key.revoked" ∧
    e.env.getArray "signatures" = some sigs ∧ ∃ sig ∈ sigs, sig.getStr "keyid" = some c.kid

theorem selfRevocation_iff {bundle : Value} : SelfRevocation X bundle ↔
    ((keyLogOf X bundle).any fun e => (keyClaim X e).any fun c => c.action == "evd.key.revoked" &&
      (e.env.getArray "signatures").any fun sigs =>
        sigs.any fun sig => sig.getStr "keyid" == some c.kid) = true := by
  simp only [SelfRevocation, List.any_eq_true, Option.any_eq_true, Bool.and_eq_true, beq_iff_eq]
  constructor
  · rintro ⟨e, he, c, sigs, hc, ha, hsigs, hsig⟩
    exact ⟨e, he, c, hc, ha, sigs, hsigs, hsig⟩
  · rintro ⟨e, he, c, hc, ha, sigs, hsigs, hsig⟩
    exact ⟨e, he, c, sigs, hc, ha, hsigs, hsig⟩

theorem keyEntry_spec {e : Value} {k : KeyEntry} (h : keyEntry X e = some k) :
    k.leaf = (e.getU64 "leaf_index").getD 0 ∧ k.env = e.index "envelope" ∧
      bodyOf X (e.index "envelope") = some k.body ∧
      (k.body.getStr "agent_id" == some "_system" &&
        (k.body.getStr "action_type").any fun a => startsWith a "evd.key.") = true := by
  unfold keyEntry at h
  simp only [Option.bind_eq_bind, Option.bind_eq_some_iff] at h
  obtain ⟨body, hbody, h⟩ := h
  split at h
  · rename_i hk
    cases h
    exact ⟨rfl, rfl, hbody, hk⟩
  · cases h

theorem mem_keyLogOf {bundle : Value} {k : KeyEntry} :
    k ∈ keyLogOf X bundle ↔ ∃ e ∈ entriesOf bundle, keyEntry X e = some k := by
  unfold keyLogOf collectKeyEntries
  rw [List.mem_insertionSort, List.mem_filterMap]

/-- The dense sequence tells key-log entries apart. -/
theorem keyEntries_seq_inj {l : List KeyEntry} (h : keyEntriesWellFormed l = true) {a b : KeyEntry}
    (ha : a ∈ l) (hb : b ∈ l) (he : seqOf a = seqOf b) : a = b := by
  obtain ⟨i, hi⟩ := List.getElem?_of_mem ha
  obtain ⟨j, hj⟩ := List.getElem?_of_mem hb
  have hsa := keyEntries_seq h hi
  have hsb := keyEntries_seq h hj
  have hij : i = j := by omega
  subst hij
  rw [hi] at hj
  exact Option.some.inj hj

/-- An entry that shares its leaf with a key-log entry is that entry: the
payloads agree, so it is in the key log too, under the same number. -/
theorem key_entry_at_leaf {bundle target : Value} {entries chainEntries chain : List Value} {kl : KeyLog}
    {root payload : Bytes} {sparse : Bool} {e body : Value} {leaf : UInt64} {sigs : List Value}
    {proof : List Digest} (hacc : Accepted X bundle entries kl target chainEntries chain root sparse)
    (hc : CollisionFree X (hashedBytes X bundle)) (he : e ∈ entriesOf bundle)
    (hchk : Checked X e kl (targetSize target) root payload body leaf sigs proof) {k : KeyEntry}
    (hk : k ∈ keyLogOf X bundle) (hleaf : k.leaf = leaf) : k.env = e.index "envelope" := by
  obtain ⟨e', he', hke⟩ := mem_keyLogOf.mp hk
  obtain ⟨hkl, henv, hbody', hkey⟩ := keyEntry_spec hke
  obtain ⟨payload', body', leaf', sigs', proof', hchk'⟩ := hacc.hchecked e' (hacc.entries_eq ▸ he')
  rw [hchk'.hleaf, Option.getD_some] at hkl
  obtain rfl : leaf' = leaf := hkl.symm.trans hleaf
  have hL : ∀ x ∈ entriesOf bundle, entryHashed X (targetSize target) x ⊆ hashedBytes X bundle := by
    intro x hx
    rw [← hacc.target_eq]
    exact entryHashed_subset hx
  have hpay := same_leaf_payload hc hchk hchk' (hL e he) (hL e' he')
  have hbb : body = k.body := by
    have h1 := hchk.hcanon
    rw [hpay, hchk'.hcanon] at h1
    rw [hchk'.hbody] at hbody'
    rw [← Option.some.inj h1, Option.some.inj hbody']
  -- so `e` is a key-log entry with the same body
  have hke' : keyEntry X e = some ⟨leaf', e.index "envelope", k.body⟩ := by
    unfold keyEntry
    simp only [hchk.hbody, hbb, Option.bind_eq_bind, Option.bind_some, hchk.hleaf, Option.getD_some]
    rw [if_pos hkey]
  have hwf : keyEntriesWellFormed (keyLogOf X bundle) = true := by
    have hok := hacc.hok
    rw [← hacc.hreplay] at hok
    rw [keyLogOf, hacc.entries_eq]
    exact (replayKeyLog_ok hok).1
  have := keyEntries_seq_inj hwf hk (mem_keyLogOf.mpr ⟨e, he, hke'⟩) rfl
  rw [this]

/-- A checked signature that is no genesis self-signature is by a key active
at the receipt's leaf and time. -/
theorem checkSig_active {message : Bytes} {body sig : Value} {leaf : UInt64} {kl : KeyLog} {kid ts : String}
    (h : checkSig X message body leaf kl sig = true) (hkid : sig.getStr "keyid" = some kid)
    (hts : body.getStr "ts_server" = some ts) (hg : genesisSignature body leaf kid = false) :
    keyActive kl kid ts leaf = true := by
  unfold checkSig at h
  rw [hkid, hts] at h
  dsimp only [Option.getD_some] at h
  split at h
  · cases h
  · rw [hg, Bool.false_or, Bool.and_eq_true] at h
    exact h.2

theorem revocation_no_genesis {k : KeyEntry} {c : KeyClaim} (hc : keyClaim X k = some c)
    (ha : c.action = "evd.key.revoked") (leaf : UInt64) (kid : String) :
    genesisSignature k.body leaf kid = false := by
  have hne : k.body.getStr "action_type" ≠ some "evd.key.created" := by
    intro he
    have := (keyClaim_reads hc).action
    rw [ha, actionOf, he] at this
    exact absurd this (by decide)
  simp [genesisSignature, beq_false_of_ne hne]

/-- A window that held for a self-signed revocation would put its leaf below
itself. -/
theorem windows_no_self {bundle target : Value} {entries chainEntries chain : List Value} {kl : KeyLog}
    {root : Bytes} {sparse : Bool} (hacc : Accepted X bundle entries kl target chainEntries chain root sparse)
    (hw : ReceiptWindows X bundle) : ¬ SelfRevocation X bundle := by
  rintro ⟨k, hk, c, sigs, hc, ha, hsigs, sig, hsig, hkid⟩
  obtain ⟨e, he, hke⟩ := mem_keyLogOf.mp hk
  obtain ⟨hkl, henv, hbody, _⟩ := keyEntry_spec hke
  obtain ⟨payload, body, leaf, sigs', proof, hchk⟩ := hacc.hchecked e (hacc.entries_eq ▸ he)
  rw [hchk.hleaf, Option.getD_some] at hkl
  rw [hchk.hbody] at hbody
  obtain rfl := Option.some.inj hbody
  rw [henv, hchk.hsigs] at hsigs
  obtain rfl := Option.some.inj hsigs
  obtain ⟨_, _, _, hvalid⟩ := bodyOf_eq_some hchk.hbody
  obtain ⟨ts, hts, _⟩ := (validBody_of hvalid).tsServer
  obtain ⟨message, _, hall⟩ := hchk.hsigned
  have hg := revocation_no_genesis hc ha leaf c.kid
  obtain ⟨_, t, _, ht, _⟩ := keyActive_iff.mp (checkSig_active (hall sig hsig) hkid hts hg)
  have := (hw e he leaf k.body ts t sigs' sig c.kid hchk.hleaf hchk.hbody hts ht hchk.hsigs hsig hkid hg).2
    k hk c hc ha rfl
  rw [hkl] at this
  exact absurd this.1 (UInt64.lt_irrefl leaf)

/-- **Receipt authority window.** In a verified bundle every signature is
inside its key's window exactly when no key signs its own revocation. -/
theorem receipt_authority_window (X : Crates) (bundle : Value) (trust : Option Value)
    (h : (verifyBundleFacts X bundle trust).ok = true) (hc : CollisionFree X (hashedBytes X bundle)) :
    ReceiptWindows X bundle ↔ ¬ SelfRevocation X bundle := by
  obtain ⟨entries, kl, target, chainEntries, chain, root, sparse, hacc⟩ := accepted_of_ok h
  refine ⟨windows_no_self hacc, fun hself => ?_⟩
  intro e he i body ts t sigs sig kid hi hbody hts ht hsigs hsig hkid hg
  obtain ⟨payload, body', leaf, sigs', proof, hchk⟩ := hacc.hchecked e (hacc.entries_eq ▸ he)
  rw [hchk.hleaf] at hi
  rw [hchk.hbody] at hbody
  rw [hchk.hsigs] at hsigs
  cases hi; cases hbody; cases hsigs
  obtain ⟨message, _, hall⟩ := hchk.hsigned
  have hact := checkSig_active (hall sig hsig) hkid hts hg
  obtain ⟨t', ht', hintro, hrev⟩ := keyActive_window hacc.explained hact
  rw [ht] at ht'; cases ht'
  refine ⟨?_, ?_⟩
  · obtain ⟨p, hp, hrest⟩ := hintro
    exact ⟨p.1, List.fst_mem_of_mem_zipIdx hp, hrest⟩
  · intro k hk c hck ha hkc
    obtain ⟨j, hj⟩ := List.getElem?_of_mem hk
    obtain ⟨hle, htime⟩ := hrev (k, j) (List.mk_mem_zipIdx_iff_getElem?.mpr hj) c hck ha hkc
    refine ⟨?_, htime⟩
    rcases UInt64.lt_or_eq_of_le hle with hlt | heq
    · exact hlt
    · -- at the revocation's own leaf the entry is the revocation, signed by its key
      have henv := key_entry_at_leaf hacc hc he hchk hk heq.symm
      exact absurd ⟨k, hk, c, sigs, hck, ha, by rw [henv]; exact hchk.hsigs, sig, hsig, by rw [hkc]; exact hkid⟩
        hself

section
open SwarrmVerify.L3.Published

/-- Without the `deputy` every signature of the log is inside its window. -/
theorem withoutDeputy_receipt_windows :
    (verifyBundleFacts crates withoutDeputy none).ok = true ∧ CollisionFree crates (hashedBytes crates withoutDeputy) ∧
      ReceiptWindows crates withoutDeputy := by
  have hself : ¬ SelfRevocation crates withoutDeputy := by
    rw [selfRevocation_iff, keyLogOf_withoutDeputy]
    decide +kernel
  exact ⟨withoutDeputy_ok, withoutDeputy_collisionFree,
    (receipt_authority_window crates withoutDeputy none withoutDeputy_ok withoutDeputy_collisionFree).mpr hself⟩

/-- The published log verifies, yet the `deputy`'s receipt at leaf 2 stands
at the leaf of its own revocation. -/
theorem published_receipt_outside :
    (verifyBundleFacts crates published none).ok = true ∧ ¬ ReceiptWindows crates published := by
  obtain ⟨entries, kl, target, chainEntries, chain, root, sparse, hacc⟩ := accepted_of_ok published_ok
  have hself : SelfRevocation crates published := by
    rw [selfRevocation_iff, keyLogOf_published]
    decide +kernel
  exact ⟨published_ok, fun hw => windows_no_self hacc hw hself⟩

end

end SwarrmVerify.L5.Authority
