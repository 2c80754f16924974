import SwarrmVerify.L5Guarantees.Order
import SwarrmVerify.L5Guarantees.SplitView

/-!
# What an export carries

An export is a selection of the receipts of a log. Nothing in a bundle rests on
an ordinary receipt, one about no key that neither establishes nor revises a
lineage. So leaving some out goes unnoticed, unless the export carries a
manifest: that one lists the receipts and names the checkpoint, and is signed
by a key of the log.

`Selects X es es'` says that `es'` is `es` with some ordinary receipts left
out, and `Relisted` that two bundles differ in their entries only. Each check
of a bundle is followed over a selection: the key log replays the same entries,
the sequence and lineage checks hold of fewer, the loop over the entries
attests the leaves that are left, and the manifest compares sets of hashes. No
hypothesis on the crates is needed for any of this.

**Results.**
* `selects_lineage`, `checkEntries_select`, `checkExportManifest_select`: the
  checks, one by one.
* `selection_exact`: a selection of a verified bundle verifies exactly if there
  is no manifest or every receipt is still carried, by one of its rows; and
  then it reports the same but for fewer attested leaves.
* `manifest_pins_export`: two verified bundles under one manifest, of whatever
  trust, carry the same receipts and agree below the target of either, provided
  that the bytes the two hash do not collide.
-/
namespace SwarrmVerify.L5.Exported
open SwarrmVerify.L1.Jcs SwarrmVerify.L2.Merkle SwarrmVerify.L3.Receipt SwarrmVerify.L3.Keys
open SwarrmVerify.L4.Checkpoint SwarrmVerify.L4.Continuity SwarrmVerify.L4.Entries SwarrmVerify.L4.Bundle
open SwarrmVerify.L5.Membership SwarrmVerify.L5.Order SwarrmVerify.L5.SplitView

variable {X : Crates}

/-! ## Selections -/

/-- The receipts that the lineage of an agent rests on: its establishment and
its revisions. -/
def rootsLineage (item : LineageItem) : Bool := item.action == "lineage.revised" || isEstablishment item

/-- A receipt that nothing else in a bundle rests on: it is about no key, and it
neither establishes nor revises a lineage. -/
structure Ordinary (X : Crates) (e : Value) : Prop where
  key : keyEntry X e = none
  lineage : ∀ i, lineageItem X e = some i → rootsLineage i.2 = false

/-- `es'` is `es` with some ordinary receipts left out. -/
inductive Selects (X : Crates) : List Value → List Value → Prop where
  | nil : Selects X [] []
  | keep {es es' : List Value} (e : Value) (h : Selects X es es') : Selects X (e :: es) (e :: es')
  | drop {es es' : List Value} (e : Value) (ho : Ordinary X e) (h : Selects X es es') : Selects X (e :: es) es'

theorem lineageItem_action {e body : Value} (h : (e.get "envelope").bind (bodyOf X) = some body)
    {i : String × LineageItem} (hi : lineageItem X e = some i) :
    i.2.action = (body.getStr "action_type").getD "" := by
  unfold lineageItem at hi
  simp only [h, Option.bind_eq_bind, Option.bind_some] at hi
  split at hi
  · cases hi
  · obtain ⟨rh, -, hi⟩ := Option.bind_eq_some_iff.mp hi
    cases hi
    rfl

namespace Selects
variable {es es' : List Value}

theorem sublist (h : Selects X es es') : es'.Sublist es := by
  induction h with
  | nil => exact List.Sublist.slnil
  | keep e _ ih => exact ih.cons_cons e
  | drop e _ _ ih => exact ih.cons e

theorem all {p : Value → Bool} (h : Selects X es es') (hall : es.all p = true) : es'.all p = true := by
  rw [List.all_eq_true] at hall ⊢
  exact fun e he => hall e (h.sublist.subset he)

theorem any {p : Value → Bool} (h : Selects X es es') (hany : es.any p = false) : es'.any p = false := by
  rw [List.any_eq_false] at hany ⊢
  exact fun e he => hany e (h.sublist.subset he)

theorem keyEntries (h : Selects X es es') : es'.filterMap (keyEntry X) = es.filterMap (keyEntry X) := by
  induction h with
  | nil => rfl
  | keep e _ ih => rw [List.filterMap_cons, List.filterMap_cons, ih]
  | drop e ho _ ih => rw [List.filterMap_cons_none ho.key, ih]

theorem replay (h : Selects X es es') : replayKeyLog X es' = replayKeyLog X es := by
  have hsame : collectKeyEntries X es' = collectKeyEntries X es := by
    rw [collectKeyEntries, collectKeyEntries, h.keyEntries]
  rw [replayKeyLog, replayKeyLog, hsame]

theorem items (h : Selects X es es') (agent : String) :
    (itemsOf (es'.filterMap (lineageItem X)) agent).Sublist (itemsOf (es.filterMap (lineageItem X)) agent) :=
  ((h.sublist.filterMap _).filter _).map _

/-- What a lineage rests on is kept, since only ordinary receipts are left out.
By induction on the selection. -/
theorem roots (h : Selects X es es') (agent : String) :
    (itemsOf (es'.filterMap (lineageItem X)) agent).filter rootsLineage =
      (itemsOf (es.filterMap (lineageItem X)) agent).filter rootsLineage := by
  induction h with
  | nil => rfl
  | @keep es es' e _ ih =>
    cases hi : lineageItem X e with
    | none => rw [List.filterMap_cons_none hi, List.filterMap_cons_none hi, ih]
    | some i =>
      rw [List.filterMap_cons_some hi, List.filterMap_cons_some hi]
      by_cases ha : i.1 = agent
      · simp only [itemsOf, List.filter_cons, ha, beq_self_eq_true, if_true, List.map_cons] at ih ⊢
        rw [ih]
      · simp only [itemsOf, List.filter_cons, beq_false_of_ne ha, Bool.false_eq_true, if_false] at ih ⊢
        rw [ih]
  | @drop es es' e ho _ ih =>
    cases hi : lineageItem X e with
    | none => rw [List.filterMap_cons_none hi, ih]
    | some i =>
      have hroots := ho.lineage i hi
      rw [List.filterMap_cons_some hi, ih]
      by_cases ha : i.1 = agent
      · simp [itemsOf, ha, hroots]
      · simp [itemsOf, beq_false_of_ne ha]

end Selects

/-! ## The checks of a selection -/

theorem filter_establishments (items : List LineageItem) :
    (items.filter rootsLineage).filter isEstablishment = items.filter isEstablishment := by
  rw [List.filter_filter]
  congr 1
  funext i
  simp only [rootsLineage]
  cases isEstablishment i <;> simp

/-- The lineage of an agent holds of fewer receipts if its roots are kept: every
other receipt is checked against these alone. -/
theorem checkAgentLineage_select {items items' : List LineageItem} (hsub : items'.Sublist items)
    (hroots : items'.filter rootsLineage = items.filter rootsLineage) (h : checkAgentLineage items = true) :
    checkAgentLineage items' = true := by
  have hest : items'.filter isEstablishment = items.filter isEstablishment := by
    rw [← filter_establishments, hroots, filter_establishments]
  have hall : ∀ p : LineageItem → Bool, items.all p = true → items'.all p = true := by
    intro p hp
    rw [List.all_eq_true] at hp ⊢
    exact fun i hi => hp i (hsub.subset hi)
  unfold checkAgentLineage at h ⊢
  unfold rootsLineage at hroots
  dsimp only at h ⊢
  rw [hroots, hest]
  split at h
  · exact hall _ h
  · rw [checkLineageEstablished, Bool.and_eq_true] at h ⊢
    exact ⟨h.1, hall _ h.2⟩
  · cases h

theorem selects_lineage {es es' : List Value} (h : Selects X es es') (hl : checkLineage X es = true) :
    checkLineage X es' = true := by
  rw [checkLineage_iff] at hl ⊢
  exact fun agent => checkAgentLineage_select (h.items agent) (h.roots agent) (hl agent)

theorem selects_seq {es es' : List Value} (h : Selects X es es') (hs : checkSeqUniqueness X es = true) :
    checkSeqUniqueness X es' = true := by
  rw [checkSeqUniqueness_iff] at hs ⊢
  have hsub := h.sublist.filterMap (seqKey X)
  exact fun k rh rh' hk hk' => hs k rh rh' (hsub.subset hk) (hsub.subset hk')

/-- Fewer entries pass as well, and attest the leaves that are left. By
induction on the selection. -/
theorem checkEntries_select {es es' chain : List Value} {target : Value} {kl : KeyLog} {trust : Option Value}
    (h : Selects X es es') (hok : (checkEntries X es target chain kl trust).1 = true) :
    (checkEntries X es' target chain kl trust).1 = true ∧
      (checkEntries X es' target chain kl trust).2.Sublist (checkEntries X es target chain kl trust).2 := by
  unfold checkEntries at hok ⊢
  dsimp only at hok ⊢
  split at hok
  · have hok' := hok
    rw [entriesLoop_ok] at hok'
    have hok' := h.all hok'
    rw [← @entriesLoop_ok X kl trust _ _ _ _ es' []] at hok'
    refine ⟨hok', ?_⟩
    rw [entriesLoop_attested _ _ hok, entriesLoop_attested _ _ hok', List.nil_append, List.nil_append]
    exact h.sublist.filterMap _
  · cases hok

theorem numbersWithinProfile_select {b b' : Value} (h : Relisted (Selects X) b b')
    (hn : numbersWithinProfile X b = true) : numbersWithinProfile X b' = true := by
  obtain ⟨before, after, hr, _⟩ := h
  simp only [numbersWithinProfile, numbersMatch, numbersMatchMembers_append, numbersMatchMembers,
    numbersMatchItems_eq, Bool.and_eq_true] at hn ⊢
  simp only [hn, true_and, and_true]
  exact hr.all hn.2.2.1.2

theorem withinCaps_select {b b' : Value} (h : Relisted (Selects X) b b') (hcaps : withinCaps X b = true) :
    withinCaps X b' = true := by
  obtain ⟨es, es', hes, hes', hr⟩ := h.entries
  simp only [withinCaps, hes, hes', h.getArray (k := "checkpoint_chain") (by decide), Option.all_some,
    Bool.and_eq_true, decide_eq_true_eq] at hcaps ⊢
  refine ⟨⟨⟨?_, hr.all hcaps.1.1.2⟩, hcaps.1.2⟩, numbersWithinProfile_select h hcaps.2⟩
  exact hr.sublist.length_le.trans hcaps.1.1.1

/-- A key log that replays is not empty, so neither is a selection, which keeps
the key log. -/
theorem selects_nonempty {es es' : List Value} (h : Selects X es es') (hok : (replayKeyLog X es).ok = true) :
    es' ≠ [] := by
  rintro rfl
  rw [← h.replay] at hok
  have hwf := (replayKeyLog_ok hok).1
  simp [collectKeyEntries, keyEntriesWellFormed] at hwf

theorem admitted_select {b b' : Value} {entries : List Value} {kl : KeyLog} (h : Relisted (Selects X) b b')
    (hadm : admitted X b = some (entries, kl)) :
    ∃ entries', Selects X entries entries' ∧ b'.getArray "entries" = some entries' ∧
      admitted X b' = some (entries', kl) := by
  obtain ⟨es, es', hes, hes', hr⟩ := h.entries
  obtain ⟨hb, hkl, hok, _⟩ := admitted_spec hadm
  obtain rfl : es = entries := by rw [hes] at hb; exact Option.some.inj hb
  refine ⟨es', hr, hes', ?_⟩
  have hschema := h.getStr (k := "schema") (by decide)
  have hjwks : checkJwksMatchLog X b' kl = checkJwksMatchLog X b kl := by
    simp only [checkJwksMatchLog, h.get (k := "jwks") (by decide)]
  have hne : es'.isEmpty = false := by
    rw [← hkl] at hok
    simpa using selects_nonempty hr hok
  unfold admitted at hadm ⊢
  simp only [hes, hes', Option.getD_some, hkl, hr.replay, hschema, hjwks, hne] at hadm ⊢
  split at hadm
  · cases hadm
  rename_i h1
  split at hadm
  · cases hadm
  rename_i h2
  split at hadm
  · cases hadm
  split at hadm
  · cases hadm
  rename_i h4
  split at hadm
  · cases hadm
  rename_i h5
  split at hadm
  · cases hadm
  rename_i h6
  have hcaps : withinCaps X b' = true := withinCaps_select h (by simpa using h2)
  have hforbidden := hr.any (by simpa using h4)
  rw [if_neg h1, hcaps]
  simp only [Bool.not_true, Bool.false_eq_true, if_false, hforbidden, h5, h6]

/-! ## The manifest -/

/-- The receipt hash that an entry carries, recomputed from its envelope. -/
def carriedHash (X : Crates) (e : Value) : Option String := (e.get "envelope").bind (receiptHashHex X)

/-- The entries carry the receipts of `es`, in whatever rows and whatever
order. -/
def CarriesAll (X : Crates) (es es' : List Value) : Prop :=
  ∀ e ∈ es, ∃ e' ∈ es', carriedHash X e' = carriedHash X e

/-- A checked entry carries the hash of its payload, which is the leaf it is
included by. -/
theorem carriedHash_checked {e : Value} {kl : KeyLog} {size leaf : UInt64} {root payload : Bytes} {body : Value}
    {sigs : List Value} {proof : List Digest} (h : Checked X e kl size root payload body leaf sigs proof) :
    carriedHash X e = some (hex (X.sha256 payload).val) := by
  obtain ⟨agent, seq, _, _, hkey⟩ := receiptHash_checked h
  simp only [seqKey, Option.bind_eq_bind, Option.bind_eq_some_iff, Option.pure_def, Option.some.injEq,
    Prod.mk.injEq] at hkey
  obtain ⟨_, _, rh, hrh, _, rfl⟩ := hkey
  exact Option.bind_eq_some_iff.mpr hrh

/-- What a manifest that holds has been checked for: its form, its signature and
its list. -/
theorem checkExportManifest_spec {bundle target : Value} {es : List Value} {kl : KeyLog}
    (h : checkExportManifest X bundle es target kl = some true) :
    ∃ raw body kid ts, bundle.getSome "export_manifest" = some raw ∧
      (raw.get "body").filter Value.isObject = some body ∧ manifestTargetTime X body bundle target kid = some ts ∧
      manifestListMatches X body es = true := by
  unfold checkExportManifest at h
  obtain ⟨raw, hraw, h⟩ := Option.bind_eq_some_iff.mp h
  split at h
  case h_2 => cases h
  rename_i body kid sigB64 hbody _ _
  split at h
  case h_2 => cases h
  rename_i ts pubkey canon sig hts _ _ _
  simp only [Option.some.injEq, Bool.and_eq_true] at h
  exact ⟨raw, body, kid, ts, hraw, hbody, hts, h.2⟩

/-- A manifest lists what the entries carry: the same hashes, in whatever order
and number. -/
theorem manifestListMatches_iff {body : Value} {es : List Value} : manifestListMatches X body es = true ↔
    ∃ listed claimed, body.getArray "receipt_hashes" = some listed ∧ listed.length ≤ maxEntries ∧
      listed.mapM Value.asStr = some claimed ∧ ∀ h, h ∈ claimed ↔ h ∈ es.filterMap (carriedHash X) := by
  unfold manifestListMatches
  cases hl : body.getArray "receipt_hashes" with
  | none => simp
  | some listed =>
    dsimp only
    by_cases hlen : listed.length > maxEntries
    · rw [if_pos hlen]
      simp only [Bool.false_eq_true, false_iff, not_exists]
      rintro l claimed ⟨h, hle, _⟩
      cases h
      omega
    · rw [if_neg hlen]
      cases hm : listed.mapM Value.asStr with
      | none =>
        simp only [Bool.false_eq_true, false_iff, not_exists]
        rintro l claimed ⟨h, _, hc, _⟩
        cases h
        rw [hm] at hc
        cases hc
      | some claimed =>
        simp only [beq_iff_eq, Finset.ext_iff, List.mem_toFinset]
        constructor
        · exact fun h => ⟨listed, claimed, rfl, by omega, hm, h⟩
        · rintro ⟨l, c, h, _, hc, hset⟩
          cases h
          rw [hm] at hc
          cases hc
          exact hset

/-- Under a manifest that holds, fewer entries match it exactly when they carry
the same receipts, since it lists what all of them carry. -/
theorem manifestListMatches_select {body : Value} {es es' : List Value} (h : Selects X es es')
    (hcarried : ∀ e ∈ es, (carriedHash X e).isSome = true) (hm : manifestListMatches X body es = true) :
    manifestListMatches X body es' = true ↔ CarriesAll X es es' := by
  obtain ⟨listed, claimed, hl, hlen, hc, hset⟩ := manifestListMatches_iff.mp hm
  rw [manifestListMatches_iff]
  constructor
  · rintro ⟨l, c, hl', _, hc', hset'⟩ e he
    rw [hl] at hl'
    cases hl'
    rw [hc] at hc'
    cases hc'
    obtain ⟨rh, hrh⟩ := Option.isSome_iff_exists.mp (hcarried e he)
    have hin := (hset rh).mpr (List.mem_filterMap.mpr ⟨e, he, hrh⟩)
    obtain ⟨e', he', hrh'⟩ := List.mem_filterMap.mp ((hset' rh).mp hin)
    exact ⟨e', he', hrh'.trans hrh.symm⟩
  · intro hall
    refine ⟨listed, claimed, hl, hlen, hc, fun rh => (hset rh).trans ⟨fun hin => ?_, fun hin => ?_⟩⟩
    · obtain ⟨e, he, hrh⟩ := List.mem_filterMap.mp hin
      obtain ⟨e', he', hsame⟩ := hall e he
      exact List.mem_filterMap.mpr ⟨e', he', hsame.trans hrh⟩
    · exact (h.sublist.filterMap _).subset hin

/-- The manifest of a verified bundle over a selection of its entries. -/
theorem checkExportManifest_select {bundle target : Value} {es es' : List Value} {kl : KeyLog}
    (h : Selects X es es') (hcarried : ∀ e ∈ es, (carriedHash X e).isSome = true)
    (hm : checkExportManifest X bundle es target kl ≠ some false) :
    (bundle.getSome "export_manifest" = none ∨ CarriesAll X es es' →
      checkExportManifest X bundle es' target kl = checkExportManifest X bundle es target kl) ∧
    (checkExportManifest X bundle es' target kl ≠ some false →
      bundle.getSome "export_manifest" = none ∨ CarriesAll X es es') := by
  cases hraw : bundle.getSome "export_manifest" with
  | none =>
    refine ⟨fun _ => ?_, fun _ => .inl rfl⟩
    simp only [checkExportManifest, hraw]
    rfl
  | some raw =>
    simp only [checkExportManifest, hraw, Option.bind_eq_bind, Option.bind_some, reduceCtorEq, false_or] at hm ⊢
    split at hm
    case h_2 => exact absurd rfl hm
    split at hm
    case h_2 => exact absurd rfl hm
    rename_i body kid sigB64 _ _ _ _ _ _ _ ts pubkey canon sig _ _ _ _
    simp only [ne_eq, Option.some.injEq, Bool.not_eq_false, Bool.and_eq_true] at hm ⊢
    rw [manifestListMatches_select h hcarried hm.2]
    refine ⟨fun hall => ?_, fun hm' => hm'.2⟩
    rw [(manifestListMatches_select h hcarried hm.2).mpr hall, hm.2]

/-! ## The verdict of a selection -/

/-- Two results that differ in the attested leaves only, the second having
fewer. Everything else that is reported is the same. -/
structure FewerAttested (f f' : BundleFacts) : Prop where
  complete : f'.complete = f.complete
  present : f'.continuityPresent = f.continuityPresent
  cover : f'.continuityOk = f.continuityOk
  gaps : f'.continuityGaps = f.continuityGaps
  chainSizes : f'.chainSizes = f.chainSizes
  origin : f'.originAttested = f.originAttested
  stamped : f'.trustedTstCheckpoints = f.trustedTstCheckpoints
  attested : f'.recorderAttested.Sublist f.recorderAttested

theorem checks_select {bundle : Value} {es es' : List Value} {kl : KeyLog} {trust : Option Value}
    {facts : BundleFacts} (hs : Selects X es es') (hcarried : ∀ e ∈ es, (carriedHash X e).isSome = true)
    (h : (checkCheckpointsAndEntries X bundle es kl trust facts).1 = true) :
    ((checkCheckpointsAndEntries X bundle es' kl trust facts).1 = true ↔
      bundle.getSome "export_manifest" = none ∨ CarriesAll X es es') ∧
    ((checkCheckpointsAndEntries X bundle es' kl trust facts).1 = true →
      FewerAttested (checkCheckpointsAndEntries X bundle es kl trust facts).2
        (checkCheckpointsAndEntries X bundle es' kl trust facts).2) := by
  unfold checkCheckpointsAndEntries at h ⊢
  split at h
  case h_2 => cases h
  rename_i target chainEntries chain htarget hpresented
  split at h
  · cases h
  rename_i hne
  simp only [if_neg hne] at h ⊢
  split at h
  · cases h
  rename_i hset
  simp only [checkEntrySet, Bool.not_eq_true', Bool.not_eq_false, Bool.and_eq_true, bne_iff_ne] at hset
  obtain ⟨⟨hentries, hmanifest⟩, hseq⟩ := hset
  split at h
  · cases h
  rename_i hlinks
  split at h
  · cases h
  rename_i checkpoints hcheckpoints
  split at h
  · cases h
  rename_i hrecords
  obtain ⟨hok', hattested⟩ := checkEntries_select hs hentries
  obtain ⟨hkept, hlost⟩ := checkExportManifest_select hs hcarried hmanifest
  replace hlinks : checkChainAndLineage X bundle es target chain chainEntries kl = true := by simpa using hlinks
  have hlinks' : checkChainAndLineage X bundle es' target chain chainEntries kl = true := by
    simp only [checkChainAndLineage, Bool.and_eq_true] at hlinks ⊢
    exact ⟨hlinks.1, selects_lineage hs hlinks.2⟩
  simp only [checkEntrySet, hok', hentries, selects_seq hs hseq, hseq, Bool.true_and, Bool.and_true, hlinks, hlinks',
    Bool.not_true, Bool.false_eq_true, if_false, hrecords, Bool.not_eq_true', bne_eq_false_iff_eq, if_neg hmanifest]
  by_cases hman : checkExportManifest X bundle es' target kl = some false
  · simp only [hman, if_true, Bool.false_eq_true, false_iff, false_imp_iff, and_true]
    intro hall
    exact hmanifest ((hkept hall).symm.trans hman)
  · simp only [if_neg hman, true_iff, true_imp_iff]
    exact ⟨hlost hman, ⟨hkept (hlost hman), rfl, rfl, rfl, rfl, rfl, rfl, hattested.append_left _⟩⟩

/-- Every entry of a verified bundle carries a receipt hash, as it has been
included by one. -/
theorem carried_of_ok {bundle : Value} {trust : Option Value} (h : (verifyBundleFacts X bundle trust).ok = true) :
    ∀ e ∈ entriesOf bundle, (carriedHash X e).isSome = true := by
  obtain ⟨entries, kl, target, chainEntries, chain, root, sparse, hacc⟩ := accepted_of_ok h
  intro e he
  obtain ⟨_, _, _, _, _, hchk⟩ := hacc.hchecked e (hacc.entries_eq ▸ he)
  rw [carriedHash_checked hchk]
  rfl

/-- **Selections.** Leave ordinary receipts out of a verified bundle. The rest
verifies exactly when there is no export manifest, or every receipt left out is
still carried by another entry; it then reports the same, and attests no leaf
that was not attested before. -/
theorem selection_exact (X : Crates) (b b' : Value) (trust : Option Value) (h : Relisted (Selects X) b b')
    (hok : (verifyBundleFacts X b trust).ok = true) :
    ((verifyBundleFacts X b' trust).ok = true ↔
      b.getSome "export_manifest" = none ∨ CarriesAll X (entriesOf b) (entriesOf b')) ∧
    ((verifyBundleFacts X b' trust).ok = true →
      FewerAttested (verifyBundleFacts X b trust) (verifyBundleFacts X b' trust)) := by
  have hcarried := carried_of_ok hok
  unfold verifyBundleFacts at hok
  split at hok
  · cases hok
  rename_i entries kl hadm
  obtain ⟨hentries, _, _, _⟩ := admitted_spec hadm
  obtain ⟨entries', hs, hentries', hadm'⟩ := admitted_select h hadm
  have hes : entriesOf b = entries := by rw [entriesOf, hentries, Option.getD_some]
  have hes' : entriesOf b' = entries' := by rw [entriesOf, hentries', Option.getD_some]
  dsimp only at hok
  split at hok
  case isFalse => cases hok
  rename_i hr
  obtain ⟨hiff, hfewer⟩ := checks_select hs (hes ▸ hcarried) hr
  rw [← checks_relisted (X := X) h entries' kl trust {}] at hiff hfewer
  have horigin : originAttested X b' kl trust = originAttested X b kl trust := by
    rw [originAttested, originAttested, h.getStr (by decide), h.index (by decide)]
  simp only [verifyBundleFacts, hadm, hadm', hr, if_true, hes, hes', ← hiff]
  by_cases hr' : (checkCheckpointsAndEntries X b' entries' kl trust {}).1 = true
  · have hsame := hfewer hr'
    simp only [hr', if_true, true_imp_iff, true_and]
    exact ⟨hsame.complete, hsame.present, hsame.cover, hsame.gaps, hsame.chainSizes, horigin, hsame.stamped,
      hsame.attested⟩
  · simp [hr']

/-! ## Exports of the published log -/

section
open Sha256 SwarrmVerify.L1.Reference SwarrmVerify.L3.Published

/-- The manifest of an export of the first and the last receipt of the published
log, with a genuine signature of the genesis key. -/
def manifestBody : Value :=
  .object [("origin", .string "evd://tenant/acme"),
    ("receipt_hashes", .array [.string (hex receipt0.val), .string (hex receipt3.val)]),
    ("schema", .string "evd/export-manifest/v1"), ("target_checkpoint_hash", .string (hex body4Hash.val)),
    ("ts", .string "2026-01-01T00:00:03Z")]

def manifestSig : Bytes :=
  bytesBE 64 0xf24e8cd25d91802de24d3cb6b754667e2c1653751bf209e7ecc734cf9e82df1753ab11cc13587e368e1d647516c2b6836fabedeb5428b58c2e4e282f536f2205

/-- The crates on the log and on the manifest, one more signature than on the
log alone. -/
def exporting : Crates :=
  reference known (⟨genesis, pae exportManifestType (text manifestBody), manifestSig⟩ :: signed) receipts

/-- A bundle of some entries of the log under the manifest. -/
def exported (entries : List Value) : Value :=
  .object [("checkpoint_chain", .array [.object [("checkpoint", checkpoint body2 genesisKid body2Sig)],
      .object [("checkpoint", target), ("consistency_from_prev", .array [.string (hex right.val)])]]),
    ("entries", .array entries), ("export_manifest", checkpoint manifestBody genesisKid manifestSig),
    ("jwks", .object [("keys", .array [genesisJwk])]), ("origin", .string "evd://tenant/acme"),
    ("schema", .string "evd/bundle/v1"), ("target_checkpoint", target)]

/-- The export in two layouts; without the clerk's call it is rejected.
Evaluated once, for all that is said of it below. -/
theorem exported_checked : (verifyBundleFacts exporting (exported [entry0, entry3]) none).ok = true ∧
    (verifyBundleFacts exporting (exported [entry3, entry0, entry3]) none).ok = true ∧
    (verifyBundleFacts exporting (exported [entry0]) none).ok = false ∧
    ∀ b ∈ viewHashed exporting (exported [entry0, entry3]) ++ viewHashed exporting (exported [entry3, entry0, entry3]),
      b ∈ known.map Prod.fst := by
  decide +kernel

/-- The clerk's call reads back whatever is signed. -/
theorem bodyOf_clerk (s : List Signed) :
    bodyOf (reference known s receipts) (envelope clerkCall genesisKid clerkCallSig) = some clerkCall := by
  have hb : clerkCall ∈ receipts := by simp [receipts]
  obtain ⟨hw, hv⟩ := receipts_valid.2 clerkCall hb
  exact bodyOf_envelope known s receipts_valid.1 hb hw (receipts_promoted clerkCall hb) hv genesisKid clerkCallSig

/-- The clerk's call is an ordinary receipt. -/
theorem clerk_ordinary (s : List Signed) : Ordinary (reference known s receipts) entry3 := by
  have hbody : bodyOf (reference known s receipts) (entry3.index "envelope") = some clerkCall := bodyOf_clerk s
  refine ⟨?_, fun i hi => ?_⟩
  · have hclerk := receipts_keyBodies
    simp only [receipts, List.map_cons, List.map_nil, List.cons.injEq, and_true] at hclerk
    have hkey : keyEntry (reference known s receipts) entry3 =
        if isKeyBody clerkCall then some ⟨3, envelope clerkCall genesisKid clerkCallSig, clerkCall⟩ else none := by
      unfold keyEntry
      rw [hbody]
      rfl
    rw [hkey, hclerk.2.2.2, if_neg (by decide)]
  · have hget : entry3.get "envelope" = some (envelope clerkCall genesisKid clerkCallSig) := rfl
    have hread : (entry3.get "envelope").bind (bodyOf (reference known s receipts)) = some clerkCall := by
      rw [hget, Option.bind_some, bodyOf_clerk]
    have haction : i.2.action = "llm.call" := lineageItem_action hread hi
    simp [rootsLineage, isEstablishment, haction]

/-- Without a manifest the clerk's call may be left out. Under the manifest one
of its two rows may be, and not the only one. -/
theorem published_selection :
    ((verifyBundleFacts crates published none).ok = true ∧
      (verifyBundleFacts crates (bundle [entry0, entry1, entry2]) none).ok = true) ∧
    ((verifyBundleFacts exporting (exported [entry3, entry0, entry3]) none).ok = true ∧
      (verifyBundleFacts exporting (exported [entry0, entry3]) none).ok = true ∧
      FewerAttested (verifyBundleFacts exporting (exported [entry3, entry0, entry3]) none)
        (verifyBundleFacts exporting (exported [entry0, entry3]) none)) ∧
    (verifyBundleFacts exporting (exported [entry0, entry3]) none).ok = true ∧
      ¬ CarriesAll exporting [entry0, entry3] [entry0] := by
  obtain ⟨honce, htwice, hwithout, -⟩ := exported_checked
  have hplain : Relisted (Selects crates) published (bundle [entry0, entry1, entry2]) :=
    .mk [("checkpoint_chain", _)] _
      (.keep entry0 (.keep entry1 (.keep entry2 (.drop entry3 (clerk_ordinary _) .nil)))) (by decide)
  have hrow : Relisted (Selects exporting) (exported [entry3, entry0, entry3]) (exported [entry0, entry3]) :=
    .mk [("checkpoint_chain", _)] _ (.drop entry3 (clerk_ordinary _) (.keep entry0 (.keep entry3 .nil))) (by decide)
  have hlast : Relisted (Selects exporting) (exported [entry0, entry3]) (exported [entry0]) :=
    .mk [("checkpoint_chain", _)] _ (.keep entry0 (.drop entry3 (clerk_ordinary _) .nil)) (by decide)
  have hcarried : CarriesAll exporting [entry3, entry0, entry3] [entry0, entry3] := by
    intro e he
    refine ⟨e, ?_, rfl⟩
    simp only [List.mem_cons, List.not_mem_nil, or_false] at he ⊢
    exact he.elim .inr id
  refine ⟨⟨published_ok, (selection_exact crates _ _ none hplain published_ok).1.mpr (.inl rfl)⟩, ?_, honce, ?_⟩
  · obtain ⟨hiff, hfewer⟩ := selection_exact exporting _ _ none hrow htwice
    have hok := hiff.mpr (.inr hcarried)
    exact ⟨htwice, hok, hfewer hok⟩
  · intro hall
    rw [(selection_exact exporting _ _ none hlast honce).1.mpr (.inr hall)] at hwithout
    cases hwithout

end

/-! ## Two exports under one manifest -/

/-- The bundle carries a receipt, as the payload of one of its entries. -/
def Carries (X : Crates) (bundle : Value) (payload : Bytes) : Prop :=
  ∃ e ∈ entriesOf bundle, payloadOf X (e.index "envelope") = some payload

/-- The manifest of a verified bundle holds, under the key log that the bundle
replays to. -/
theorem manifest_of_ok {bundle : Value} {trust : Option Value} (h : (verifyBundleFacts X bundle trust).ok = true)
    {m : Value} (hm : bundle.getSome "export_manifest" = some m) :
    ∃ kl, checkExportManifest X bundle (entriesOf bundle) (targetOf bundle) kl = some true := by
  unfold verifyBundleFacts at h
  split at h
  · cases h
  rename_i entries kl hadm
  obtain ⟨hentries, _, _, _⟩ := admitted_spec hadm
  refine ⟨kl, ?_⟩
  rw [entriesOf, hentries, Option.getD_some]
  dsimp only at h
  split at h
  case isFalse => cases h
  rename_i hr
  unfold checkCheckpointsAndEntries at hr
  split at hr
  case h_2 => cases hr
  rename_i target chainEntries chain htarget hpresented
  rw [targetOf, Value.index, htarget, Option.getD_some]
  dsimp only at hr
  split at hr
  · cases hr
  split at hr
  · cases hr
  rename_i hset
  simp only [checkEntrySet, Bool.not_eq_true', Bool.not_eq_false, Bool.and_eq_true, bne_iff_ne] at hset
  have hsome : checkExportManifest X bundle entries target kl ≠ none := by
    simp only [checkExportManifest, hm, Option.bind_eq_bind, Option.bind_some]
    split
    · split <;> simp
    · simp
  cases hman : checkExportManifest X bundle entries target kl with
  | none => exact absurd hman hsome
  | some ok =>
    cases ok with
    | true => rfl
    | false => exact absurd hman hset.1.2

/-- The target of a verified bundle is in its chain, by the hash of its body and
by its size. -/
theorem target_in_chain (hX : WriterLaws X) {bundle : Value} {trust : Option Value} {L : List Bytes}
    (h : (verifyBundleFacts X bundle trust).ok = true) (hc : CollisionFree X L) (hL : viewHashed X bundle ⊆ L) :
    ∃ cp ∈ chainOf bundle, checkpointBodyHash X cp = checkpointBodyHash X (targetOf bundle) ∧
      targetSize cp = targetSize (targetOf bundle) := by
  obtain ⟨entries, kl, target, chainEntries, chain, root, sparse, hacc⟩ := accepted_of_ok h
  have hhead := List.getLast?_eq_some_getLast hacc.hchain
  obtain ⟨hhash, ⟨s, hs, ht⟩, -⟩ := head_same hX hacc hc (checkpoints_hashed hacc hL) hhead
  rw [hacc.target_eq, hacc.chain_eq]
  exact ⟨_, List.mem_of_getLast? hhead, hhash, by rw [targetSize, targetSize, hs, ht]⟩

/-- What a manifest says of the bundle that it holds in. -/
structure Listed (X : Crates) (bundle : Value) (hash : String) (hashes : List String) : Prop where
  target : checkpointBodyHash X (targetOf bundle) = some hash
  receipts : ∀ h, h ∈ hashes ↔ h ∈ (entriesOf bundle).filterMap (carriedHash X)

/-- The target and the receipts that a manifest names, read without any
check. -/
def namedIn (manifest : Value) : Option (String × List String) := do
  let body ← (manifest.get "body").filter Value.isObject
  let hash ← body.getStr "target_checkpoint_hash"
  let listed ← body.getArray "receipt_hashes"
  let hashes ← listed.mapM Value.asStr
  return (hash, hashes)

theorem listed_of_ok {bundle : Value} {trust : Option Value} (h : (verifyBundleFacts X bundle trust).ok = true)
    {m : Value} (hm : bundle.getSome "export_manifest" = some m) :
    ∃ hash hashes, namedIn m = some (hash, hashes) ∧ Listed X bundle hash hashes := by
  obtain ⟨kl, hman⟩ := manifest_of_ok h hm
  obtain ⟨raw, body, kid, ts, hraw, hbody, hts, hmatch⟩ := checkExportManifest_spec hman
  rw [hm] at hraw
  cases hraw
  obtain ⟨listed, hashes, hlisted, -, hhashes, hset⟩ := manifestListMatches_iff.mp hmatch
  unfold manifestTargetTime at hts
  split at hts
  · cases hts
  obtain ⟨origin, -, hts⟩ := Option.bind_eq_some_iff.mp hts
  split at hts
  · cases hts
  obtain ⟨hash, hhash, hts⟩ := Option.bind_eq_some_iff.mp hts
  obtain ⟨actual, hactual, hts⟩ := Option.bind_eq_some_iff.mp hts
  split at hts
  · cases hts
  rename_i hsame
  obtain rfl : hash = actual := by simpa using hsame
  refine ⟨hash, hashes, ?_, hactual, hset⟩
  simp [namedIn, hbody, hhash, hlisted, hhashes]

/-- What is carried is listed; and what is listed is carried, if it is among the
bytes hashed and hashes do not collide. -/
theorem Listed.carries {bundle : Value} {trust : Option Value} {hash : String} {hashes : List String}
    (h : Listed X bundle hash hashes) (hok : (verifyBundleFacts X bundle trust).ok = true) {L : List Bytes}
    (hL : viewHashed X bundle ⊆ L) (payload : Bytes) :
    (Carries X bundle payload → payload ∈ L ∧ hex (X.sha256 payload).val ∈ hashes) ∧
    (CollisionFree X L → payload ∈ L → hex (X.sha256 payload).val ∈ hashes → Carries X bundle payload) := by
  obtain ⟨entries, kl, target, chainEntries, chain, root, sparse, hacc⟩ := accepted_of_ok hok
  have hread : ∀ e ∈ entriesOf bundle, ∃ p, payloadOf X (e.index "envelope") = some p ∧ p ∈ L ∧
      carriedHash X e = some (hex (X.sha256 p).val) := by
    intro e he
    obtain ⟨i, p, R, -, hp, hpL, -⟩ := entry_opens hacc hL he
    obtain ⟨p', _, _, _, _, hchk⟩ := hacc.hchecked e (hacc.entries_eq ▸ he)
    obtain rfl : p = p' := Option.some.inj (hp.symm.trans hchk.hpayload)
    exact ⟨p, hp, hpL, carriedHash_checked hchk⟩
  refine ⟨?_, fun hc hin hlisted => ?_⟩
  · rintro ⟨e, he, hp⟩
    obtain ⟨p, hp', hpL, hh⟩ := hread e he
    obtain rfl : payload = p := Option.some.inj (hp.symm.trans hp')
    exact ⟨hpL, (h.receipts _).mpr (List.mem_filterMap.mpr ⟨e, he, hh⟩)⟩
  · obtain ⟨e, he, hh⟩ := List.mem_filterMap.mp ((h.receipts _).mp hlisted)
    obtain ⟨p, hp, hpL, hh'⟩ := hread e he
    rw [hh, Option.some.injEq] at hh'
    obtain rfl := hc _ hin _ hpL (Subtype.ext (hex_inj hh'))
    exact ⟨e, he, hp⟩

/-- **A manifest pins the export.** Two verified bundles, of whatever trust, under
one export manifest carry the same receipts, and are views of one log: one
payload for each leaf, and one root for each size, up to the target of both. -/
theorem manifest_pins_export (X : Crates) (hX : WriterLaws X) (a b : Value) (ta tb : Option Value)
    (ha : (verifyBundleFacts X a ta).ok = true) (hb : (verifyBundleFacts X b tb).ok = true) (m : Value)
    (hma : a.getSome "export_manifest" = some m) (hmb : b.getSome "export_manifest" = some m)
    (hc : CollisionFree X (viewHashed X a ++ viewHashed X b)) :
    (∀ payload, Carries X a payload ↔ Carries X b payload) ∧ AgreeBelow X a b (targetSize (targetOf a)) := by
  obtain ⟨hLa, hLb⟩ := List.append_subset.mp (List.Subset.refl (viewHashed X a ++ viewHashed X b))
  obtain ⟨hash, hashes, hnamed, hlist⟩ := listed_of_ok ha hma
  obtain ⟨hash', hashes', hnamed', hlist'⟩ := listed_of_ok hb hmb
  rw [hnamed] at hnamed'
  cases hnamed'
  refine ⟨fun payload => ⟨fun h => ?_, fun h => ?_⟩, ?_⟩
  · obtain ⟨hin, hl⟩ := (hlist.carries ha hLa payload).1 h
    exact (hlist'.carries hb hLb payload).2 hc hin hl
  · obtain ⟨hin, hl⟩ := (hlist'.carries hb hLb payload).1 h
    exact (hlist.carries ha hLa payload).2 hc hin hl
  · obtain ⟨cp, hcp, hh, hsize⟩ := target_in_chain hX ha hc hLa
    obtain ⟨cp', hcp', hh', -⟩ := target_in_chain hX hb hc hLb
    obtain ⟨d, hseen, hseen'⟩ := shared_below hX ha hb hc hLa hLb hcp hcp' (hh.trans hlist.target)
      (hh'.trans hlist'.target)
    rw [← hsize]
    exact hseen.agree hc hseen'

section
open SwarrmVerify.L1.Reference SwarrmVerify.L3.Published

theorem exported_pinned :
    (∀ payload, Carries exporting (exported [entry0, entry3]) payload ↔
      Carries exporting (exported [entry3, entry0, entry3]) payload) ∧
    AgreeBelow exporting (exported [entry0, entry3]) (exported [entry3, entry0, entry3]) 4 := by
  obtain ⟨ha, hb, -, hview⟩ := exported_checked
  have hc : CollisionFree exporting (viewHashed exporting (exported [entry0, entry3]) ++
      viewHashed exporting (exported [entry3, entry0, entry3])) := known_collisionFree.mono hview
  exact manifest_pins_export exporting (reference_writerLaws _ _ _) _ _ none none ha hb _ rfl rfl hc

end

end SwarrmVerify.L5.Exported
