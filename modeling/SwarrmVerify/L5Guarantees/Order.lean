import SwarrmVerify.L4Bundle.Reported
import SwarrmVerify.L5Guarantees.Authority

/-!
# The order of entries

A bundle lists its entries in any order. The key log sorts them, the manifest
compares sets, the sequence and lineage checks keep tables; each folds over the
array in its own way, and none of them sees the order of a bundle that
verifies.

The argument states each fold without the fold. A table that is filled row by
row and fails on a conflict is the statement that no two rows conflict; a list
that is sorted by leaves that tell its elements apart is determined by its
elements. The second needs that leaves do tell key-log entries apart, which is
where acceptance and collision-freeness come in: two entries at one leaf have
one hash, so they are one receipt with one sequence number.

**Hypotheses** of `order_independence`: the two bundles differ in the order of
`entries` only (`Relisted List.Perm`), and the bytes that the first one hashes
do not collide.

**Results.**
* `checkSeqUniqueness_iff`, `checkLineage_iff`: the tables, without a fold.
* `collectKeyEntries_perm`: key-log entries that their leaves tell apart sort
  alike in any order.
* `accepted_leaf_inj`: those of a verified bundle are told apart.
* `verified_perm`: a verified bundle verifies in any order of its entries.
* `order_independence`: the verdict is the same, and so is every reported fact
  but the order of the attested leaves.
-/
namespace SwarrmVerify.L5.Order
open SwarrmVerify.L1.Jcs SwarrmVerify.L3.Receipt SwarrmVerify.L3.Keys
open SwarrmVerify.L4.Checkpoint SwarrmVerify.L4.Continuity SwarrmVerify.L4.Entries SwarrmVerify.L4.Bundle
open SwarrmVerify.L5.Membership SwarrmVerify.L5.Authority

variable {X : Crates}

/-! ## Two layouts of one bundle -/

/-- Two bundles that differ in the array under `entries` only, in the way that
`R` says. Whatever reads another member reads the same. -/
inductive Relisted (R : List Value → List Value → Prop) : Value → Value → Prop where
  | mk (before after : List (String × Value)) {es es' : List Value} (hr : R es es')
      (hfirst : ∀ p ∈ before, p.1 ≠ "entries") :
      Relisted R (.object (before ++ ("entries", .array es) :: after))
        (.object (before ++ ("entries", .array es') :: after))

namespace Relisted
variable {R : List Value → List Value → Prop} {b b' : Value}

theorem symm (hR : ∀ {l l'}, R l l' → R l' l) (h : Relisted R b b') : Relisted R b' b := by
  obtain ⟨before, after, hr, hfirst⟩ := h
  exact .mk before after (hR hr) hfirst

theorem get (h : Relisted R b b') {k : String} (hk : k ≠ "entries") : b'.get k = b.get k := by
  obtain ⟨before, after, _, _⟩ := h
  have hne : (k == "entries") = false := beq_false_of_ne hk
  simp only [Value.get, List.lookup_append, List.lookup_cons, hne]

theorem getStr (h : Relisted R b b') {k : String} (hk : k ≠ "entries") : b'.getStr k = b.getStr k := by
  rw [Value.getStr, Value.getStr, h.get hk]

theorem getArray (h : Relisted R b b') {k : String} (hk : k ≠ "entries") : b'.getArray k = b.getArray k := by
  rw [Value.getArray, Value.getArray, h.get hk]

theorem getSome (h : Relisted R b b') {k : String} (hk : k ≠ "entries") : b'.getSome k = b.getSome k := by
  rw [Value.getSome, Value.getSome, h.get hk]

theorem index (h : Relisted R b b') {k : String} (hk : k ≠ "entries") : b'.index k = b.index k := by
  rw [Value.index, Value.index, h.get hk]

theorem entries (h : Relisted R b b') :
    ∃ es es', b.getArray "entries" = some es ∧ b'.getArray "entries" = some es' ∧ R es es' := by
  obtain ⟨before, after, hr, hfirst⟩ := h
  have hnone : before.lookup "entries" = none := by
    rw [List.lookup_eq_none_iff]
    intro p hp
    exact bne_iff_ne.mpr fun he => hfirst p hp he.symm
  refine ⟨_, _, ?_, ?_, hr⟩ <;>
    simp [Value.getArray, Value.get, List.lookup_append, hnone, Value.asArray]

end Relisted

/-! ## Caps -/

theorem numbersMatchItems_eq (integersOnly : Bool) (limit : Int) (xs : List Value) :
    numbersMatchItems X integersOnly xs limit = xs.all fun x => numbersMatch X integersOnly x limit := by
  induction xs with
  | nil => rfl
  | cons x xs ih => rw [numbersMatchItems, ih, List.all_cons]

theorem numbersMatchMembers_append (integersOnly : Bool) (limit : Int) (xs ys : List (String × Value)) :
    numbersMatchMembers X integersOnly (xs ++ ys) limit =
      (numbersMatchMembers X integersOnly xs limit && numbersMatchMembers X integersOnly ys limit) := by
  induction xs with
  | nil => rfl
  | cons x xs ih => simp only [List.cons_append, numbersMatchMembers, ih, Bool.and_assoc]

theorem numbersWithinProfile_perm {b b' : Value} (h : Relisted List.Perm b b') :
    numbersWithinProfile X b' = numbersWithinProfile X b := by
  obtain ⟨before, after, hr, _⟩ := h
  simp only [numbersWithinProfile, numbersMatch, numbersMatchMembers_append, numbersMatchMembers,
    numbersMatchItems_eq, hr.all_eq]

theorem withinCaps_perm {b b' : Value} (h : Relisted List.Perm b b') : withinCaps X b' = withinCaps X b := by
  obtain ⟨es, es', hes, hes', hp⟩ := h.entries
  simp only [withinCaps, hes, hes', h.getArray (k := "checkpoint_chain") (by decide), numbersWithinProfile_perm h, Option.all_some, hp.length_eq,
    hp.all_eq]

/-! ## The manifest and the tables -/

theorem manifestListMatches_perm (body : Value) {es es' : List Value} (hp : es.Perm es') :
    manifestListMatches X body es' = manifestListMatches X body es := by
  have hset : (es'.filterMap fun e => (e.get "envelope").bind (receiptHashHex X)).toFinset =
      (es.filterMap fun e => (e.get "envelope").bind (receiptHashHex X)).toFinset :=
    List.toFinset_eq_of_perm _ _ (hp.symm.filterMap _)
  simp only [manifestListMatches, hset]

theorem seqLoop_of (l : List ((String × Int) × String)) :
    ∀ pairs, (∀ k rh rh', (k, rh) ∈ l → pairs.lookup k = some rh' → rh = rh') →
      (∀ k rh rh', (k, rh) ∈ l → (k, rh') ∈ l → rh = rh') → seqLoop l pairs = true := by
  induction l with
  | nil => intro _ _ _; rfl
  | cons x l ih =>
    obtain ⟨j, h⟩ := x
    intro pairs hold hnew
    have hnew' : ∀ k rh rh', (k, rh) ∈ l → (k, rh') ∈ l → rh = rh' := fun k rh rh' hk hk' =>
      hnew k rh rh' (List.mem_cons_of_mem _ hk) (List.mem_cons_of_mem _ hk')
    unfold seqLoop
    split
    · rename_i prev hprev
      have : h = prev := hold j h prev List.mem_cons_self hprev
      simp only [this, bne_self_eq_false, Bool.false_eq_true, if_false]
      exact ih pairs (fun k rh rh' hk => hold k rh rh' (List.mem_cons_of_mem _ hk)) hnew'
    · refine ih _ (fun k rh rh' hk hl => ?_) hnew'
      by_cases hkj : k = j
      · subst hkj
        rw [AList.lookup_insert] at hl
        exact hnew k rh rh' (List.mem_cons_of_mem _ hk) (Option.some.inj hl ▸ List.mem_cons_self)
      · rw [AList.lookup_insert_ne hkj] at hl
        exact hold k rh rh' (List.mem_cons_of_mem _ hk) hl

/-- The table of the sequence check, without the table: entries of one agent and
number have one hash. -/
theorem checkSeqUniqueness_iff {entries : List Value} : checkSeqUniqueness X entries = true ↔
    ∀ k rh rh', (k, rh) ∈ entries.filterMap (seqKey X) → (k, rh') ∈ entries.filterMap (seqKey X) → rh = rh' := by
  refine ⟨fun h => (seqLoop_spec _ _ h).2, fun h => seqLoop_of _ _ ?_ h⟩
  intro k rh rh' _ hl
  cases hl

theorem checkSeqUniqueness_perm {es es' : List Value} (hp : es.Perm es') :
    checkSeqUniqueness X es' = checkSeqUniqueness X es := by
  rw [Bool.eq_iff_iff, checkSeqUniqueness_iff, checkSeqUniqueness_iff]
  simp only [(hp.filterMap (seqKey X)).mem_iff]

/-- The lineage items of one agent in order. -/
def itemsOf (items : List (String × LineageItem)) (agent : String) : List LineageItem :=
  (items.filter fun i => i.1 == agent).map Prod.snd

theorem lineageFold_lookup (items : List (String × LineageItem)) (agent : String) :
    ∀ t : Table (List LineageItem),
      ((items.foldl (fun t i => t.insert i.1 (((t.lookup i.1).getD []) ++ [i.2])) t).lookup agent).getD [] =
        (t.lookup agent).getD [] ++ itemsOf items agent := by
  induction items with
  | nil => intro t; simp [itemsOf]
  | cons i items ih =>
    intro t
    rw [List.foldl_cons, ih]
    by_cases hi : i.1 = agent
    · subst hi
      simp [AList.lookup_insert, itemsOf]
    · have : (i.1 == agent) = false := beq_false_of_ne hi
      rw [AList.lookup_insert_ne (Ne.symm hi)]
      simp [itemsOf, this]

/-- What the table of lineages has for an agent: its items, in the order of the
array. -/
theorem collectLineage_lookup (entries : List Value) (agent : String) :
    ((collectLineage X entries).lookup agent).getD [] = itemsOf (entries.filterMap (lineageItem X)) agent := by
  have := lineageFold_lookup (entries.filterMap (lineageItem X)) agent ∅
  rwa [AList.lookup_empty, Option.getD_none, List.nil_append] at this

/-- The lineage table, without the table: an agent with no items passes, so all
agents may be asked. -/
theorem checkLineage_iff {entries : List Value} : checkLineage X entries = true ↔
    ∀ agent, checkAgentLineage (itemsOf (entries.filterMap (lineageItem X)) agent) = true := by
  simp only [← collectLineage_lookup]
  unfold checkLineage
  rw [List.all_eq_true]
  constructor
  · intro h agent
    cases hl : (collectLineage X entries).lookup agent with
    | none => rfl
    | some items => exact h ⟨agent, items⟩ (AList.mem_lookup_iff.mp hl)
  · intro h a ha
    have hl : (collectLineage X entries).lookup a.1 = some a.2 := AList.mem_lookup_iff.mpr ha
    simpa [hl] using h a.1

theorem checkAgentLineage_perm {items items' : List LineageItem} (hp : items.Perm items') :
    checkAgentLineage items' = checkAgentLineage items := by
  have hvalid : ((items.filter fun i => i.action == "lineage.revised" || isEstablishment i).map (·.hash)).Perm
      ((items'.filter fun i => i.action == "lineage.revised" || isEstablishment i).map (·.hash)) :=
    (hp.filter _).map _
  have hcontains : ∀ rv, List.contains _ rv = List.contains _ rv := fun rv => hvalid.contains_eq (a := rv)
  have hest := hp.filter isEstablishment
  unfold checkAgentLineage
  dsimp only
  generalize items.filter isEstablishment = est at hest
  match est, hest with
  | [], hest =>
    rw [hest.symm.eq_nil]
    simp only [checkLineageOrphan, hp.all_eq, hvalid.isEmpty_eq, hcontains]
  | [birth], hest =>
    rw [hest.symm.eq_singleton]
    simp only [checkLineageEstablished, hp.all_eq, hcontains]
  | a :: c :: rest, hest =>
    obtain ⟨a', c', rest', he⟩ : ∃ a' c' rest', items'.filter isEstablishment = a' :: c' :: rest' := by
      match items'.filter isEstablishment, hest.length_eq with
      | a' :: c' :: rest', _ => exact ⟨a', c', rest', rfl⟩
    rw [he]

theorem checkLineage_perm {es es' : List Value} (hp : es.Perm es') : checkLineage X es' = checkLineage X es := by
  have hitems : ∀ agent, (itemsOf (es.filterMap (lineageItem X)) agent).Perm
      (itemsOf (es'.filterMap (lineageItem X)) agent) := fun agent => ((hp.filterMap _).filter _).map _
  rw [Bool.eq_iff_iff, checkLineage_iff, checkLineage_iff]
  simp only [checkAgentLineage_perm (hitems _)]

/-! ## The key log -/

/-- Entries that their leaves tell apart sort alike in any order. Insertion is
stable, so without that proviso the order of the array would show. -/
theorem collectKeyEntries_perm {es es' : List Value} (hp : es.Perm es')
    (hinj : ∀ a ∈ collectKeyEntries X es, ∀ b ∈ collectKeyEntries X es, a.leaf = b.leaf → a = b) :
    collectKeyEntries X es' = collectKeyEntries X es := by
  have hsorted : ∀ l, (collectKeyEntries X l).Pairwise fun a b => a.leaf ≤ b.leaf := by
    intro l
    exact List.pairwise_insertionSort (fun a b : KeyEntry => a.leaf ≤ b.leaf) _
  have hperm : (collectKeyEntries X es').Perm (collectKeyEntries X es) :=
    (List.perm_insertionSort _ _).trans ((hp.symm.filterMap _).trans (List.perm_insertionSort _ _).symm)
  refine hperm.eq_of_pairwise (fun a b ha hb hab hba => ?_) (hsorted es') (hsorted es)
  exact hinj a (hperm.mem_iff.mp ha) b hb (UInt64.le_antisymm hab hba)

/-- In a verified bundle the leaf tells key-log entries apart: two at one leaf
are one receipt, and a receipt has one sequence number, of which there is one
entry. -/
theorem accepted_leaf_inj {bundle target : Value} {entries chainEntries chain : List Value} {kl : KeyLog}
    {root : Bytes} {sparse : Bool} (hacc : Accepted X bundle entries kl target chainEntries chain root sparse)
    (hc : CollisionFree X (hashedBytes X bundle)) :
    ∀ a ∈ collectKeyEntries X entries, ∀ b ∈ collectKeyEntries X entries, a.leaf = b.leaf → a = b := by
  intro a ha b hb he
  have hok := hacc.hok
  rw [← hacc.hreplay] at hok
  -- the two entries are checked under one root
  have hchecked : ∀ k ∈ collectKeyEntries X entries, ∃ e ∈ entries, ∃ payload body sigs proof,
      Checked X e kl (targetSize target) root payload body k.leaf sigs proof ∧ body = k.body := by
    intro k hk
    rw [← hacc.entries_eq] at hk
    obtain ⟨e, hmem, hke⟩ := mem_keyLogOf.mp hk
    rw [hacc.entries_eq] at hmem
    obtain ⟨hleaf, _, hbody, _⟩ := keyEntry_spec hke
    obtain ⟨payload, body, leaf, sigs, proof, hchk⟩ := hacc.hchecked e hmem
    rw [hchk.hleaf, Option.getD_some] at hleaf
    subst hleaf
    exact ⟨e, hmem, payload, body, sigs, proof, hchk, Option.some.inj (hchk.hbody.symm.trans hbody)⟩
  obtain ⟨e, hmem, payload, body, sigs, proof, hchk, hab⟩ := hchecked a ha
  obtain ⟨e', hmem', payload', body', sigs', proof', hchk', hbb⟩ := hchecked b hb
  rw [← he] at hchk'
  have hL : ∀ x ∈ entries, entryHashed X (targetSize target) x ⊆ hashedBytes X bundle := by
    intro x hx
    rw [← hacc.target_eq]
    exact entryHashed_subset (hacc.entries_eq ▸ hx)
  have hpay := same_leaf_payload hc hchk hchk' (hL e hmem) (hL e' hmem')
  have hbody : body = body' := by
    have h1 := hchk.hcanon
    rw [hpay, hchk'.hcanon] at h1
    exact (Option.some.inj h1).symm
  refine keyEntries_seq_inj (replayKeyLog_ok hok).1 ha hb ?_
  rw [seqOf, seqOf, ← hab, ← hbb, hbody]

theorem replayKeyLog_perm {bundle target : Value} {entries es' chainEntries chain : List Value} {kl : KeyLog}
    {root : Bytes} {sparse : Bool} (hacc : Accepted X bundle entries kl target chainEntries chain root sparse)
    (hc : CollisionFree X (hashedBytes X bundle)) (hp : entries.Perm es') : replayKeyLog X es' = kl := by
  rw [← hacc.hreplay]
  simp only [replayKeyLog, collectKeyEntries_perm hp (accepted_leaf_inj hacc hc)]

/-! ## The entry loop -/

/-- The leaf the loop attests for an entry, if any. -/
def attestedLeaf (X : Crates) (kl : KeyLog) (trust : Option Value) (e : Value) : Option UInt64 :=
  if entryRecorderAttested X (e.index "envelope") kl trust then e.getU64 "leaf_index" else none

/-- When every entry passes, the loop attests the leaves one by one, and no
entry bears on another. -/
theorem entriesLoop_attested {kl : KeyLog} {trust : Option Value} {size : UInt64} {root : Bytes}
    {covers : List (UInt64 × Int)} {tenant : String} (es : List Value) :
    ∀ attested, (entriesLoop X kl trust size root covers tenant es attested).1 = true →
      (entriesLoop X kl trust size root covers tenant es attested).2 =
        attested ++ es.filterMap (attestedLeaf X kl trust) := by
  induction es with
  | nil => intro attested _; simp [entriesLoop]
  | cons e es ih =>
    intro attested h
    unfold entriesLoop at h ⊢
    split at h
    · cases h
    rename_i hc
    rw [if_neg hc]
    split at h
    · rename_i hrec
      rw [if_pos hrec]
      split at h
      · cases h
      · rename_i leaf hleaf
        rw [ih _ h]
        simp [attestedLeaf, hrec, hleaf]
    · rename_i hrec
      rw [if_neg hrec, ih _ h]
      simp [attestedLeaf, hrec]

theorem checkEntries_perm {es es' chain : List Value} {target : Value} {kl : KeyLog} {trust : Option Value}
    (hp : es.Perm es') (h : (checkEntries X es target chain kl trust).1 = true) :
    (checkEntries X es' target chain kl trust).1 = true ∧
      (checkEntries X es target chain kl trust).2.Perm (checkEntries X es' target chain kl trust).2 := by
  unfold checkEntries at h ⊢
  dsimp only at h ⊢
  split at h
  · have h' := h
    rw [entriesLoop_ok, hp.all_eq, ← @entriesLoop_ok X kl trust _ _ _ _ es' []] at h'
    refine ⟨h', ?_⟩
    rw [entriesLoop_attested _ _ h, entriesLoop_attested _ _ h', List.nil_append, List.nil_append]
    exact hp.filterMap _
  · cases h

/-! ## The verdict -/

/-- The later stages read the entries they are given, not the bundle's own
array. -/
theorem checks_relisted {R : List Value → List Value → Prop} {b b' : Value} (h : Relisted R b b')
    (es : List Value) (kl : KeyLog) (trust : Option Value) (facts : BundleFacts) :
    checkCheckpointsAndEntries X b' es kl trust facts = checkCheckpointsAndEntries X b es kl trust facts := by
  have horigin := h.get (k := "origin") (by decide)
  have htarget := h.get (k := "target_checkpoint") (by decide)
  have hpresented := presentedChain_agree (h.get (k := "checkpoint_chain") (by decide))
  have hset := checkEntrySet_agree (X := X) horigin (h.get (by decide)) es
  have hchain := checkChainAndLineage_agree (X := X) horigin (h.get (by decide)) es
  have hrecords := checkAttestationRecords_agree (X := X) (h.get (by decide)) (h.get (by decide))
  have hcontinuity : ∀ chain, assessContinuity X b' chain kl = assessContinuity X b chain kl := by
    intro chain
    simp only [assessContinuity, continuityAuthority, h.getSome (k := "continuity") (by decide),
      h.index (k := "target_checkpoint") (by decide), horigin]
  simp only [checkCheckpointsAndEntries, htarget, hpresented, hset, hchain, hrecords, hcontinuity]

/-- Two results that differ in the order of the attested leaves only. -/
structure SameUpToOrder (f f' : BundleFacts) : Prop where
  complete : f.complete = f'.complete
  present : f.continuityPresent = f'.continuityPresent
  cover : f.continuityOk = f'.continuityOk
  gaps : f.continuityGaps = f'.continuityGaps
  chainSizes : f.chainSizes = f'.chainSizes
  origin : f.originAttested = f'.originAttested
  attested : f.recorderAttested.Perm f'.recorderAttested

theorem checkExportManifest_perm (bundle target : Value) (kl : KeyLog) {es es' : List Value} (hp : es.Perm es') :
    checkExportManifest X bundle es' target kl = checkExportManifest X bundle es target kl := by
  simp only [checkExportManifest, manifestListMatches_perm _ hp]

theorem checks_perm {bundle : Value} {es es' : List Value} {kl : KeyLog} {trust : Option Value}
    {facts : BundleFacts} (hp : es.Perm es')
    (h : (checkCheckpointsAndEntries X bundle es kl trust facts).1 = true) :
    (checkCheckpointsAndEntries X bundle es' kl trust facts).1 = true ∧
      SameUpToOrder (checkCheckpointsAndEntries X bundle es kl trust facts).2
        (checkCheckpointsAndEntries X bundle es' kl trust facts).2 := by
  unfold checkCheckpointsAndEntries at h ⊢
  split at h
  case h_2 => cases h
  rename_i target chainEntries chain htarget hpresented
  split at h
  · cases h
  rename_i hne
  simp only [if_neg hne] at h ⊢
  split at h
  · cases h
  rename_i hset
  -- the entry set of the other order passes too
  have hentries : (checkEntries X es target chain kl trust).1 = true := by
    simp only [checkEntrySet, Bool.not_eq_true', Bool.not_eq_false, Bool.and_eq_true] at hset
    exact hset.1.1
  obtain ⟨hok', hattested⟩ := checkEntries_perm hp hentries
  have hverdict : (checkEntrySet X bundle es' target chain kl trust facts).1 =
      (checkEntrySet X bundle es target chain kl trust facts).1 := by
    simp only [checkEntrySet, hok', hentries, checkExportManifest_perm _ _ _ hp, checkSeqUniqueness_perm hp]
  have hchain : checkChainAndLineage X bundle es' target chain chainEntries kl =
      checkChainAndLineage X bundle es target chain chainEntries kl := by
    simp only [checkChainAndLineage, checkLineage_perm hp]
  have hfacts : SameUpToOrder (checkEntrySet X bundle es target chain kl trust facts).2
      (checkEntrySet X bundle es' target chain kl trust facts).2 :=
    ⟨(checkExportManifest_perm _ _ _ hp).symm, rfl, rfl, rfl, rfl, rfl, hattested.append_left _⟩
  simp only [hverdict, hchain, if_neg hset]
  split at h
  · cases h
  rename_i hlinks
  simp only [if_neg hlinks]
  split at h
  · cases h
  rename_i checkpoints hcheckpoints
  split at h
  · cases h
  rename_i hrecords
  simp only [if_neg hrecords, true_and]
  exact ⟨hfacts.complete, rfl, rfl, rfl, rfl, hfacts.origin, hfacts.attested⟩

theorem admitted_perm {b b' : Value} {entries : List Value} {kl : KeyLog} (h : Relisted List.Perm b b')
    (hadm : admitted X b = some (entries, kl)) (hreplay : ∀ es', entries.Perm es' → replayKeyLog X es' = kl) :
    ∃ entries', entries.Perm entries' ∧ admitted X b' = some (entries', kl) := by
  obtain ⟨es, es', hes, hes', hp⟩ := h.entries
  obtain ⟨hb, hkl, _, _⟩ := admitted_spec hadm
  obtain rfl : es = entries := by rw [hes] at hb; exact Option.some.inj hb
  refine ⟨es', hp, ?_⟩
  have hschema := h.getStr (k := "schema") (by decide)
  have hjwks : checkJwksMatchLog X b' kl = checkJwksMatchLog X b kl := by
    simp only [checkJwksMatchLog, h.get (k := "jwks") (by decide)]
  have hempty : es'.isEmpty = es.isEmpty := hp.symm.isEmpty_eq
  have hany : (es'.any fun e => (bodyOf X (e.index "envelope")).any fun body =>
      forbiddenManagedEdgeCosign body (e.index "envelope")) =
      es.any fun e => (bodyOf X (e.index "envelope")).any fun body =>
        forbiddenManagedEdgeCosign body (e.index "envelope") := hp.symm.any_eq
  unfold admitted at hadm ⊢
  simp only [hes, hes', Option.getD_some, hkl, hreplay es' hp, hschema, hjwks, withinCaps_perm h, hempty,
    hany] at hadm ⊢
  split at hadm
  · cases hadm
  rename_i h1
  split at hadm
  · cases hadm
  rename_i h2
  split at hadm
  · cases hadm
  rename_i h3
  split at hadm
  · cases hadm
  rename_i h4
  split at hadm
  · cases hadm
  rename_i h5
  split at hadm
  · cases hadm
  rename_i h6
  rw [if_neg h1, if_neg h2, if_neg h3, if_neg h4, if_neg h5, if_neg h6]

/-- A verified bundle verifies in any order of its entries, and reports the same
up to order. -/
theorem verified_perm {b b' : Value} {trust : Option Value} (h : Relisted List.Perm b b')
    (hc : CollisionFree X (hashedBytes X b)) (hok : (verifyBundleFacts X b trust).ok = true) :
    (verifyBundleFacts X b' trust).ok = true ∧
      SameUpToOrder (verifyBundleFacts X b trust) (verifyBundleFacts X b' trust) := by
  obtain ⟨entries, kl, target, chainEntries, chain, root, sparse, hacc⟩ := accepted_of_ok hok
  unfold verifyBundleFacts at hok
  split at hok
  · cases hok
  rename_i entries₁ kl₁ hadm
  obtain ⟨hentries, hreplay, _, _⟩ := admitted_spec hadm
  obtain rfl : entries₁ = entries := Option.some.inj (hentries.symm.trans hacc.hentries)
  obtain rfl : kl₁ = kl := hreplay.symm.trans hacc.hreplay
  obtain ⟨entries', hp, hadm'⟩ := admitted_perm h hadm fun es' hp => replayKeyLog_perm hacc hc hp
  dsimp only at hok
  split at hok
  case isFalse => cases hok
  rename_i hr
  obtain ⟨hr', hsame⟩ := checks_perm hp hr
  have hrel := checks_relisted (X := X) h entries' kl₁ trust {}
  rw [← hrel] at hr' hsame
  have horigin : originAttested X b' kl₁ trust = originAttested X b kl₁ trust := by
    rw [originAttested, originAttested, h.getStr (by decide), h.index (by decide)]
  simp only [verifyBundleFacts, hadm, hadm', hr, hr', if_true, true_and]
  exact ⟨hsame.complete, hsame.present, hsame.cover, hsame.gaps, hsame.chainSizes, horigin.symm, hsame.attested⟩

/-- What a verification hashes does not depend on the order, so neither does the
hypothesis of the main result. -/
theorem hashedBytes_perm {b b' : Value} (h : Relisted List.Perm b b') : hashedBytes X b' ⊆ hashedBytes X b := by
  obtain ⟨es, es', hes, hes', hp⟩ := h.entries
  have hlinks : linksOf b' = linksOf b := by
    simp only [linksOf, presentedChain, h.getArray (k := "checkpoint_chain") (by decide)]
  have htarget : targetOf b' = targetOf b := h.index (by decide)
  have hflat : (entriesOf b').flatMap (entryHashed X (targetSize (targetOf b))) ⊆
      (entriesOf b).flatMap (entryHashed X (targetSize (targetOf b))) := by
    intro x hx
    obtain ⟨e, he, hx⟩ := List.mem_flatMap.mp hx
    refine List.mem_flatMap.mpr ⟨e, ?_, hx⟩
    rw [entriesOf, hes'] at he
    rw [entriesOf, hes]
    exact hp.mem_iff.mpr he
  simp only [hashedBytes, chainOf, hlinks, htarget]
  intro x hx
  simp only [List.mem_append] at hx ⊢
  rcases hx with (hx | hx) | hx
  · exact .inl (.inl (hflat hx))
  · exact .inl (.inr hx)
  · exact .inr hx

/-- **Order independence.** Permuting the entries changes neither the verdict
nor, for a bundle that verifies, any fact but the order of the attested
leaves. -/
theorem order_independence (X : Crates) (b b' : Value) (trust : Option Value) (h : Relisted List.Perm b b')
    (hc : CollisionFree X (hashedBytes X b)) :
    (verifyBundleFacts X b trust).ok = (verifyBundleFacts X b' trust).ok ∧
    ((verifyBundleFacts X b trust).ok = true →
      (verifyBundleFacts X b trust).complete = (verifyBundleFacts X b' trust).complete ∧
      (verifyBundleFacts X b trust).continuityPresent = (verifyBundleFacts X b' trust).continuityPresent ∧
      (verifyBundleFacts X b trust).continuityOk = (verifyBundleFacts X b' trust).continuityOk ∧
      (verifyBundleFacts X b trust).continuityGaps = (verifyBundleFacts X b' trust).continuityGaps ∧
      (verifyBundleFacts X b trust).chainSizes = (verifyBundleFacts X b' trust).chainSizes ∧
      (verifyBundleFacts X b trust).originAttested = (verifyBundleFacts X b' trust).originAttested ∧
      (verifyBundleFacts X b trust).recorderAttested.Perm (verifyBundleFacts X b' trust).recorderAttested) := by
  constructor
  · rw [Bool.eq_iff_iff]
    refine ⟨fun hok => (verified_perm h hc hok).1, fun hok => ?_⟩
    exact (verified_perm (h.symm List.Perm.symm) (hc.mono (hashedBytes_perm h)) hok).1
  · intro hok
    have hsame := (verified_perm h hc hok).2
    exact ⟨hsame.complete, hsame.present, hsame.cover, hsame.gaps, hsame.chainSizes, hsame.origin,
      hsame.attested⟩

section
open SwarrmVerify.L3.Published

/-- The published log verifies in the reverse order too. -/
theorem published_reversed :
    (verifyBundleFacts crates (bundle [entry3, entry2, entry1, entry0]) none).ok = true := by
  have hrel : Relisted List.Perm published (bundle [entry3, entry2, entry1, entry0]) :=
    .mk [("checkpoint_chain", _)] _ (List.reverse_perm [entry3, entry2, entry1, entry0]) (by decide)
  have hc : CollisionFree crates (hashedBytes crates published) := by
    have := published_collisionFree (L := []) (fun b hb => by cases hb)
    rwa [List.append_nil] at this
  rw [← (order_independence crates _ _ none hrel hc).1]
  exact published_ok

end

end SwarrmVerify.L5.Order
