import SwarrmVerify.L4Action.Listings
import SwarrmVerify.L5Guarantees.Order
import SwarrmVerify.L5Guarantees.Roots

/-!
# The layout of rows

An export may list a row more than once, and in any place. The bundle check
tolerates it, and the authority facts are meant not to see it. They do see it
when a row that contradicts its own repetition is repeated: an enrolment that
does not name itself as its predecessor is then a second, unlinked root.

Rows of one leaf of a verified bundle differ in their signers only, so a bundle
has one row for each leaf up to these (`distinctRows`), and its own rows are a
listing of them (`L4Action.Listings`). What the facts of an intent read is then
three things: whether the rows conflict, whether the agent is established once,
and the signers of the intent (`SameReading`).

**Hypotheses** of `layout_iff`: both bundles verify; they have the same set of
entries (`SameEntries`), in any order and any number, and differ in nothing
else; what the first hashes does not collide.

**Results.**
* `rows_leaf_inj`: rows of one leaf differ in their signers only.
* `distinct_same`: one row for each leaf depends on the set of entries only.
* `factsWith_eq_iff`: two readings of one intent give the same facts exactly
  if the identities and the grants are the same.
* `layout_iff`: two layouts have the same facts exactly if they agree on what
  the facts read.
* `layout_conflict`: the enrolment listed twice, on which they do not.
-/
namespace SwarrmVerify.L5.Layout
open SwarrmVerify.L1.Jcs SwarrmVerify.L3.Receipt SwarrmVerify.L3.Keys
open SwarrmVerify.L4.Checkpoint SwarrmVerify.L4.Entries SwarrmVerify.L4.Bundle SwarrmVerify.L4.Action
open SwarrmVerify.L4.Listings
open SwarrmVerify.L5.Membership SwarrmVerify.L5.Order Neighbours

variable {X : Crates}

/-! ## Rows of a verified bundle -/

theorem numbersMatchItems_mem {integersOnly : Bool} {limit : Int} {xs : List Value} {x : Value}
    (h : numbersMatchItems X integersOnly xs limit = true) (hx : x ∈ xs) :
    numbersMatch X integersOnly x limit = true := by
  rw [numbersMatchItems_eq, List.all_eq_true] at h
  exact h x hx

theorem numbersMatch_get {integersOnly : Bool} {limit : Int} {v x : Value} {k : String}
    (h : numbersMatch X integersOnly v limit = true) (hx : v.get k = some x) :
    numbersMatch X integersOnly x (limit - 1) = true := by
  cases v with
  | object m =>
    rw [numbersMatch, Bool.and_eq_true] at h
    replace h := h.2
    change m.lookup k = some x at hx
    induction m with
    | nil => cases hx
    | cons p m ih =>
      rw [numbersMatchMembers, Bool.and_eq_true] at h
      rw [List.lookup_cons] at hx
      split at hx
      · cases hx; exact h.1
      · exact ih h.2 hx
  | _ => cases hx

/-- A leaf index of a verified bundle reads as an `i64`. -/
theorem leaf_read {bundle e : Value} {entries : List Value} {kl : KeyLog} {leaf : UInt64}
    (hadm : admitted X bundle = some (entries, kl)) (he : e ∈ entries) (hleaf : e.getU64 "leaf_index" = some leaf) :
    e.getI64 "leaf_index" = some (leaf.toNat : Int) := by
  have hentries := (admitted_spec hadm).1
  have hcaps : withinCaps X bundle = true := by
    unfold admitted at hadm
    dsimp only at hadm
    split at hadm
    · cases hadm
    split at hadm
    · cases hadm
    · rename_i hcaps
      simpa using hcaps
  rw [withinCaps, Bool.and_eq_true] at hcaps
  obtain ⟨array, harray, hasArray⟩ := Option.bind_eq_some_iff.mp hentries
  obtain ⟨number, hnumber, hasU64⟩ := Option.bind_eq_some_iff.mp hleaf
  have hmatch := numbersMatch_get hcaps.2 harray
  cases array with
  | array xs =>
    obtain rfl : xs = entries := Option.some.inj hasArray
    rw [numbersMatch, Bool.and_eq_true] at hmatch
    have hnum := numbersMatch_get (numbersMatchItems_mem hmatch.2 he) hnumber
    obtain rfl := Value.asU64_eq_some hasU64
    rw [numbersMatch, Bool.and_eq_true] at hnum
    have hlt : leaf.toNat < 2 ^ 63 := by
      by_contra hge
      have hunsafe : ¬ (leaf.toNat : Int) ≤ maxSafeInteger := by
        rw [maxSafeInteger]
        omega
      have htext := hnum.2
      rw [numberText, Number.asI64, if_neg hge, Number.asU64] at htext
      simp only [if_neg hunsafe] at htext
      cases htext
    rw [Value.getI64, hnumber, Option.bind_some, Value.asI64, Number.asI64, if_pos hlt]
  | _ => cases hasArray

theorem admitted_of_ok {bundle : Value} {trust : Option Value} (h : (verifyBundleFacts X bundle trust).ok = true) :
    ∃ entries kl, admitted X bundle = some (entries, kl) := by
  unfold verifyBundleFacts at h
  cases hadm : admitted X bundle with
  | none => rw [hadm] at h; cases h
  | some p => exact ⟨p.1, p.2, rfl⟩

/-- The row of an entry is read off its leaf index, its payload and the key ids
of its signatures. -/
theorem entryRow_spec {e body : Value} {payload : Bytes} {r : Rec}
    (hpayload : payloadOf X (e.index "envelope") = some payload)
    (hbody : bodyOf X (e.index "envelope") = some body) (h : entryRow X e = some r) :
    unsigned r = { leaf := (e.getI64 "leaf_index").getD (-1), agent := (body.getStr "agent_id").getD ""
                   action := (body.getStr "action_type").getD "", ctx := (obj body "context").getD (.object [])
                   commitments := (obj body "commitments").getD (.object [])
                   rh := hex (X.sha256 payload).val, signerKids := [] } := by
  unfold entryRow at h
  simp only [hbody, receiptHashHex, hpayload, Option.map_some, Option.bind_eq_bind, Option.bind_some, Option.pure_def,
    Option.some.injEq] at h
  subst h
  rfl

theorem mem_entryRows {bundle : Value} {r : Rec} :
    r ∈ entryRows X bundle ↔ ∃ e ∈ entriesOf bundle, entryRow X e = some r := by
  rw [entryRows, List.mem_insertionSort, List.mem_filterMap]
  rfl

/-- Rows of one leaf differ in their signers only. -/
theorem rows_leaf_inj {bundle : Value} {trust : Option Value} (hok : (verifyBundleFacts X bundle trust).ok = true)
    (hc : CollisionFree X (hashedBytes X bundle)) {r q : Rec} (hr : r ∈ entryRows X bundle)
    (hq : q ∈ entryRows X bundle) (hleaf : r.leaf = q.leaf) : unsigned r = unsigned q := by
  obtain ⟨es, kl, hadm⟩ := admitted_of_ok hok
  obtain ⟨entries, kl', target, chainEntries, chain, root, sparse, hacc⟩ := accepted_of_ok hok
  obtain rfl : es = entries := Option.some.inj ((admitted_spec hadm).1.symm.trans hacc.hentries)
  obtain ⟨e, he, hre⟩ := mem_entryRows.mp hr
  obtain ⟨e', he', hqe⟩ := mem_entryRows.mp hq
  rw [hacc.entries_eq] at he he'
  obtain ⟨payload, body, leaf, sigs, proof, hchk⟩ := hacc.hchecked e he
  obtain ⟨payload', body', leaf', sigs', proof', hchk'⟩ := hacc.hchecked e' he'
  have hrow := entryRow_spec hchk.hpayload hchk.hbody hre
  have hrow' := entryRow_spec hchk'.hpayload hchk'.hbody hqe
  rw [leaf_read hadm he hchk.hleaf] at hrow
  rw [leaf_read hadm he' hchk'.hleaf] at hrow'
  -- one leaf, one payload
  have hsame : leaf = leaf' := by
    have h1 : r.leaf = (leaf.toNat : Int) := congrArg Rec.leaf hrow
    have h2 : q.leaf = (leaf'.toNat : Int) := congrArg Rec.leaf hrow'
    rw [hleaf, h2] at h1
    exact UInt64.toNat_inj.mp (by omega)
  subst hsame
  have hL : ∀ x ∈ es, entryHashed X (targetSize target) x ⊆ hashedBytes X bundle := by
    intro x hx
    rw [← hacc.target_eq]
    exact entryHashed_subset (hacc.entries_eq ▸ hx)
  have hpay := same_leaf_payload hc hchk hchk' (hL e he) (hL e' he')
  subst hpay
  have hbody := hchk.hcanon.symm.trans hchk'.hcanon
  cases hbody
  rw [hrow, hrow']

/-! ## Two layouts -/

/-- The same set of entries, in any order and any number. -/
def SameEntries (es es' : List Value) : Prop := ∀ e, e ∈ es ↔ e ∈ es'

/-- One row for each leaf of the bundle. -/
def distinctRows (X : Crates) (bundle : Value) : List Rec :=
  ((entryRows X bundle).map unsigned).pwFilter fun a b => a.leaf ≠ b.leaf

def timeline (X : Crates) (bundle : Value) : List RootEntry := (replayRoots X (distinctRows X bundle)).timeline

/-- Two rows contradict each other, or one that contradicts its own repetition
stands twice. -/
def Contradicted (X : Crates) (bundle : Value) : Prop :=
  conflicted X (distinctRows X bundle) = true ∨
    ∃ r, List.Duplicate r ((entryRows X bundle).map unsigned) ∧ SelfContradicting X (distinctRows X bundle) r

/-- No grant the intent names has the birthtag as its subject, or the versions
of that grant conflict. -/
def Grantless (X : Crates) (bundle : Value) (intent : Rec) (birthtag : String) : Prop :=
  ((grantVersions (revisionsOf X (distinctRows X bundle) (timeline X bundle) (intent.ctx.index "grant_id"))).any
      fun p => decide ((p.map (·.version)).toFinset.card < p.length)) = true ∨
    issuedFor (rootValidAuth X (distinctRows X bundle) (timeline X bundle) "authority.grant.issued")
      (intent.ctx.index "grant_id") [birthtag] = none

/-- The binding an intent of the agent is matched with. -/
def boundAs (X : Crates) (bundle : Value) (lineage : Lineage) (intent : Rec) : Option String :=
  (matchBinding (bindings X (distinctRows X bundle)) lineage intent (intervalFor X bundle intent.leaf)).map (·.rh)

/-- Two layouts agree on what the facts of an intent read. -/
structure SameReading (X : Crates) (b b' : Value) (intent intent' : Rec) : Prop where
  /-- both contradict themselves or neither does -/
  conflict : Contradicted X b ↔ Contradicted X b'
  /-- the establishment of the agent stands twice in both or in neither, unless
  neither the identity nor a grant rests on it -/
  lineage : ∀ l, agentLineage (distinctRows X b) intent.agent = some l →
    (EstablishedTwice (entryRows X b) intent.agent ↔ EstablishedTwice (entryRows X b') intent.agent) ∨
      (Contradicted X b ∨ birthtagOf X b l (timeline X b) = none) ∧ Grantless X b intent l.birthtagId
  /-- where a binding is looked for, the signers of both rows match the same -/
  signers : ∀ l birthtag, agentLineage (distinctRows X b) intent.agent = some l →
    birthtagOf X b l (timeline X b) = some birthtag → ¬ Contradicted X b →
    ¬ EstablishedTwice (entryRows X b) intent.agent → ¬ EstablishedTwice (entryRows X b') intent.agent →
    boundAs X b l intent = boundAs X b l intent'

theorem relisted_rows {b b' : Value} (h : Relisted SameEntries b b') {r : Rec} :
    r ∈ entryRows X b' ↔ r ∈ entryRows X b := by
  obtain ⟨es, es', hes, hes', hsame⟩ := h.entries
  simp only [mem_entryRows, entriesOf, hes, hes', Option.getD_some, hsame _]

theorem rows_sorted (bundle : Value) :
    ((entryRows X bundle).map unsigned).Pairwise fun a b => a.leaf ≤ b.leaf := by
  rw [List.pairwise_map]
  exact List.pairwise_insertionSort (fun a b : Rec => a.leaf ≤ b.leaf) _

/-- Rows that their leaves tell apart are listed by one row for each leaf. -/
theorem lists_distinct {bundle : Value}
    (hinj : ∀ r ∈ entryRows X bundle, ∀ q ∈ entryRows X bundle, r.leaf = q.leaf → unsigned r = unsigned q) :
    Lists (entryRows X bundle) (distinctRows X bundle) := by
  refine repeats_pwFilter Rec.leaf (rows_sorted bundle) fun a ha b hb hleaf => ?_
  obtain ⟨r, hr, rfl⟩ := List.mem_map.mp ha
  obtain ⟨q, hq, rfl⟩ := List.mem_map.mp hb
  exact hinj r hr q hq hleaf

theorem distinct_sorted (bundle : Value) : (distinctRows X bundle).Pairwise fun a b => a.leaf < b.leaf :=
  pwFilter_sorted Rec.leaf (rows_sorted bundle)

theorem distinct_nodup (bundle : Value) : (distinctRows X bundle).Nodup := by
  refine (distinct_sorted bundle).imp fun {a b} hlt he => ?_
  rw [he] at hlt
  exact lt_irrefl _ hlt

/-- Two layouts of one set of entries have the same distinct rows. -/
theorem distinct_same {b b' : Value} (h : Relisted SameEntries b b')
    (hl : Lists (entryRows X b) (distinctRows X b)) (hl' : Lists (entryRows X b') (distinctRows X b')) :
    distinctRows X b' = distinctRows X b := by
  refine eq_of_same_members (distinct_sorted b') (distinct_sorted b) fun r => ?_
  rw [← Repeats.mem_iff hl, ← Repeats.mem_iff hl', List.mem_map, List.mem_map]
  simp only [relisted_rows h]

/-! ## What the facts read -/

theorem issuedFor_nil (issuedAll : List Rec) (gid : Value) : issuedFor issuedAll gid [] = none := by
  unfold issuedFor
  cases issuedAll.find? fun r => (Value.string r.rh).eqv gid with
  | none => rfl
  | some r => cases h : (r.ctx.index "subject_birthtag_id").asStr <;> simp [Option.filter, h]

/-- A birthtag changes the authority exactly when a grant rests on it. -/
theorem deriveAuthority_birthtag {bundle : Value} {intent : Rec} {interval : Interval} {birthtag : String} :
    deriveAuthority X (distinctRows X bundle) (timeline X bundle) intent interval [birthtag] none =
      deriveAuthority X (distinctRows X bundle) (timeline X bundle) intent interval [] none ↔
      Grantless X bundle intent birthtag := by
  unfold deriveAuthority Grantless
  dsimp only
  rw [issuedFor_nil]
  split
  · rename_i hconflict
    exact iff_of_true rfl (.inl hconflict)
  · rename_i hconflict
    cases issuedFor (rootValidAuth X (distinctRows X bundle) (timeline X bundle) "authority.grant.issued")
      (intent.ctx.index "grant_id") [birthtag] with
    | none => exact iff_of_true rfl (.inr rfl)
    | some issued =>
      refine iff_of_false (fun h => ?_) (fun h => h.elim hconflict fun h => nomatch h)
      have hid := congrArg Grant.grantId h
      cases hid

section
variable {bundle : Value} {rows : List Rec} {intent intent' : Rec} {interval : Interval}

theorem identityWith_conflict {lineage : Option Lineage} :
    identityWith X bundle rows true lineage intent interval = { standing := .conflict } := rfl

theorem identityWith_none :
    identityWith X bundle rows false none intent interval = { standing := .notVerified } := rfl

theorem identityWith_unborn {l : Lineage} (h : birthtagOf X bundle l (replayRoots X rows).timeline = none) :
    identityWith X bundle rows false (some l) intent interval = { standing := .notVerified } := by
  simp [identityWith, h]

theorem identityWith_born {l : Lineage} {birthtag : String}
    (h : birthtagOf X bundle l (replayRoots X rows).timeline = some birthtag) :
    identityWith X bundle rows false (some l) intent interval =
      { standing := if ((matchBinding (bindings X rows) l intent interval).map (·.rh)).isSome then .verified
          else .notVerified
        bindingId := (matchBinding (bindings X rows) l intent interval).map (·.rh), birthtag := some birthtag } := by
  simp only [identityWith, Bool.false_eq_true, if_false, h]
  cases (matchBinding (bindings X rows) l intent interval).map (·.rh) <;> rfl

theorem identityWith_standing {conflict : Bool} {lineage : Option Lineage} :
    (identityWith X bundle rows conflict lineage intent interval).standing = .conflict ↔ conflict = true := by
  cases conflict with
  | true => exact iff_of_true rfl rfl
  | false =>
    refine iff_of_false (fun h => ?_) (fun h => nomatch h)
    cases lineage with
    | none => cases h
    | some l =>
      cases hb : birthtagOf X bundle l (replayRoots X rows).timeline with
      | none => rw [identityWith_unborn hb] at h; cases h
      | some birthtag =>
        rw [identityWith_born hb] at h
        dsimp only at h
        split at h <;> cases h

/-- The grant of an intent, given its identity and its lineage. -/
def grantWith (X : Crates) (bundle : Value) (rows : List Rec) (identity : Identity) (lineage : Option Lineage)
    (intent : Rec) : Grant :=
  deriveAuthority X rows (replayRoots X rows).timeline (unsigned intent) (intervalFor X bundle intent.leaf)
    (identity.birthtag.toList ++ (lineage.map (·.birthtagId)).toList) identity.bindingId

/-- Two readings of one intent give the same facts exactly when the identities
and the grants are the same. -/
theorem factsWith_eq_iff {conflict conflict' dup : Bool} {lineage lineage' : Option Lineage}
    (h : unsigned intent = unsigned intent') :
    factsWith X bundle rows conflict' lineage' intent' dup = factsWith X bundle rows conflict lineage intent dup ↔
      identityWith X bundle rows conflict' lineage' intent' (intervalFor X bundle intent.leaf) =
        identityWith X bundle rows conflict lineage intent (intervalFor X bundle intent.leaf) ∧
      grantWith X bundle rows
          (identityWith X bundle rows conflict' lineage' intent' (intervalFor X bundle intent.leaf)) lineage' intent =
        grantWith X bundle rows
          (identityWith X bundle rows conflict lineage intent (intervalFor X bundle intent.leaf)) lineage intent := by
  have hleaf : intent'.leaf = intent.leaf := (congrArg Rec.leaf h).symm
  have hrh : intent'.rh = intent.rh := (congrArg Rec.rh h).symm
  unfold factsWith grantWith
  simp only [hleaf, hrh, ← h, Facts.mk.injEq, true_and]
  generalize identityWith X bundle rows conflict' lineage' intent' (intervalFor X bundle intent.leaf) = i'
  generalize identityWith X bundle rows conflict lineage intent (intervalFor X bundle intent.leaf) = i
  generalize deriveAuthority X rows (replayRoots X rows).timeline (unsigned intent)
    (intervalFor X bundle intent.leaf) (i'.birthtag.toList ++ (lineage'.map (·.birthtagId)).toList) i'.bindingId = g'
  generalize deriveAuthority X rows (replayRoots X rows).timeline (unsigned intent)
    (intervalFor X bundle intent.leaf) (i.birthtag.toList ++ (lineage.map (·.birthtagId)).toList) i.bindingId = g
  obtain ⟨s, bid, bt⟩ := i
  obtain ⟨s', bid', bt'⟩ := i'
  obtain ⟨gs, gid, gm⟩ := g
  obtain ⟨gs', gid', gm'⟩ := g'
  simp only [Identity.mk.injEq, Grant.mk.injEq]
  tauto

end

/-! ## Layouts that agree -/

section
variable {b b' : Value} {intent intent' : Rec}

/-- An agent without lineage has the facts of one with it exactly when nothing
rests on the lineage. -/
theorem unread_iff {conflict : Bool} {l : Lineage} {interval : Interval} {i i' : Rec} :
    (identityWith X b (distinctRows X b) conflict (some l) i' interval =
        identityWith X b (distinctRows X b) conflict none i interval ∧
      grantWith X b (distinctRows X b) (identityWith X b (distinctRows X b) conflict (some l) i' interval) (some l)
          intent =
        grantWith X b (distinctRows X b) (identityWith X b (distinctRows X b) conflict none i interval) none intent) ↔
      (conflict = true ∨ birthtagOf X b l (timeline X b) = none) ∧ Grantless X b intent l.birthtagId := by
  have hgrant : grantWith X b (distinctRows X b) { standing := .conflict } (some l) intent =
      grantWith X b (distinctRows X b) { standing := .conflict } none intent ↔
      Grantless X b intent l.birthtagId := deriveAuthority_birthtag
  cases conflict with
  | true =>
    rw [identityWith_conflict, identityWith_conflict]
    simp only [true_and, true_or, hgrant]
  | false =>
    rw [identityWith_none]
    cases hb : birthtagOf X b l (timeline X b) with
    | none =>
      rw [identityWith_unborn hb]
      simp only [true_and, or_true]
      exact hgrant
    | some birthtag =>
      rw [identityWith_born hb]
      simp

/-- One lineage, or none: only the signers of the intent are read. -/
theorem same_lineage {conflict : Bool} {lineage : Option Lineage}
    (hsigners : ∀ l birthtag, lineage = some l → birthtagOf X b l (timeline X b) = some birthtag →
      conflict = false → (matchBinding (bindings X (distinctRows X b)) l intent (intervalFor X b intent.leaf)).map
        (·.rh) = (matchBinding (bindings X (distinctRows X b)) l intent' (intervalFor X b intent.leaf)).map (·.rh)) :
    identityWith X b (distinctRows X b) conflict lineage intent' (intervalFor X b intent.leaf) =
      identityWith X b (distinctRows X b) conflict lineage intent (intervalFor X b intent.leaf) := by
  cases conflict with
  | true => rfl
  | false =>
    cases lineage with
    | none => rfl
    | some l =>
      cases hb : birthtagOf X b l (timeline X b) with
      | none => rw [identityWith_unborn hb, identityWith_unborn hb]
      | some birthtag => rw [identityWith_born hb, identityWith_born hb, hsigners l birthtag rfl hb rfl]

theorem reading_iff (hu : unsigned intent = unsigned intent') {conflict conflict' dup : Bool}
    {lineage lineage' : Option Lineage} (hk : conflict = true ↔ Contradicted X b)
    (hk' : conflict' = true ↔ Contradicted X b')
    (hl : (EstablishedTwice (entryRows X b) intent.agent → lineage = none) ∧
      (¬ EstablishedTwice (entryRows X b) intent.agent → lineage = agentLineage (distinctRows X b) intent.agent))
    (hl' : (EstablishedTwice (entryRows X b') intent.agent → lineage' = none) ∧
      (¬ EstablishedTwice (entryRows X b') intent.agent → lineage' = agentLineage (distinctRows X b) intent.agent)) :
    factsWith X b (distinctRows X b) conflict' lineage' intent' dup =
      factsWith X b (distinctRows X b) conflict lineage intent dup ↔ SameReading X b b' intent intent' := by
  have hleaf : intent'.leaf = intent.leaf := (congrArg Rec.leaf hu).symm
  rw [factsWith_eq_iff hu]
  constructor
  · rintro ⟨hid, hgrant⟩
    have hkk : conflict' = conflict := by
      rw [Bool.eq_iff_iff, ← identityWith_standing, ← identityWith_standing, hid]
    subst hkk
    refine ⟨by rw [← hk, ← hk'], fun l hL => ?_, fun l birthtag hL hb hno ht ht' => ?_⟩
    · rw [← hk]
      by_cases ht : EstablishedTwice (entryRows X b) intent.agent <;>
        by_cases ht' : EstablishedTwice (entryRows X b') intent.agent
      · exact .inl (iff_of_true ht ht')
      · rw [hl.1 ht, hl'.2 ht', hL] at hid hgrant
        exact .inr (unread_iff.mp ⟨hid, hgrant⟩)
      · rw [hl.2 ht, hl'.1 ht', hL] at hid hgrant
        exact .inr (unread_iff.mp ⟨hid.symm, hgrant.symm⟩)
      · exact .inl (iff_of_false ht ht')
    · have hf : conflict' = false := by
        rw [← hk] at hno
        simpa using hno
      rw [hl.2 ht, hl'.2 ht', hL, hf, identityWith_born hb, identityWith_born hb] at hid
      have := congrArg Identity.bindingId hid
      rw [boundAs, boundAs, hleaf]
      exact this.symm
  · intro h
    have hkk : conflict' = conflict := by rw [Bool.eq_iff_iff, hk, hk', h.conflict]
    subst hkk
    by_cases hsame : lineage' = lineage
    · subst hsame
      have hid : identityWith X b (distinctRows X b) conflict' lineage' intent' (intervalFor X b intent.leaf) =
          identityWith X b (distinctRows X b) conflict' lineage' intent (intervalFor X b intent.leaf) := by
        refine same_lineage fun l birthtag hL hb hf => ?_
        have ht : ¬ EstablishedTwice (entryRows X b) intent.agent := fun ht => by rw [hl.1 ht] at hL; cases hL
        have ht' : ¬ EstablishedTwice (entryRows X b') intent.agent := fun ht => by rw [hl'.1 ht] at hL; cases hL
        have hsigners := h.signers l birthtag (hl.2 ht ▸ hL) hb (fun hc => by rw [hk.mpr hc] at hf; cases hf) ht ht'
        rw [boundAs, boundAs, hleaf] at hsigners
        exact hsigners
      exact ⟨hid, by rw [hid]⟩
    · -- one of the two layouts has the establishment twice, and nothing rests on it
      cases hL : agentLineage (distinctRows X b) intent.agent with
      | none =>
        have hnone : lineage = none := (Classical.em _).elim hl.1 fun ht => (hl.2 ht).trans hL
        have hnone' : lineage' = none := (Classical.em _).elim hl'.1 fun ht => (hl'.2 ht).trans hL
        exact absurd (hnone'.trans hnone.symm) hsame
      | some l =>
        have hunread := h.lineage l hL
        rw [← hk] at hunread
        by_cases ht : EstablishedTwice (entryRows X b) intent.agent <;>
          by_cases ht' : EstablishedTwice (entryRows X b') intent.agent
        · exact absurd ((hl'.1 ht').trans (hl.1 ht).symm) hsame
        · rw [hl.1 ht, hl'.2 ht', hL]
          exact unread_iff.mpr (hunread.resolve_left fun hiff => ht' (hiff.mp ht))
        · rw [hl.2 ht, hl'.1 ht', hL]
          exact And.imp Eq.symm Eq.symm (unread_iff.mpr (hunread.resolve_left fun hiff => ht (hiff.mpr ht')))
        · exact absurd ((hl'.2 ht').trans (hl.2 ht).symm) hsame

end

/-- The entries are the only member of a bundle that the rows are read off. -/
theorem factsWith_relisted {R : List Value → List Value → Prop} {b b' : Value} (h : Relisted R b b')
    (rows : List Rec) (conflict : Bool) (lineage : Option Lineage) (intent : Rec) (dup : Bool) :
    factsWith X b' rows conflict lineage intent dup = factsWith X b rows conflict lineage intent dup := by
  have hinterval : ∀ leaf, intervalFor X b' leaf = intervalFor X b leaf := by
    intro leaf
    simp only [intervalFor, clampedTimes, independentTsMap, arr, h.getArray (k := "checkpoint_chain") (by decide),
      List.foldl_cons, List.foldl_nil, h.getArray (k := "anchor_records") (by decide),
      h.getArray (k := "tst_records") (by decide)]
  have hbirthtag : ∀ l T, birthtagOf X b' l T = birthtagOf X b l T := by
    intro l T
    simp only [birthtagOf, passportBirthtag, obj, h.get (k := "passport") (by decide)]
  simp only [factsWith, identityWith, hinterval, hbirthtag]

theorem facts_unpicked {bundle : Value} {c : List Rec} (h : Lists (entryRows X bundle) c) (hn : c.Nodup)
    {actionId : Option String} (hpick : pickIntent (entryRows X bundle) actionId = none) :
    facts X bundle actionId = { valid := true, orgId := (replayRoots X c).orgId
                                operatorEntity := ((replayRoots X c).timeline.getLast?.map (·.legalEntity)).filter
                                  fun v => !v.isNull } := by
  have hroots := (replayRoots_lists (X := X) h hn).1
  simp only [facts, hpick, hroots.org, hroots.last]

/-- Two verified layouts of one set of entries have the same facts exactly when
they agree on what the facts of the picked intent read: the conflict, the
lineage and the signers. -/
theorem layout_iff (X : Crates) (b b' : Value) (actionId : Option String) (h : Relisted SameEntries b b')
    (hok : (verifyBundleFacts X b none).ok = true) (hok' : (verifyBundleFacts X b' none).ok = true)
    (hc : CollisionFree X (hashedBytes X b)) :
    authorityFacts X b' actionId = authorityFacts X b actionId ↔
      ∀ intent intent' dup, pickIntent (entryRows X b) actionId = some (intent, dup) →
        pickIntent (entryRows X b') actionId = some (intent', dup) → SameReading X b b' intent intent' := by
  have hlists : Lists (entryRows X b) (distinctRows X b) :=
    lists_distinct fun r hr q hq hleaf => rows_leaf_inj hok hc hr hq hleaf
  have hlists' : Lists (entryRows X b') (distinctRows X b') :=
    lists_distinct fun r hr q hq hleaf =>
      rows_leaf_inj hok hc ((relisted_rows h).mp hr) ((relisted_rows h).mp hq) hleaf
  have hsame := distinct_same h hlists hlists'
  have hn := distinct_nodup (X := X) b
  have hpicked := pickIntent_lists hlists actionId
  have hpicked' := pickIntent_lists hlists' actionId
  rw [hsame] at hpicked'
  rw [authorityFacts, authorityFacts, if_pos hok, if_pos hok']
  cases hp : pickIntent (entryRows X b) actionId with
  | none =>
    rw [hp, Option.map_none] at hpicked
    have hp' : pickIntent (entryRows X b') actionId = none := by
      rw [← hpicked] at hpicked'
      exact Option.map_eq_none_iff.mp hpicked'
    rw [facts_unpicked hlists hn hp, facts_unpicked (hsame ▸ hlists') hn hp']
    exact iff_of_true rfl fun intent intent' dup h => nomatch h
  | some p =>
    obtain ⟨intent, dup⟩ := p
    rw [hp, Option.map_some] at hpicked
    obtain ⟨⟨intent', dup'⟩, hp', heq⟩ : ∃ p', pickIntent (entryRows X b') actionId = some p' ∧
        (unsigned p'.1, p'.2) = (unsigned intent, dup) := by
      rw [← hpicked] at hpicked'
      exact Option.map_eq_some_iff.mp hpicked'
    obtain ⟨hu, rfl⟩ := Prod.mk.inj heq
    have hagent : intent'.agent = intent.agent := (congrArg Rec.agent hu.symm).symm
    have hl' := agentLineage_lists hlists' intent.agent
    rw [hsame] at hl'
    rw [facts_lists hlists hn hp, facts_lists (hsame ▸ hlists') hn hp', factsWith_relisted h, hagent,
      reading_iff hu.symm (conflicted_lists hlists hn) (conflicted_lists hlists' (distinct_nodup b'))
        (agentLineage_lists hlists intent.agent) hl']
    constructor
    · intro hreading i i' d hi hi'
      cases hi
      cases hp'.symm.trans hi'
      exact hreading
    · intro hall
      exact hall intent intent' dup' rfl hp'

/-! ## A repeated enrolment -/

section
open SwarrmVerify.L4.Granted

theorem once_relisted : Relisted SameEntries once twice := by
  refine .mk [("anchor_records", _), ("checkpoint_chain", _)] _ (fun e => ?_) (by decide)
  simp

theorem once_collisionFree : CollisionFree crates (hashedBytes crates once) :=
  known_collisionFree.mono granted_checked.2.2.2.2.2.2.2.1

theorem layout_enrolment : Relisted SameEntries once twice ∧
    (verifyBundleFacts crates once none).ok = true ∧ (verifyBundleFacts crates twice none).ok = true ∧
    CollisionFree crates (hashedBytes crates once) ∧
    (authorityFacts crates twice (some "pay-1") = authorityFacts crates once (some "pay-1") ↔
      ∀ intent intent' dup, pickIntent (entryRows crates once) (some "pay-1") = some (intent, dup) →
        pickIntent (entryRows crates twice) (some "pay-1") = some (intent', dup) →
          SameReading crates once twice intent intent') := by
  obtain ⟨-, -, -, honce, htwice, -, -, -⟩ := granted_checked
  exact ⟨once_relisted, honce, htwice, once_collisionFree,
    layout_iff crates once twice (some "pay-1") once_relisted honce htwice once_collisionFree⟩

/-- The enrolment listed twice reads as a second, unlinked root. -/
theorem layout_conflict : ¬ ∀ (X : Crates) (b b' : Value) (actionId : Option String), Relisted SameEntries b b' →
    (verifyBundleFacts X b none).ok = true → (verifyBundleFacts X b' none).ok = true →
    CollisionFree X (hashedBytes X b) → authorityFacts X b' actionId = authorityFacts X b actionId := by
  intro hall
  obtain ⟨-, -, -, honce, htwice, hnot, hconflict, -⟩ := granted_checked
  have heq := hall crates once twice (some "pay-1") once_relisted honce htwice once_collisionFree
  rw [authorityFacts, authorityFacts, if_pos honce, if_pos htwice] at heq
  have hstanding := congrArg Facts.identity heq
  rw [hnot, hconflict] at hstanding
  cases hstanding

end

end SwarrmVerify.L5.Layout
