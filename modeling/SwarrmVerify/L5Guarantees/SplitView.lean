import SwarrmVerify.L2Merkle.Extensions
import SwarrmVerify.L5Guarantees.History
import SwarrmVerify.L5Guarantees.Membership

/-!
# Split views

A log that shows different histories to two parties is caught as soon as the
two verified bundles share one checkpoint. Nothing is assumed about the leaves
behind the roots: there need not be any tree that a root is the hash of. The
argument walks each chain back from its own target, and compares what the two
say below the shared checkpoint through its root (`Core.Openings`).

**Hypotheses** of `no_split_view`: both bundles verify, under whatever trust;
their chains share a checkpoint body hash; the bytes that the two verifications
hash do not collide. The crates obey `WriterLaws`, by which equal canonical
bytes have equal members.

**Results.**
* `link_precedes`, `chain_precedes`: every checkpoint of a verified chain
  precedes the target: its root is extended by the target's.
* `seen_below`: what a bundle shows below a checkpoint of its chain, entries
  and older checkpoints alike, is below that checkpoint's root.
* `shared_body`: checkpoints with one body hash say one size and one root.
* `no_split_view`: two verified bundles that share a checkpoint agree below it:
  at one leaf they have one payload, and at one size one root.
-/
namespace SwarrmVerify.L5.SplitView
open Rfc6962 (Opens Extends)
open SwarrmVerify.L2.Merkle SwarrmVerify.L3.Receipt SwarrmVerify.L3.Keys
open SwarrmVerify.L4.Checkpoint SwarrmVerify.L4.Bundle SwarrmVerify.L4.Entries
open SwarrmVerify.L5.History SwarrmVerify.L5.Membership

variable {X : Crates} {L : List Bytes}

/-! ## What two verifications hash -/

/-- The nodes of the consistency proof between neighbours, towards the older root. -/
def linkOldHashed (X : Crates) (p q : Value × Value) : List Bytes :=
  match proofHashes (q.2.get "consistency_from_prev"), hexToBytes ((bodyStr p.1 "root_hash").getD "") with
  | some proof, some pr => oldRootInputs X (targetSize p.1) (targetSize q.1) pr proof
  | _, _ => []

def linksOldHashed (X : Crates) : List (Value × Value) → List Bytes
  | [] => []
  | [_] => []
  | p :: q :: rest => linkOldHashed X p q ++ linksOldHashed X (q :: rest)

/-- Everything a verification hashes for receipts, checkpoints and Merkle
proofs, towards old roots too. -/
def viewHashed (X : Crates) (bundle : Value) : List Bytes :=
  hashedBytes X bundle ++ linksOldHashed X (linksOf bundle)

/-! ## The chain -/

/-- The checkpoint's size and root precede the root `R` of `n` leaves. -/
def Precedes (X : Crates) (L : List Bytes) (n : Nat) (R : Digest) (cp : Value) : Prop :=
  ∃ s d, bodyU64 cp "tree_size" = some s ∧ (bodyStr cp "root_hash").bind hexToBytes = some d.val ∧
    Extends (node X) (hashedPairs L) s.toNat n d R

/-- One step back along an accepted link. -/
theorem link_precedes {n : Nat} {R : Digest} {p q : Value × Value} {sparse : Bool} {m : UInt64}
    (hc : CollisionFree X L) (hlink : checkChainLink X p.1 q.1 q.2 sparse = true)
    (hm : bodyU64 p.1 "tree_size" = some m) (hpos : 0 < m) (hq : Precedes X L n R q.1)
    (hnew : linkHashed X p q ⊆ L) (hold : linkOldHashed X p q ⊆ L) : Precedes X L n R p.1 := by
  obtain ⟨s, d, hsize, hroot, he⟩ := hq
  have hcons := (checkChainLink_spec hlink).2
  rw [hm, hsize, Option.getD_some, Option.getD_some] at hcons
  have hcons := hcons hpos
  unfold checkChainConsistency at hcons
  split at hcons
  case h_2 => cases hcons
  rename_i proof pr cr hproof hpr hcr
  rw [root_getD hroot, Option.some.injEq] at hcr
  subst hcr
  unfold linkHashed targetSize at hnew
  unfold linkOldHashed targetSize at hold
  simp only [hproof, hpr, hm, hsize, Option.getD_some] at hnew hold
  have hf := (consistency_follows (List.append_subset.mpr ⟨hnew, hold⟩) hcons).2
  obtain ⟨a, ha, hea⟩ := hf.extends_of rfl
  exact ⟨m, a, hm, root_present (by rw [hpr, ha]), he.trans (separates_hashedPairs hc) hea⟩

/-- Backwards along the chain from a head that precedes `R`. -/
theorem links_precede {n : Nat} {R : Digest} {kl : KeyLog} {sparse : Bool} (hc : CollisionFree X L) :
    ∀ (l : List (Value × Value)) (prev : Option Value), chainLoop X kl sparse prev l = true →
      (∀ p ∈ l, ∃ s, bodyU64 p.1 "tree_size" = some s ∧ 0 < s) → linksHashed X l ⊆ L →
      linksOldHashed X l ⊆ L → (∀ q, l.getLast? = some q → Precedes X L n R q.1) →
      ∀ p ∈ l, Precedes X L n R p.1
  | [], _, _, _, _, _, _ => List.forall_mem_nil _
  | [p], _, _, _, _, _, hlast => by
    intro p' hp'
    obtain rfl := List.mem_singleton.mp hp'
    exact hlast _ rfl
  | p :: q :: rest, prev, h, hsizes, hnew, hold, hlast => by
    simp only [chainLoop, Bool.and_eq_true, Option.all_some] at h
    have hrest : chainLoop X kl sparse (some p.1) (q :: rest) = true := by
      simp only [chainLoop, Bool.and_eq_true, Option.all_some]; exact h.2
    have hall := links_precede hc (q :: rest) (some p.1) hrest
      (fun x hx => hsizes x (List.mem_cons_of_mem _ hx))
      (fun b hb => hnew (List.mem_append_right _ hb)) (fun b hb => hold (List.mem_append_right _ hb))
      (fun x hx => hlast x (by rw [List.getLast?_cons_cons]; exact hx))
    obtain ⟨m, hm, hpos⟩ := hsizes p (by simp)
    have hp := link_precedes hc h.2.1.2 hm hpos (hall q (by simp))
      (fun b hb => hnew (List.mem_append_left _ hb)) (fun b hb => hold (List.mem_append_left _ hb))
    intro x hx
    rcases List.mem_cons.mp hx with rfl | hx
    · exact hp
    · exact hall x hx

section
variable {bundle target : Value} {entries chainEntries chain : List Value} {kl : KeyLog} {root : Bytes}
  {sparse : Bool}

/-- The head of the chain is the target, up to what else is said beside the body. -/
theorem head_same (hX : WriterLaws X) (h : Accepted X bundle entries kl target chainEntries chain root sparse)
    (hc : CollisionFree X L) (hL : ∀ cp ∈ target :: chain, checkpointHashed X cp ⊆ L) {head : Value}
    (hhead : chain.getLast? = some head) :
    checkpointBodyHash X head = checkpointBodyHash X target ∧
    (∃ s, bodyU64 head "tree_size" = some s ∧ bodyU64 target "tree_size" = some s) ∧
    ∀ r, bodyStr target "root_hash" = some r → bodyStr head "root_hash" = some r := by
  have hmem : head ∈ chain := List.mem_of_getLast? hhead
  have hauth := h.authority
  rw [h.target_eq, h.chain_eq] at hauth
  have hmatch := h.hhead
  unfold chainHeadMatches at hmatch
  rw [hhead, Option.bind_some] at hmatch
  split at hmatch
  case h_2 => cases hmatch
  rename_i hh want hhh hwant
  rw [eq_of_beq hmatch] at hhh
  obtain ⟨hstr, hnum⟩ := same_body hX hc (hL target (by simp)) (hL head (List.mem_cons_of_mem _ hmem))
    (hauth target (by simp)).1 (hauth head (List.mem_cons_of_mem _ hmem)).1 hwant hhh
  obtain ⟨covers, hcovers⟩ := h.hcovers
  obtain ⟨s, hs⟩ := covers_size hcovers hmem
  -- the target has a size, or no key would be active at it
  have htarget : ∃ t, bodyU64 target "tree_size" = some t := by
    have ha := (hauth target (by simp)).2
    cases ht : bodyU64 target "tree_size" with
    | some t => exact ⟨t, rfl⟩
    | none =>
      unfold checkpointAuthority at ha
      rw [ht, Option.getD_none, Bool.and_eq_true] at ha
      obtain ⟨_, _, _, _, hlt, _⟩ := L3.KeyRun.keyActive_iff.mp ha.2
      exact absurd hlt UInt64.not_lt_zero
  obtain ⟨t, ht⟩ := htarget
  obtain rfl := hnum t s ht hs
  exact ⟨hhh.trans hwant.symm, ⟨t, hs, ht⟩, hstr⟩

/-- The head of the chain says the target's size and root. -/
theorem head_says (hX : WriterLaws X) (h : Accepted X bundle entries kl target chainEntries chain root sparse)
    (hc : CollisionFree X L) (hL : ∀ cp ∈ target :: chain, checkpointHashed X cp ⊆ L) {R : Digest}
    (hR : root = R.val) {head : Value} (hhead : chain.getLast? = some head) :
    Precedes X L (targetSize target).toNat R head := by
  obtain ⟨-, ⟨s, hs, ht⟩, hstr⟩ := head_same hX h hc hL hhead
  have hroot : (bodyStr target "root_hash").bind hexToBytes = some R.val := root_present (by rw [h.hroot, hR])
  obtain ⟨r, hr, hdec⟩ := Option.bind_eq_some_iff.mp hroot
  refine ⟨s, R, hs, by rw [hstr r hr, Option.bind_some, hdec], ?_⟩
  rw [targetSize, ht, Option.getD_some]
  exact .refl

theorem checkpoints_hashed (h : Accepted X bundle entries kl target chainEntries chain root sparse)
    (hL : viewHashed X bundle ⊆ L) : ∀ cp ∈ target :: chain, checkpointHashed X cp ⊆ L := by
  intro cp hcp b hb
  rw [← h.target_eq, ← h.chain_eq] at hcp
  exact hL (List.mem_append_left _ (List.mem_append_left _ (List.mem_append_right _
    (List.mem_flatMap.mpr ⟨cp, hcp, hb⟩))))

/-- Every checkpoint of a verified chain precedes the target. -/
theorem chain_precedes (hX : WriterLaws X)
    (h : Accepted X bundle entries kl target chainEntries chain root sparse) (hc : CollisionFree X L)
    (hL : viewHashed X bundle ⊆ L) {R : Digest} (hR : root = R.val) :
    ∀ cp ∈ chainOf bundle, Precedes X L (targetSize target).toNat R cp := by
  obtain ⟨hhashed, hold⟩ := List.append_subset.mp hL
  obtain ⟨-, hnew⟩ := List.append_subset.mp hhashed
  obtain ⟨covers, hcovers⟩ := h.hcovers
  have hmem : ∀ p ∈ linksOf bundle, p.1 ∈ chainOf bundle := fun p hp => List.mem_map_of_mem hp
  have hall := links_precede hc (linksOf bundle) none (by rw [h.links_eq]; exact h.chainLoop)
    (by
      intro p hp
      obtain ⟨s, hs⟩ := covers_size hcovers (h.chain_eq ▸ hmem p hp)
      exact ⟨s, hs, authority_size (h.authority p.1 (List.mem_cons_of_mem _ (hmem p hp))).2 hs⟩)
    hnew hold
    (by
      intro q hq
      have hlast : chain.getLast? = some q.1 := by rw [← h.chain_eq, chainOf, List.getLast?_map, hq]; rfl
      exact head_says hX h hc (checkpoints_hashed h hL) hR hlast)
  intro cp hcp
  obtain ⟨p, hp, rfl⟩ := List.mem_map.mp hcp
  exact hall p hp

/-- An entry opens the target's root, which is a digest. -/
theorem entry_opens (h : Accepted X bundle entries kl target chainEntries chain root sparse)
    (hL : viewHashed X bundle ⊆ L) {e : Value} (he : e ∈ entriesOf bundle) :
    ∃ i payload R, e.getU64 "leaf_index" = some i ∧ payloadOf X (e.index "envelope") = some payload ∧
      payload ∈ L ∧ leafInput X payload ∈ L ∧ root = Subtype.val R ∧
      Opens (node X) (hashedPairs L) (targetSize target).toNat i.toNat R (X.sha256 (leafInput X payload)) := by
  obtain ⟨payload, body, leaf, sigs, proof, hchk⟩ := h.hchecked e (h.entries_eq ▸ he)
  have hin : entryHashed X (targetSize target) e ⊆ L := by
    intro b hb
    refine hL (List.mem_append_left _ (entryHashed_subset he ?_))
    rw [h.target_eq]; exact hb
  rw [entryHashed_eq hchk, List.cons_subset, List.cons_subset] at hin
  obtain ⟨_, d, R, hd, hR, ho⟩ := inclusion_opens hin.2.2 hchk.hincluded
  obtain rfl := Subtype.ext hd
  exact ⟨leaf, payload, R, hchk.hleaf, hchk.hpayload, hin.1, hin.2.1, hR, ho⟩

end

/-! ## Two bundles -/

/-- A verified bundle has an entry. -/
theorem exists_entry {bundle : Value} {trust : Option Value} (h : (verifyBundleFacts X bundle trust).ok = true) :
    ∃ e, e ∈ entriesOf bundle := by
  unfold verifyBundleFacts at h
  split at h
  · cases h
  rename_i entries kl hadm
  unfold admitted at hadm
  dsimp only at hadm
  split at hadm
  · cases hadm
  split at hadm
  · cases hadm
  split at hadm
  · cases hadm
  rename_i hne
  exact List.exists_mem_of_ne_nil _ (by simpa [entriesOf] using hne)

/-- What a bundle shows below a root `d` of `s` leaves: every covered entry is a
leaf under it, and every older checkpoint precedes it. -/
structure SeenBelow (X : Crates) (L : List Bytes) (bundle : Value) (s : UInt64) (d : Digest) : Prop where
  entries : ∀ e ∈ entriesOf bundle, ∃ i payload, e.getU64 "leaf_index" = some i ∧
    payloadOf X (e.index "envelope") = some payload ∧ payload ∈ L ∧ leafInput X payload ∈ L ∧
    (i < s → Opens (node X) (hashedPairs L) s.toNat i.toNat d (X.sha256 (leafInput X payload)))
  chain : ∀ c ∈ chainOf bundle, targetSize c ≤ s → Precedes X L s.toNat d c

/-- A verified bundle below a checkpoint of its chain, whose root is a digest. -/
theorem seen_below (hX : WriterLaws X) {bundle : Value} {trust : Option Value}
    (h : (verifyBundleFacts X bundle trust).ok = true) (hc : CollisionFree X L)
    (hL : viewHashed X bundle ⊆ L) {cp : Value} (hcp : cp ∈ chainOf bundle) :
    ∃ s d, bodyU64 cp "tree_size" = some s ∧ (bodyStr cp "root_hash").bind hexToBytes = some (Subtype.val d) ∧
      SeenBelow X L bundle s d := by
  obtain ⟨entries, kl, target, chainEntries, chain, root, sparse, hacc⟩ := accepted_of_ok h
  have hsep := separates_hashedPairs hc
  obtain ⟨e₀, he₀⟩ := exists_entry h
  obtain ⟨_, _, R, _, _, _, _, hR, _⟩ := entry_opens hacc hL he₀
  have hall := chain_precedes hX hacc hc hL hR
  obtain ⟨s, d, hs, hd, hext⟩ := hall cp hcp
  refine ⟨s, d, hs, hd, ?_, ?_⟩
  · intro e he
    obtain ⟨i, payload, R', hi, hpay, hpL, hlL, hR', ho⟩ := entry_opens hacc hL he
    obtain rfl := Subtype.ext (hR.symm.trans hR')
    exact ⟨i, payload, hi, hpay, hpL, hlL, fun hlt => hext.opens_of hsep (UInt64.lt_iff_toNat_lt.mp hlt) ho⟩
  · intro c hcm hle
    obtain ⟨m, a, hm, ha, hextc⟩ := hall c hcm
    rw [targetSize, hm, Option.getD_some] at hle
    exact ⟨m, a, hm, ha, hext.compare hsep (UInt64.le_iff_toNat_le.mp hle) hextc⟩

/-- A checkpoint of a verified chain has an object for a body, and its canonical
bytes are among those hashed. -/
theorem chain_body {bundle : Value} {trust : Option Value} (h : (verifyBundleFacts X bundle trust).ok = true)
    (hL : viewHashed X bundle ⊆ L) {cp : Value} (hcp : cp ∈ chainOf bundle) {hash : String}
    (hhash : checkpointBodyHash X cp = some hash) :
    ∃ m canon, cp.get "body" = some (.object m) ∧ L1.Jcs.canonicalChecked X (.object m) = some canon ∧
      canon ∈ L ∧ hash = hex (X.sha256 canon).val := by
  obtain ⟨_, kl, _, _, _, _, _, hacc⟩ := accepted_of_ok h
  obtain ⟨m, hm⟩ := body_object (hacc.authority cp (List.mem_cons_of_mem _ hcp)).1
  obtain ⟨canon, hcanon, hin, hh⟩ := checkpointBodyHash_spec hm hhash
  refine ⟨m, canon, hm, hcanon, hL (List.mem_append_left _ (List.mem_append_left _ ?_)), hh⟩
  exact List.mem_append_right _ (List.mem_flatMap.mpr ⟨cp, List.mem_cons_of_mem _ hcp, hin⟩)

/-- Checkpoints of two verified chains with one body hash say one size and one root. -/
theorem shared_body (hX : WriterLaws X) {a b : Value} {ta tb : Option Value}
    (ha : (verifyBundleFacts X a ta).ok = true) (hb : (verifyBundleFacts X b tb).ok = true)
    (hc : CollisionFree X L) (hLa : viewHashed X a ⊆ L) (hLb : viewHashed X b ⊆ L) {cp cp' : Value}
    (hcp : cp ∈ chainOf a) (hcp' : cp' ∈ chainOf b) {hash : String}
    (h : checkpointBodyHash X cp = some hash) (h' : checkpointBodyHash X cp' = some hash) :
    (∀ s, bodyStr cp "root_hash" = some s → bodyStr cp' "root_hash" = some s) ∧
      ∀ m n, bodyU64 cp "tree_size" = some m → bodyU64 cp' "tree_size" = some n → m = n := by
  obtain ⟨m, x, hm, hx, hxL, hh⟩ := chain_body ha hLa hcp h
  obtain ⟨n, y, hn, hy, hyL, hh'⟩ := chain_body hb hLb hcp' h'
  obtain rfl : x = y := hc _ hxL _ hyL (Subtype.ext (hex_inj (hh.symm.trans hh')))
  simp only [bodyStr, bodyU64, hm, hn, Option.bind_some]
  exact ⟨fun s hs => L1.Jcs.canonical_getStr hX hx hy hs, fun k l hk hl => L1.Jcs.canonical_getU64 hX hx hy hk hl⟩

/-- Two verified bundles that share a checkpoint body hash show what is below
one root. -/
theorem shared_below (hX : WriterLaws X) {a b : Value} {ta tb : Option Value}
    (ha : (verifyBundleFacts X a ta).ok = true) (hb : (verifyBundleFacts X b tb).ok = true)
    (hc : CollisionFree X L) (hLa : viewHashed X a ⊆ L) (hLb : viewHashed X b ⊆ L) {cp cp' : Value}
    (hcp : cp ∈ chainOf a) (hcp' : cp' ∈ chainOf b) {hash : String}
    (h : checkpointBodyHash X cp = some hash) (h' : checkpointBodyHash X cp' = some hash) :
    ∃ d, SeenBelow X L a (targetSize cp) d ∧ SeenBelow X L b (targetSize cp) d := by
  obtain ⟨s, d, hs, hd, hseen⟩ := seen_below hX ha hc hLa hcp
  obtain ⟨s', d', hs', hd', hseen'⟩ := seen_below hX hb hc hLb hcp'
  -- the shared hash makes the two checkpoints say one size and one root
  obtain ⟨hroot, hsize⟩ := shared_body hX ha hb hc hLa hLb hcp hcp' h h'
  obtain rfl := hsize s s' hs hs'
  obtain ⟨r, hr, hdec⟩ := Option.bind_eq_some_iff.mp hd
  rw [hroot r hr, Option.bind_some, hdec, Option.some.injEq] at hd'
  obtain rfl := Subtype.ext hd'
  rw [targetSize, hs, Option.getD_some]
  exact ⟨d, hseen, hseen'⟩

/-- Below the first `n` leaves two bundles carry one payload for each leaf, and
one root for each size of a checkpoint. -/
structure AgreeBelow (X : Crates) (a b : Value) (n : UInt64) : Prop where
  entries : ∀ e ∈ entriesOf a, ∀ e' ∈ entriesOf b, e.getU64 "leaf_index" = e'.getU64 "leaf_index" →
    (∃ i, e.getU64 "leaf_index" = some i ∧ i < n) →
      payloadOf X (e.index "envelope") = payloadOf X (e'.index "envelope")
  roots : ∀ c ∈ chainOf a, ∀ c' ∈ chainOf b, bodyU64 c "tree_size" = bodyU64 c' "tree_size" → targetSize c ≤ n →
    (bodyStr c "root_hash").bind hexToBytes = (bodyStr c' "root_hash").bind hexToBytes

theorem SeenBelow.agree {a b : Value} {s : UInt64} {d : Digest} (hc : CollisionFree X L) (h : SeenBelow X L a s d)
    (h' : SeenBelow X L b s d) : AgreeBelow X a b s := by
  have hsep := separates_hashedPairs hc
  refine ⟨?_, ?_⟩
  · rintro e he e' he' heq ⟨i, hi, hlt⟩
    obtain ⟨j, p, hj, hp, hpL, hlL, ho⟩ := h.entries e he
    obtain ⟨j', p', hj', hp', hpL', hlL', ho'⟩ := h'.entries e' he'
    rw [hi, hj'] at heq; cases heq
    rw [hi] at hj; cases hj
    have hleaf := (ho hlt).unique hsep (ho' hlt)
    have hinput := hc _ hlL _ hlL' hleaf
    rw [hp, hp', hc _ hpL _ hpL' (Subtype.ext (List.cons.inj hinput).2)]
  · intro c hcm c' hcm' heq hle
    obtain ⟨m, x, hm, hx, he⟩ := h.chain c hcm hle
    obtain ⟨m', x', hm', hx', he'⟩ := h'.chain c' hcm' (by rw [targetSize, ← heq]; exact hle)
    rw [hm, hm'] at heq; cases heq
    rw [hx, hx', (he.compare hsep (Nat.le_refl _) he').self]

/-- **No split view.** Two verified bundles, of whatever trust, whose chains
share a checkpoint body hash: entries of one leaf below that checkpoint carry one
payload, and checkpoints of one size up to it have one root. -/
theorem no_split_view (X : Crates) (hX : WriterLaws X) (a b : Value) (ta tb : Option Value)
    (ha : (verifyBundleFacts X a ta).ok = true) (hb : (verifyBundleFacts X b tb).ok = true)
    (cp cp' : Value) (hcp : cp ∈ chainOf a) (hcp' : cp' ∈ chainOf b)
    (hash : String) (hh : checkpointBodyHash X cp = some hash) (hh' : checkpointBodyHash X cp' = some hash)
    (hc : CollisionFree X (viewHashed X a ++ viewHashed X b)) : AgreeBelow X a b (targetSize cp) := by
  obtain ⟨hLa, hLb⟩ := List.append_subset.mp (List.Subset.refl (viewHashed X a ++ viewHashed X b))
  obtain ⟨d, hseen, hseen'⟩ := shared_below hX ha hb hc hLa hLb hcp hcp' hh hh'
  exact hseen.agree hc hseen'

section
open SwarrmVerify.L3.Published

/-- The published log with and without the entries about the deputy: two views
that share their target. -/
theorem published_one_view :
    ((verifyBundleFacts crates published none).ok = true ∧
      (verifyBundleFacts crates withoutDeputy none).ok = true) ∧
    AgreeBelow crates published withoutDeputy (targetSize target) := by
  have hview : (∀ b ∈ viewHashed crates published ++ viewHashed crates withoutDeputy, b ∈ known.map Prod.fst) ∧
      checkpointBodyHash crates target = some (hex body4Hash.val) := by decide +kernel
  have hmem : target ∈ chainOf published := List.mem_of_getLast? rfl
  have hmem' : target ∈ chainOf withoutDeputy := List.mem_of_getLast? rfl
  have hc : CollisionFree crates (viewHashed crates published ++ viewHashed crates withoutDeputy) :=
    known_collisionFree.mono hview.1
  exact ⟨⟨published_ok, withoutDeputy_ok⟩, no_split_view crates (L1.Reference.reference_writerLaws _ _ _)
    published withoutDeputy none none published_ok withoutDeputy_ok target target hmem hmem' _
    hview.2 hview.2 hc⟩

end

end SwarrmVerify.L5.SplitView
