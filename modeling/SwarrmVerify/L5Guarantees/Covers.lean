import SwarrmVerify.L4Bundle.Reported
import SwarrmVerify.L5Guarantees.History

/-!
# The first covering checkpoint

No receipt of a verified bundle is more than 300 seconds later than the first
checkpoint that covers it. The entries are held to it by a binary search over
the deadlines of the chain, before the chain is known to be in order of size,
and sizes may repeat. On a list that is not sorted a binary search finds
anything.

In a bundle that verifies the chain turns out to be in order, since the check
that comes later rejects the others. So the search was one over a sorted list
after all, and it finds the first deadline whose size is above the leaf, as a
scan would (`Core.Search`).

**Hypotheses.** The bundle verifies. That the head of its chain covers every
leaf needs the head to have the target's size, which it has by its body hash;
hence the bytes hashed do not collide.

**Results.**
* `covers_partitioned`: the deadlines of an accepted chain are in order of size.
* `search_is_scan`: the search selects what a scan selects, whatever repeats.
* `firstCover_isSome`: a leaf is covered, at the latest by the head.
* `first_cover`: every entry has a first covering checkpoint, and its time is
  within the deadline of that one.
-/
namespace SwarrmVerify.L5.Covers
open SwarrmVerify.L1.Jcs SwarrmVerify.L3.Receipt SwarrmVerify.L3.Keys SwarrmVerify.L4.Checkpoint
open SwarrmVerify.L4.Entries SwarrmVerify.L4.Bundle SwarrmVerify.L5.History

variable {X : Crates} {bundle target : Value} {entries chainEntries chain : List Value} {kl : KeyLog} {root : Bytes}
  {sparse : Bool}

/-- The checkpoint covers the leaf. -/
def coversLeaf (leaf : UInt64) (cp : Value) : Bool := (bodyU64 cp "tree_size").any fun size => decide (leaf < size)

/-- The first checkpoint of the chain that covers the leaf, by a scan. -/
def firstCover (bundle : Value) (leaf : UInt64) : Option Value := (chainOf bundle).find? (coversLeaf leaf)

/-- A deadline is that of its checkpoint. -/
theorem coverDeadline_eq {cp : Value} {c : UInt64 × Int} (h : coverDeadline cp = some c) :
    bodyU64 cp "tree_size" = some c.1 ∧ ∃ ts t, bodyStr cp "ts" = some ts ∧ utcEpochMicros ts = some t ∧
      c.2 = t + 300 * 1000000 := by
  simp only [coverDeadline, Option.bind_eq_bind, Option.bind_eq_some_iff, Option.pure_def, Option.some.injEq] at h
  obtain ⟨size, hsize, ts, hts, t, ht, rfl⟩ := h
  exact ⟨hsize, ts, t, hts, ht, rfl⟩

/-- The deadlines of an accepted chain are in order of size. -/
theorem covers_partitioned (h : Accepted X bundle entries kl target chainEntries chain root sparse)
    {covers : List (UInt64 × Int)} (hcovers : checkpointCoverDeadlines chain = some covers) (leaf : UInt64) :
    Partition.Partitioned (fun c : UInt64 × Int => decide (c.1 ≤ leaf)) covers := by
  have hmap := mapM_eq_some.mp hcovers
  have hsizes := h.chain_sizes
  have hdeadlines : (chain.map coverDeadline).Pairwise fun a b =>
      ∀ c d, a = some c → b = some d → c.1 ≤ d.1 := by
    rw [List.pairwise_map]
    refine hsizes.imp fun {p q} hpq c d hc hd => ?_
    rwa [(coverDeadline_eq hc).1, (coverDeadline_eq hd).1, Option.getD_some, Option.getD_some] at hpq
  rw [hmap, List.pairwise_map] at hdeadlines
  refine hdeadlines.imp fun {c d} hcd hd => ?_
  rw [decide_eq_true_eq] at hd ⊢
  exact UInt64.le_trans (hcd c d rfl rfl) hd

/-- The first deadline after the leaf is that of the first checkpoint that
covers it. -/
theorem find_deadline (leaf : UInt64) :
    ∀ {chain : List Value} {covers : List (UInt64 × Int)}, checkpointCoverDeadlines chain = some covers →
      (covers.find? fun c => !decide (c.1 ≤ leaf)) = (chain.find? (coversLeaf leaf)).bind coverDeadline := by
  intro chain
  induction chain with
  | nil =>
    intro covers h
    cases h
    rfl
  | cons cp chain ih =>
    intro covers h
    simp only [checkpointCoverDeadlines, List.mapM_cons, Option.bind_eq_bind, Option.bind_eq_some_iff,
      Option.pure_def, Option.some.injEq] at h
    obtain ⟨c, hc, rest, hrest, rfl⟩ := h
    have hcovers : coversLeaf leaf cp = !decide (c.1 ≤ leaf) := by
      rw [coversLeaf, (coverDeadline_eq hc).1, Option.any_some, ← decide_not]
      exact decide_eq_decide.mpr UInt64.not_le.symm
    rw [List.find?_cons, List.find?_cons, hcovers]
    cases decide (c.1 ≤ leaf) with
    | false => exact hc.symm
    | true => exact ih hrest

/-- In a verified bundle the binary search selects what a linear scan selects,
whatever sizes repeat. -/
theorem search_is_scan (h : Accepted X bundle entries kl target chainEntries chain root sparse)
    {covers : List (UInt64 × Int)} (hcovers : checkpointCoverDeadlines chain = some covers) (leaf : UInt64) :
    covers[Partition.partitionPoint (fun c => decide (c.1 ≤ leaf)) covers]? =
      (firstCover bundle leaf).bind coverDeadline := by
  rw [Partition.getElem?_partitionPoint (covers_partitioned h hcovers leaf), find_deadline leaf hcovers, firstCover,
    h.chain_eq]

/-! ## Entries -/

/-- An accepted entry is within the deadline the search selects. -/
theorem checkEntry_inTime {e : Value} {size : UInt64} {covers : List (UInt64 × Int)} {tenant : String}
    (h : checkEntry X e kl size root covers tenant = true) {leaf : UInt64} {body : Value}
    (hleaf : e.getU64 "leaf_index" = some leaf) (hbody : bodyOf X (e.index "envelope") = some body) :
    coveredInTime covers leaf ((body.getStr "ts_server").getD "") = true := by
  unfold checkEntry at h
  dsimp only at h
  split at h
  · cases h
  split at h
  · cases h
  rename_i payload hpayload
  split at h
  · cases h
  rename_i read hread
  split at h
  · cases h
  rename_i hvalid
  split at h
  · cases h
  rename_i hcovered
  have hsame := payload_body hpayload hread (by simpa using hvalid)
  rw [hbody] at hsame
  cases hsame
  rw [hleaf, Option.getD_some] at hcovered
  simpa using hcovered

/-- What the entry loop of a verified bundle was run on. -/
theorem checkEntries_covers {trust : Option Value} (h : (checkEntries X entries target chain kl trust).1 = true) :
    ∃ root covers tenant, checkpointCoverDeadlines chain = some covers ∧
      ∀ e ∈ entries, checkEntry X e kl (targetSize target) root covers tenant = true := by
  unfold checkEntries at h
  dsimp only at h
  split at h
  · rename_i root covers tenant _ hcovers _
    rw [entriesLoop_ok, List.all_eq_true] at h
    exact ⟨root, covers, tenant, hcovers, h⟩
  · cases h

/-- The head of the chain has the size of the target. -/
theorem head_size (hX : WriterLaws X) (h : Accepted X bundle entries kl target chainEntries chain root sparse)
    (hc : CollisionFree X (hashedBytes X bundle)) {head : Value} (hhead : chain.getLast? = some head) {s : UInt64}
    (hs : bodyU64 target "tree_size" = some s) : bodyU64 head "tree_size" = some s := by
  have hmem : head ∈ chain := List.mem_of_getLast? hhead
  have hauth := h.authority
  rw [h.target_eq, h.chain_eq] at hauth
  have hmatch := h.hhead
  unfold chainHeadMatches at hmatch
  rw [hhead, Option.bind_some] at hmatch
  split at hmatch
  case h_2 => cases hmatch
  rename_i hh want hhh hwant
  rw [eq_of_beq hmatch] at hhh
  have hhashed : ∀ cp ∈ target :: chain, checkpointHashed X cp ⊆ hashedBytes X bundle := by
    intro cp hcp b hb
    rw [hashedBytes, h.target_eq, h.chain_eq]
    exact List.mem_append_left _ (List.mem_append_right _ (List.mem_flatMap.mpr ⟨cp, hcp, hb⟩))
  obtain ⟨-, hsize⟩ := same_body hX hc (hhashed target (by simp)) (hhashed head (List.mem_cons_of_mem _ hmem))
    (hauth target (by simp)).1 (hauth head (List.mem_cons_of_mem _ hmem)).1 hwant hhh
  obtain ⟨n, hn⟩ := h.chain_size head hmem
  rw [hn, hsize s n hs hn]

/-- A leaf of a verified bundle is covered: at the latest by the head. -/
theorem firstCover_isSome (hX : WriterLaws X)
    (h : Accepted X bundle entries kl target chainEntries chain root sparse)
    (hc : CollisionFree X (hashedBytes X bundle)) {leaf : UInt64} (hleaf : leaf < targetSize target) :
    (firstCover bundle leaf).isSome = true := by
  have hhead := List.getLast?_eq_some_getLast h.hchain
  rw [firstCover, h.chain_eq, List.find?_isSome]
  refine ⟨chain.getLast h.hchain, List.getLast_mem h.hchain, ?_⟩
  cases hs : bodyU64 target "tree_size" with
  | none =>
    rw [targetSize, hs] at hleaf
    exact absurd hleaf (UInt64.not_lt.mpr UInt64.zero_le)
  | some s =>
    rw [targetSize, hs, Option.getD_some] at hleaf
    rw [coversLeaf, head_size hX h hc hhead hs, Option.any_some, decide_eq_true_eq]
    exact hleaf

/-- What holds of an entry at its leaf. -/
structure InTime (X : Crates) (bundle e : Value) (leaf : UInt64) : Prop where
  /-- the first covering checkpoint, and the receipt at most 300 s after it -/
  covered : ∃ cp ts t body admitted, firstCover bundle leaf = some cp ∧ bodyStr cp "ts" = some ts ∧
    utcEpochMicros ts = some t ∧ bodyOf X (e.index "envelope") = some body ∧
    utcEpochMicros ((body.getStr "ts_server").getD "") = some admitted ∧ admitted ≤ t + 300 * 1000000
  /-- the search that admitted the entry selects the same checkpoint -/
  scanned : ∃ covers, checkpointCoverDeadlines (chainOf bundle) = some covers ∧
    covers[Partition.partitionPoint (fun c => decide (c.1 ≤ leaf)) covers]? =
      (firstCover bundle leaf).bind coverDeadline

/-- **First cover.** In a verified bundle every entry has a leaf, a first
checkpoint in chain order that covers it, and a server time at most 300 seconds
after it; the binary search selects that checkpoint. -/
theorem first_cover (X : Crates) (hX : WriterLaws X) (bundle : Value) (trust : Option Value)
    (h : (verifyBundleFacts X bundle trust).ok = true) (hc : CollisionFree X (hashedBytes X bundle)) :
    ∀ e ∈ entriesOf bundle, ∃ leaf, e.getU64 "leaf_index" = some leaf ∧ InTime X bundle e leaf := by
  obtain ⟨entries, kl, target, chainEntries, chain, root, sparse, haccepted, hreported⟩ := verified_facts h
  obtain ⟨root', covers, tenant, hcovers, hentries⟩ := checkEntries_covers hreported.passed
  rw [haccepted.entries_eq]
  intro e he
  obtain ⟨payload, body, leaf, sigs, proof, hchecked⟩ := haccepted.hchecked e he
  have hscan := search_is_scan haccepted hcovers leaf
  have hlt := verifyInclusion_lt hchecked.hincluded
  obtain ⟨cp, hcp⟩ := Option.isSome_iff_exists.mp (firstCover_isSome hX haccepted hc hlt)
  have htime := checkEntry_inTime (hentries e he) hchecked.hleaf hchecked.hbody
  have hmem : cp ∈ chain := by
    rw [firstCover, haccepted.chain_eq] at hcp
    exact List.mem_of_find?_eq_some hcp
  obtain ⟨c, -, hdeadline⟩ := mem_of_mapM hcovers hmem
  obtain ⟨-, ts, t, hts, ht, hlate⟩ := coverDeadline_eq hdeadline
  rw [coveredInTime, hscan, hcp, Option.bind_some, hdeadline, Option.all_some, Option.any_eq_true] at htime
  obtain ⟨admitted, hadmitted, hle⟩ := htime
  rw [decide_eq_true_eq, hlate] at hle
  refine ⟨leaf, hchecked.hleaf, ⟨cp, ts, t, body, admitted, hcp, hts, ht, hchecked.hbody, hadmitted, hle⟩, covers, ?_, hscan⟩
  rw [haccepted.chain_eq]
  exact hcovers

section
open SwarrmVerify.L3.Published SwarrmVerify.L1.Reference

/-- The published log is in time. -/
theorem published_first_cover :
    (verifyBundleFacts crates published none).ok = true ∧
      ∀ e ∈ entriesOf published, ∃ leaf, e.getU64 "leaf_index" = some leaf ∧ InTime crates published e leaf := by
  have hc : CollisionFree crates (hashedBytes crates published ++ []) :=
    published_collisionFree fun b hb => absurd hb List.not_mem_nil
  rw [List.append_nil] at hc
  exact ⟨published_ok, first_cover crates (reference_writerLaws _ _ _) published none published_ok hc⟩

end

end SwarrmVerify.L5.Covers
