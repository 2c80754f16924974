import SwarrmVerify.Core.Succession
import SwarrmVerify.L3KeyLog.Issuers
import SwarrmVerify.L4Action.Facts

/-!
# The chain of custody of the roots

`replay_roots` reads the enrolments of a log in leaf order. What it returns is
the line of the enrolments that stand on their own: each root proves possession
of its own key, and none is a key that the log witnessed, earlier or later. The
first valid enrolment starts the timeline and names the organisation. A later
one is appended exactly if the root in office signed it, and is a conflict
exactly if he did not.

The rows need only be in leaf order, as the rows of a bundle are. Nothing is
assumed of the crates: a signature is one that the crate accepts.

* `Enrols`, `HandsOver`: an enrolment that stands on its own, and one that the
  root in office signed, both read off the row.
* `Custody`: the timeline, the organisation and the conflict of a replay, by
  the line of its rows.
* `replayed_step`: what one row does to a replay, from `rootStep_cases`.
* `root_custody`: the invariant of the whole replay.
-/
namespace SwarrmVerify.L5.Roots
open SwarrmVerify.L3.Receipt SwarrmVerify.L4.Action

variable {X : Crates} {rows pre : List Rec}

/-! ## The purpose of the replay -/

/-- The history of the key log mentions the kid or the key. -/
def Mentioned (X : Crates) (rows : List Rec) (kid : String) (key : Digest) : Prop :=
  ∃ r ∈ rows, isKeyRow r = true ∧
    ((r.ctx.index "jwk").getStr "kid" = some kid ∨ ∃ k, keyFromJwk X (r.ctx.index "jwk") = some (key, k))

/-- The row enrols this root, on its own account. -/
structure Enrols (X : Crates) (rows : List Rec) (r : Rec) (t : RootEntry) : Prop where
  enrolment : isEnrolment r = true
  leaf : t.leaf = r.leaf
  key : keyFromJwk X (r.ctx.index "root_jwk") = some (t.pubkey, t.kid)
  derived : t.kid = kidOfKey X t.pubkey
  named : r.ctx.getStr "root_kid" = some t.kid
  entity : t.legalEntity = r.ctx.index "legal_entity"
  possessed : dsigOk X t.pubkey (dom "authority.root.enrolled") r.ctx (r.ctx.get "self_sig") = true
  separate : ¬ Mentioned X rows t.kid t.pubkey

/-- The row hands over from a root: it names its kid and is signed with its
key. -/
structure HandsOver (X : Crates) (from_ : RootEntry) (r : Rec) : Prop where
  named : r.ctx.getStr "prev_root_kid" = some from_.kid
  signed : dsigOk X from_.pubkey (dom "authority.root.enrolled") r.ctx (r.ctx.get "prev_root_sig") = true

/-- The replay of some first rows, with the key history of the whole log. -/
def replayOf (X : Crates) (rows pre : List Rec) : Roots := pre.foldl (rootStep X (witnessedKeys X rows)) {}

/-- A replay by the line of its rows: the roots with the places of the rows
that enrolled them. -/
structure Custody (X : Crates) (rows pre : List Rec) (st : Roots) (history : List (Nat × RootEntry)) : Prop extends
    Succession.Line (Enrols X rows) (HandsOver X) pre history where
  timeline : st.timeline = history.map Prod.snd
  /-- The first root's receipt names the organisation. -/
  orgId : st.orgId = (history.head?.bind fun p => pre[p.1]?).map fun r => r.rh
  conflict : st.conflict = true ↔ Succession.Disputed (Enrols X rows) (HandsOver X) pre history

/-! ## The code's conditions -/

theorem mentioned_iff (kid : String) (key : Digest) :
    ((witnessedKeys X rows).1.contains kid || (witnessedKeys X rows).2.contains key) = true ↔
      Mentioned X rows kid key := by
  simp only [Bool.or_eq_true, List.contains_iff_mem, witnessedKeys, List.mem_filterMap, List.mem_map, List.mem_filter]
  constructor
  · rintro (⟨jwk, ⟨r, ⟨hr, hkey⟩, rfl⟩, hkid⟩ | ⟨jwk, ⟨r, ⟨hr, hkey⟩, rfl⟩, hmat⟩)
    · exact ⟨r, hr, hkey, .inl hkid⟩
    · obtain ⟨⟨m, k⟩, hmk, rfl⟩ := Option.map_eq_some_iff.mp hmat
      exact ⟨r, hr, hkey, .inr ⟨k, hmk⟩⟩
  · rintro ⟨r, hr, hkey, hkid | ⟨k, hk⟩⟩
    · exact .inl ⟨_, ⟨r, ⟨hr, hkey⟩, rfl⟩, hkid⟩
    · exact .inr ⟨_, ⟨r, ⟨hr, hkey⟩, rfl⟩, by rw [hk]; rfl⟩

/-- An enrolment passes the stand-alone checks exactly if it enrols a root. -/
theorem validEnrolment_iff {r : Rec} (hr : isEnrolment r = true) {kid : String} {key : Digest} {legal : Value} :
    validEnrolment X r.ctx (witnessedKeys X rows) = some (kid, key, legal) ↔
      Enrols X rows r ⟨r.leaf, kid, key, legal⟩ := by
  unfold validEnrolment
  simp only [Option.bind_eq_bind, Option.bind_eq_some_iff]
  constructor
  · rintro ⟨⟨key', kid'⟩, hkey, named, hnamed, h⟩
    split at h
    · cases h
    rename_i hguard
    split at h
    · cases h
    rename_i hsig
    cases h
    rw [Bool.or_assoc, Bool.or_eq_true, not_or, bne_iff_ne, not_not, mentioned_iff] at hguard
    obtain ⟨rfl, hmentioned⟩ := hguard
    exact ⟨hr, rfl, hkey, kid_of_keyFromJwk hkey, hnamed, rfl, by simpa using hsig, hmentioned⟩
  · intro h
    refine ⟨(key, kid), h.key, kid, h.named, ?_⟩
    have hguard : (kid != kid || (witnessedKeys X rows).1.contains kid || (witnessedKeys X rows).2.contains key) = false := by
      rw [Bool.eq_false_iff, Bool.or_assoc, ne_eq, Bool.or_eq_true, not_or, mentioned_iff]
      exact ⟨by simp, h.separate⟩
    have hsig := h.possessed
    have hlegal := h.entity
    simp only at hsig hlegal
    simp only [hguard, hsig, hlegal, Bool.not_true, Bool.false_eq_true, if_false]

theorem linkedTo_iff {r : Rec} {last : RootEntry} : linkedTo X r.ctx last = true ↔ HandsOver X last r := by
  rw [linkedTo, Bool.and_eq_true, beq_iff_eq]
  exact ⟨fun h => ⟨h.1, h.2⟩, fun h => ⟨h.named, h.signed⟩⟩

/-! ## One row -/

/-- Everything one row can do: nothing, start the chain, continue it, or
conflict with it. -/
theorem rootStep_cases (st : Roots) (r : Rec) :
    (rootStep X (witnessedKeys X rows) st r = st ∧ ¬ ∃ t, Enrols X rows r t) ∨
    ∃ t, Enrols X rows r t ∧
      (st.timeline = [] ∧ rootStep X (witnessedKeys X rows) st r = { st with orgId := some r.rh, timeline := [t] } ∨
      ∃ last, st.timeline.getLast? = some last ∧
        (HandsOver X last r ∧ rootStep X (witnessedKeys X rows) st r = { st with timeline := st.timeline ++ [t] } ∨
          ¬ HandsOver X last r ∧ rootStep X (witnessedKeys X rows) st r = { st with conflict := true })) := by
  unfold rootStep
  by_cases hr : isEnrolment r = true
  · simp only [hr, Bool.not_true, Bool.false_eq_true, if_false]
    cases hvalid : validEnrolment X r.ctx (witnessedKeys X rows) with
    | none =>
      refine .inl ⟨rfl, fun ⟨t, ht⟩ => ?_⟩
      have hsome : validEnrolment X r.ctx (witnessedKeys X rows) = some (t.kid, t.pubkey, t.legalEntity) := by
        rw [validEnrolment_iff hr, ← ht.leaf]
        exact ht
      rw [hvalid] at hsome
      cases hsome
    | some e =>
      obtain ⟨kid, key, legal⟩ := e
      refine .inr ⟨⟨r.leaf, kid, key, legal⟩, (validEnrolment_iff hr).mp hvalid, ?_⟩
      simp only
      cases hlast : st.timeline.getLast? with
      | none =>
        have hnil := List.getLast?_eq_none_iff.mp hlast
        exact .inl ⟨hnil, by rw [hnil]; rfl⟩
      | some last =>
        refine .inr ⟨last, rfl, ?_⟩
        by_cases hlinked : linkedTo X r.ctx last = true
        · exact .inl ⟨linkedTo_iff.mp hlinked, by simp only [hlinked, if_true]⟩
        · exact .inr ⟨fun h => hlinked (linkedTo_iff.mpr h), by simp only [hlinked]; rfl⟩
  · refine .inl ⟨by simp [hr], fun ⟨t, ht⟩ => hr ht.enrolment⟩

/-- A row enrols one root. -/
theorem enrols_unique (r : Rec) (t u : RootEntry) (ht : Enrols X rows r t) (hu : Enrols X rows r u) : t = u := by
  obtain ⟨leaf, kid, key, legal⟩ := t
  obtain ⟨leaf', kid', key', legal'⟩ := u
  obtain ⟨rfl, rfl⟩ := Prod.mk.inj (Option.some.inj (ht.key.symm.trans hu.key))
  obtain rfl : leaf = leaf' := ht.leaf.trans hu.leaf.symm
  obtain rfl : legal = legal' := ht.entity.trans hu.entity.symm
  rfl

section
variable {st : Roots} {history : List (Nat × RootEntry)}

theorem Custody.last (h : Custody X rows pre st history) : st.timeline.getLast? = history.getLast?.map Prod.snd := by
  rw [h.timeline, List.getLast?_map]

/-- The organisation is named once, by a row that stays where it is. -/
theorem Custody.named (h : Custody X rows pre st history) (r : Rec) :
    st.orgId = (history.head?.bind fun p => (pre ++ [r])[p.1]?).map fun r => r.rh := by
  rw [h.orgId]
  cases hhead : history.head? with
  | none => rfl
  | some p =>
    have hp := h.toLine.lt p (List.mem_of_mem_head? hhead)
    simp only [Option.bind_some, List.getElem?_append_left hp]

/-- One more row, by the four things it can do. -/
theorem replayed_step (h : Custody X rows pre (replayOf X rows pre) history) (r : Rec) :
    ∃ next, Custody X rows (pre ++ [r]) (replayOf X rows (pre ++ [r])) next ∧ history <+: next := by
  have hfold : replayOf X rows (pre ++ [r]) = rootStep X (witnessedKeys X rows) (replayOf X rows pre) r := by
    rw [replayOf, List.foldl_append]
    rfl
  rw [hfold]
  rcases rootStep_cases (replayOf X rows pre) r with ⟨hsame, hnone⟩ | ⟨t, ht, ⟨hnil, hstart⟩ | ⟨last, hlast, hcase⟩⟩
  · -- the row enrols nothing
    rw [hsame]
    refine ⟨history, ⟨h.toLine.skip fun t ht => absurd ⟨t, ht⟩ hnone, h.timeline, h.named r, ?_⟩, List.prefix_refl _⟩
    rw [h.conflict, Succession.disputed_concat h.toLine fun _ _ => rfl]
    exact (or_iff_left fun hnew => hnone hnew.1).symm
  · -- it starts the line
    rw [hstart]
    obtain rfl : history = [] := List.map_eq_nil_iff.mp (h.timeline.symm.trans hnil)
    refine ⟨[(pre.length, t)], ⟨h.toLine.start enrols_unique ht, rfl, ?_, ?_⟩, List.nil_prefix⟩
    · simp
    · have hsame : ∀ i ≤ pre.length,
          Succession.reached ([] ++ [(pre.length, t)]) i = Succession.reached ([] : List (Nat × RootEntry)) i :=
        fun _ hi => Succession.reached_concat hi
      refine (h.conflict.trans (or_iff_left ?_).symm).trans (Succession.disputed_concat h.toLine hsame).symm
      simp
  · rw [h.last, Option.map_eq_some_iff] at hlast
    obtain ⟨p, hp, rfl⟩ := hlast
    rcases hcase with ⟨hover, happend⟩ | ⟨hnot, hconflict⟩
    · -- it continues the line
      rw [happend]
      refine ⟨history ++ [(pre.length, t)], ⟨h.toLine.extend enrols_unique hp ht hover, ?_, ?_, ?_⟩,
        List.prefix_append _ _⟩
      · rw [List.map_append, ← h.timeline]
        rfl
      · rw [List.head?_append_of_ne_nil _ (List.ne_nil_of_mem (List.mem_of_getLast? hp))]
        exact h.named r
      · rw [Succession.disputed_concat h.toLine fun _ hi => Succession.reached_concat hi, ← h.conflict]
        refine (or_iff_left ?_).symm
        rintro ⟨-, q, hq, hnot⟩
        cases hp.symm.trans hq
        exact hnot hover
    · -- it is disputed
      rw [hconflict]
      refine ⟨history, ⟨h.toLine.skip fun _ _ => ⟨p, hp, hnot⟩, h.timeline, h.named r, ?_⟩, List.prefix_refl _⟩
      rw [Succession.disputed_concat h.toLine fun _ _ => rfl]
      exact iff_of_true rfl (.inr ⟨⟨t, ht⟩, p, hp, hnot⟩)

end

/-- By induction over the rows. -/
theorem replayed (X : Crates) (rows pre : List Rec) : ∃ history, Custody X rows pre (replayOf X rows pre) history := by
  induction pre using List.reverseRecOn with
  | nil =>
    refine ⟨[], .nil, rfl, rfl, iff_of_false (by simp [replayOf]) ?_⟩
    rintro ⟨i, r, t, hi, -⟩
    simp at hi
  | append_singleton pre r ih =>
    obtain ⟨history, h⟩ := ih
    obtain ⟨next, hnext, -⟩ := replayed_step h r
    exact ⟨next, hnext⟩

/-- The leaves of a line are in the order of its rows. -/
theorem Custody.sorted {st : Roots} {history : List (Nat × RootEntry)} (h : Custody X rows pre st history)
    (hsorted : pre.Pairwise fun a b => a.leaf ≤ b.leaf) : st.timeline.Pairwise fun a b => a.leaf ≤ b.leaf := by
  rw [h.timeline, List.pairwise_map]
  refine h.order.imp_of_mem fun {p q} hp hq hlt => ?_
  obtain ⟨a, ha, het⟩ := h.entered p hp
  obtain ⟨b, hb, heu⟩ := h.entered q hq
  obtain ⟨hi, rfl⟩ := List.getElem?_eq_some_iff.mp ha
  obtain ⟨hj, rfl⟩ := List.getElem?_eq_some_iff.mp hb
  rw [het.leaf, heu.leaf]
  exact List.pairwise_iff_getElem.mp hsorted _ _ hi hj hlt

/-- The roots of some first rows stay where they are. -/
theorem timeline_prefix (X : Crates) (rows pre post : List Rec) :
    (replayOf X rows pre).timeline <+: (replayOf X rows (pre ++ post)).timeline := by
  induction post using List.reverseRecOn with
  | nil => rw [List.append_nil]
  | append_singleton post r ih =>
    obtain ⟨history, h⟩ := replayed X rows (pre ++ post)
    obtain ⟨next, hnext, hgrows⟩ := replayed_step h r
    rw [← List.append_assoc, hnext.timeline]
    rw [h.timeline] at ih
    exact ih.trans (hgrows.map _)

/-! ## The root in force -/

/-- The last root of the timeline at or before the leaf. -/
structure InForce (timeline : List RootEntry) (leaf : Int) (root : RootEntry) : Prop where
  listed : ∃ before after, timeline = before ++ root :: after ∧ ∀ t ∈ after, leaf < t.leaf
  reached : root.leaf ≤ leaf

theorem rootAt_inForce {timeline : List RootEntry} {leaf : Int} {root : RootEntry}
    (h : rootAt timeline leaf = some root) : InForce timeline leaf root := by
  obtain ⟨hreached, later, earlier, hsplit, hlater⟩ := List.find?_eq_some_iff_append.mp h
  refine ⟨⟨earlier.reverse, later.reverse, ?_, fun t ht => ?_⟩, by simpa using hreached⟩
  · rw [← List.reverse_reverse timeline, hsplit]
    simp
  · have := hlater t (List.mem_reverse.mp ht)
    simpa using this

/-- What a statement of this type has been checked for. -/
structure UnderRoot (X : Crates) (timeline : List RootEntry) (actionType : String) (r : Rec) : Prop where
  agent : r.agent = "_authority"
  action : r.action = actionType
  signed : ∃ root, InForce timeline r.leaf root ∧
    dsigOk X root.pubkey (dom actionType) r.ctx (r.ctx.get "root_sig") = true

theorem rootValidAuth_underRoot {timeline : List RootEntry} {actionType : String} {r : Rec}
    (h : r ∈ rootValidAuth X rows timeline actionType) : r ∈ rows ∧ UnderRoot X timeline actionType r := by
  obtain ⟨hr, hvalid⟩ := List.mem_filter.mp h
  simp only [rootValid, Bool.and_eq_true, beq_iff_eq, Option.any_eq_true] at hvalid
  obtain ⟨⟨hagent, haction⟩, root, hroot, hsig⟩ := hvalid
  exact ⟨hr, hagent, haction, root, rootAt_inForce hroot, hsig⟩

/-- **Custody of the roots.** The replay of rows in leaf order is the line of
their enrolments: there is a root exactly if some row enrols one, the first such
row starts the timeline and names the organisation, and a later one is appended
exactly if the root in office before it handed over to it. The replay conflicts
exactly if some enrolment after the first is handed over by no such root. The
roots of some first rows stay where they are, and every statement the replay
validates is signed by the root in force at its leaf. -/
theorem root_custody (X : Crates) (rows : List Rec) (hsorted : rows.Pairwise fun a b => a.leaf ≤ b.leaf) :
    (∃ history, Custody X rows rows (replayRoots X rows) history) ∧
      ((replayRoots X rows).timeline ≠ [] ↔ ∃ r ∈ rows, ∃ t, Enrols X rows r t) ∧
      (replayRoots X rows).timeline.Pairwise (fun a b => a.leaf ≤ b.leaf) ∧
      (∀ pre post, rows = pre ++ post → (replayOf X rows pre).timeline <+: (replayRoots X rows).timeline) ∧
      ∀ actionType, ∀ r ∈ rootValidAuth X rows (replayRoots X rows).timeline actionType,
        r ∈ rows ∧ UnderRoot X (replayRoots X rows).timeline actionType r := by
  obtain ⟨history, h⟩ := replayed X rows rows
  refine ⟨⟨history, h⟩, ?_, h.sorted hsorted, ?_, fun _ _ => rootValidAuth_underRoot⟩
  · have htimeline : (replayRoots X rows).timeline = history.map Prod.snd := h.timeline
    rw [← h.toLine.started, htimeline, ne_eq, List.map_eq_nil_iff]
  · intro pre post hsplit
    have := timeline_prefix X rows pre post
    rwa [← hsplit] at this

end SwarrmVerify.L5.Roots

/-! ## A log with a grant

The issuer of the published log keeps one with an organisation root (the
`deputy` key, which this log does not witness). The root is enrolled at
leaf 1, the agent `clerk` is born at leaf 2 and receives a grant for payments
at leaf 3. Version 2 of the grant narrows it to refunds from 00:00:40 on,
version 3 is for payments and takes effect at 00:00:20. At leaf 6 the `clerk`
intends a payment, between checkpoints that are anchored at 00:01:00 and
00:02:00. The signatures and digests are genuine. -/

namespace SwarrmVerify.L4.Granted
open Sha256 SwarrmVerify.L1.Jcs SwarrmVerify.L1.Reference SwarrmVerify.L3.Receipt SwarrmVerify.L3.Published
open SwarrmVerify.L4.Action SwarrmVerify.L4.Bundle

/-! ### Receipts -/

/-- A statement under the root: its context with the signature. -/
def statement (action idempotencyKey : String) (seq : UInt64) (ts : String) (context : List (String × Value)) : Value :=
  body "_authority" action idempotencyKey seq ts (.object []) (.object context)

def signature (sig : Bytes) : Value := .string (b64Encode sig)

def enrolledSig : Bytes :=
  bytesBE 64 0x3cb4ce6165cbc52141feca525e09e6807d83556c4514582163b9d33269ab364a03822617c35288c0b0d16ce31a454b8b66c1253561a2465f1d3cb5f520e52f0e
def issuedSig : Bytes :=
  bytesBE 64 0x16426abfbb5587ed543d2d8a735ff9404679dee60f4cf932ada901e86aa74661fda0261e3df273b38aa3e563c54150bb6da60b9b3bfe83fd3daa4a85b6463200
def narrowedSig : Bytes :=
  bytesBE 64 0xef7a84593505401c602c6194b31d5a4602b6ccb6dbbff84b9f42939bec77b2fd44c3d72a988d8693231b62e44ec400d3088117eb4beb7bb13f1460734475a20b
def widenedSig : Bytes :=
  bytesBE 64 0x5c1d52d14509ec254db0918353a45775aafb0cbdbbb5af16941be3dacc980961650a3bc9a3c0ae5844e83e25019760b7494e57df995b3c748aade2e2cc8d0b08

/-- What the root signs of a statement. -/
def signedContext (action : String) (context : List (String × Value)) : Bytes :=
  dom action ++ text (.object context)

def enrolment : List (String × Value) :=
  [("legal_entity", .string "Acme Ltd"), ("root_jwk", deputyJwk), ("root_kid", .string deputyKid)]

def enrolled : Value :=
  statement "authority.root.enrolled" "r1" 1 "2026-01-01T00:00:01Z" (enrolment ++ [("self_sig", signature enrolledSig)])

def born : Value := body "clerk" "lineage.born" "c1" 1 "2026-01-01T00:00:02Z" (.object []) (.object [])

/-- The receipt hashes, the leaf hashes over them and the nodes of the tree. -/
def receipt1 : Digest := digestOf 0x9801c91e340f13239cf9d06bd1e122677177b563e0c01d132e21c3cbae461fc3
def receipt2 : Digest := digestOf 0xef1c0c0d1abfad326c773619c87965656023998b6967f31d1dc376469eb1c192
def receipt3 : Digest := digestOf 0xea218d4ce465312e2b4ecf463c8702b58eb83f8a893689e80595b655e28c9827
def receipt4 : Digest := digestOf 0xe40e195b889587e1e0b4c3335b7b9657d2fa4a61cef9e2e4ca4b9dc9401b0b8b
def receipt5 : Digest := digestOf 0x464cd5ba3f5cf8d3ba0a5b2f46c942491e911ac8820d463c4899b923725ae856
def receipt6 : Digest := digestOf 0x08158f846b98b71b2dcb992f7e3ea43e7957ac50cf36c610f44a2f6d65710849
def leaf1 : Digest := digestOf 0xcca8203d995e1b82cc5b9797bd440f556b24ea709e7dafec73b31e4a690a73a7
def leaf2 : Digest := digestOf 0x5cdf0d6211891738d5232b26c72de8872216168c3da0033a7f2ef0f0ab4fb077
def leaf3 : Digest := digestOf 0x1798ffdd1ce96be68ec8002c47723e9733a21ec60c05348e2ea1987daa9a157c
def leaf4 : Digest := digestOf 0x85ad77400d785dc924f37d928e06b4231e0e6ec1c230edbe7b3a041cc4e1be9f
def leaf5 : Digest := digestOf 0xac69907c6f08032fb0fdf92c3375ec1081a7bde007ef2e8c2033e7f7681b4c94
def leaf6 : Digest := digestOf 0x25b5843682c2d9dbbb07114ece0d48cdfc6f932fe6efbf864144218da2ae3a56
def pair01 : Digest := digestOf 0x7587b37d630c6fa29aac728ffd3ae80b9dcb72826dc3fcf2676f602b58cc4634
def pair23 : Digest := digestOf 0x07e85c8ec2991cc266449160ef041d3756b3ec3be09e6c5a34d44e16334f31f2
def pair45 : Digest := digestOf 0x2cf7d45bd1587809f01a273d189f7d72098a8defd71e10efc3fb4ef20ce92563
def left : Digest := digestOf 0x2b15887a300edc85ea8b265b5a73c01814e6ba85be6e118f00bb5224b0251d02
def right : Digest := digestOf 0x4922fd4e32952a306a6ee7a56ada629bf14d02f38573c6a2e688ec46bf364c29
def root6 : Digest := digestOf 0xf1842d5d8bac0601220eaeb4196a4f358a5d502e88621839860c7ab6d0c40f8e
def root7 : Digest := digestOf 0x82f8732f027692dabcb4de1e96e6eec98d530d2a0d8786bd90dbbe6cf38ffd1a

/-- A document of the grant: what stands before the signature, and after it. -/
def limits : String × Value := ("limits", .object [("kind", .string "FLOW")])

def window : List (String × Value) :=
  [("valid_from", .string "2026-01-01T00:00:00Z"), ("valid_to", .string "2027-01-01T00:00:00Z")]

def subject : String × Value := ("subject_birthtag_id", .string (hex receipt2.val))

def classes (c : String) : String × Value := ("action_classes", .array [.string c])

def issued : Value :=
  statement "authority.grant.issued" "r2" 2 "2026-01-01T00:00:03Z"
    ([classes "payment", limits, ("root_sig", signature issuedSig), subject] ++ window)

/-- The terms of a revision. -/
def terms (version : UInt64) (effective actionClass : String) : List (String × Value) :=
  [classes actionClass, ("effective_ts", .string effective), ("grant_id", .string (hex receipt3.val)),
    ("grant_version", .number (.posInt version)), limits, ("prev_grant_version", .number (.posInt (version - 1)))]

def narrowed : List (String × Value) := terms 2 "2026-01-01T00:00:40Z" "refund"
def widened : List (String × Value) := terms 3 "2026-01-01T00:00:20Z" "payment"

def revised (idempotencyKey : String) (seq : UInt64) (ts : String) (terms : List (String × Value)) (sig : Bytes) : Value :=
  statement "authority.grant.revised" idempotencyKey seq ts (terms ++ ("root_sig", signature sig) :: window)

def revised2 : Value := revised "r3" 3 "2026-01-01T00:00:04Z" narrowed narrowedSig
def revised3 : Value := revised "r4" 4 "2026-01-01T00:00:05Z" widened widenedSig

/-- The commitment of nothing. -/
def commitment : Value := .string "e3b0c44298fc1c149afbf4c8996fb92427ae41e4649b934ca495991b7852b855"

def intended : Value :=
  body "clerk" "action.intent" "c2" 2 "2026-01-01T00:00:06Z"
    (.object [("context_doc", commitment), ("inputs", commitment)])
    (.object [("action_class", .string "payment"), ("action_id", .string "pay-1"), ("binding_id", .string "none"),
      ("grant_id", .string (hex receipt3.val)), ("grant_version", .number (.posInt 3)),
      ("policy_version", .number (.posInt 1))])

/-! ### The log -/

def receiptSig1 : Bytes :=
  bytesBE 64 0x2a663b8d9d43d4e4d224c75d1bd36f99c00247808a22e3f2e3d96ea8e503ff4358a78c6f28c034bc7a4ded9d2bc2002dae7a258a688f5684d19798d572c52003
def receiptSig2 : Bytes :=
  bytesBE 64 0x1a9721ac05b1c5a5c90613bda0d90bb437362e40fa77a99d4496076002e101981b546d29eb7b40a543678d35a5ec6a154d1035d20298734e1e0eef0bce335300
def receiptSig3 : Bytes :=
  bytesBE 64 0xf7edea163fba731ce0cfcb1de9fa7105eef4bcb313be9c3fb7e4d823fc2fe095a658f3cba9ee5652facbda17121976cfdccdfe9fe21bb4df548ae1b37ba0fe0e
def receiptSig4 : Bytes :=
  bytesBE 64 0x25cdb06546094b36989cd0bfbbc7e61ed3d0753f5b66503ea89d3ff77aac9b4c3b6c713d7326115862d9e290702cfd8484134baa8d7fa38ddb5d2de211946d06
def receiptSig5 : Bytes :=
  bytesBE 64 0x01582c945aadcb3705f3f428c68d37c453a8572c24573c8b409593a167b937c44aa00db70259326d83f28abe9bc214ab25ec27852bfb55bd092b2d163569e509
def receiptSig6 : Bytes :=
  bytesBE 64 0xb81f4a0cb8fafafeea4511e1edb85a0798cca7513aaec09df52c053191e966dfc497cd89dc2a0277a87299842c35c16baba1d00b31c99bcb3fb9e44e1dd0ac06

def entry0 : Value := entry 0 (envelope genesisCreated genesisKid genesisCreatedSig) [leaf1, pair23, right]
def entry1 : Value := entry 1 (envelope enrolled genesisKid receiptSig1) [leaf0, pair23, right]
def entry2 : Value := entry 2 (envelope born genesisKid receiptSig2) [leaf3, pair01, right]
def entry3 : Value := entry 3 (envelope issued genesisKid receiptSig3) [leaf2, pair01, right]
def entry4 : Value := entry 4 (envelope revised2 genesisKid receiptSig4) [leaf5, leaf6, left]
def entry5 : Value := entry 5 (envelope revised3 genesisKid receiptSig5) [leaf4, leaf6, left]
def entry6 : Value := entry 6 (envelope intended genesisKid receiptSig6) [pair45, left]

def body6 : Value := checkpointBody 6 root6 "2026-01-01T00:00:05Z" ""
def body6Hash : Digest := digestOf 0x5679399adc576549ac6803aebc736f3a76ca7a6e0045333c756cfc8372cc2330
def body7 : Value := checkpointBody 7 root7 "2026-01-01T00:00:06Z" (hex body6Hash.val)
def body7Hash : Digest := digestOf 0xf444b413e02530bfeb12e712f86702e52c87b3e602a62de1f82a50f64504fa1d

def body6Sig : Bytes :=
  bytesBE 64 0x952d6850a4236b12ad71c690b8e1f77fa8127dfee095af80b59e966e6f673010cd437ad78c2a23715aa8c045aafbe6e952b03b7f97735a969fe3f58e7d056c0e
def body7Sig : Bytes :=
  bytesBE 64 0xbd2cfb67c6456382120090b61c7178ea7093e3fed57f992a04c3d555fbd1c4d64735c0bd842b84a372e5197220d03f730a2bbc8c4da0f78d30213ed15c420f08

def target : Value := checkpoint body7 genesisKid body7Sig

/-- A checkpoint written to a chain. -/
def anchor (hash : Digest) (blockTs : String) : Value :=
  .object [("block_number", .number (.posInt 1)), ("block_ts", .string blockTs), ("chain_id", .number (.posInt 1)),
    ("checkpoint_body_hash", .string (hex hash.val)), ("contract", .string "0x00"), ("tx_hash", .string "0x00")]

/-- A bundle of some entries of the log. -/
def bundle (entries : List Value) : Value :=
  .object [("anchor_records", .array [anchor body6Hash "2026-01-01T00:01:00Z", anchor body7Hash "2026-01-01T00:02:00Z"]),
    ("checkpoint_chain", .array [.object [("checkpoint", checkpoint body6 genesisKid body6Sig)],
      .object [("checkpoint", target), ("consistency_from_prev",
        .array [.string (hex pair45.val), .string (hex leaf6.val), .string (hex left.val)])]]),
    ("entries", .array entries), ("jwks", .object [("keys", .array [genesisJwk])]),
    ("origin", .string "evd://tenant/acme"), ("schema", .string "evd/bundle/v1"),
    ("target_checkpoint", target)]

/-- What a verifier of the log hashes, and the digests. -/
def known : List (Bytes × Digest) :=
  [(text genesisCreated, receipt0), (text enrolled, receipt1), (text born, receipt2), (text issued, receipt3),
    (text revised2, receipt4), (text revised3, receipt5), (text intended, receipt6),
    (0x00 :: receipt0.val, leaf0), (0x00 :: receipt1.val, leaf1), (0x00 :: receipt2.val, leaf2),
    (0x00 :: receipt3.val, leaf3), (0x00 :: receipt4.val, leaf4), (0x00 :: receipt5.val, leaf5),
    (0x00 :: receipt6.val, leaf6), (0x01 :: (leaf0.val ++ leaf1.val), pair01),
    (0x01 :: (leaf2.val ++ leaf3.val), pair23), (0x01 :: (leaf4.val ++ leaf5.val), pair45),
    (0x01 :: (pair01.val ++ pair23.val), left), (0x01 :: (pair45.val ++ leaf6.val), right),
    (0x01 :: (left.val ++ pair45.val), root6), (0x01 :: (left.val ++ right.val), root7),
    (text body6, body6Hash), (text body7, body7Hash),
    (genesis.val, digestOf 0x21fe31dfa154a261626bf854046fd2271b7bed4b6abe45aa58877ef47f9721b9),
    (deputy.val, digestOf 0x39f713d0a644253f04529421b9f51b9b08979d08295959c4f3990ee617f5139f)]

def signed : List Signed :=
  [⟨genesis, pae receiptType (text genesisCreated), genesisCreatedSig⟩,
    ⟨genesis, pae receiptType (text enrolled), receiptSig1⟩, ⟨genesis, pae receiptType (text born), receiptSig2⟩,
    ⟨genesis, pae receiptType (text issued), receiptSig3⟩, ⟨genesis, pae receiptType (text revised2), receiptSig4⟩,
    ⟨genesis, pae receiptType (text revised3), receiptSig5⟩, ⟨genesis, pae receiptType (text intended), receiptSig6⟩,
    ⟨genesis, pae "application/vnd.evd.checkpoint.v1+json" (text body6), body6Sig⟩,
    ⟨genesis, pae "application/vnd.evd.checkpoint.v1+json" (text body7), body7Sig⟩,
    ⟨deputy, signedContext "authority.root.enrolled" enrolment, enrolledSig⟩,
    ⟨deputy, signedContext "authority.grant.issued" ([classes "payment", limits, subject] ++ window), issuedSig⟩,
    ⟨deputy, signedContext "authority.grant.revised" (narrowed ++ window), narrowedSig⟩,
    ⟨deputy, signedContext "authority.grant.revised" (widened ++ window), widenedSig⟩]

def receipts : List Value := [genesisCreated, enrolled, born, issued, revised2, revised3, intended]

/-- The crates on this log. -/
def crates : Crates := reference known signed receipts

/-- The digests are genuine. -/
theorem known_digests : ∀ p ∈ known, sha256 p.1 = p.2 := by
  -- one evaluation for each digest that the published log does not have
  simp only [known, List.forall_mem_cons, List.not_mem_nil, false_imp_iff, implies_true, and_true]
  refine ⟨L3.Published.known_digest 0 rfl, ?_, ?_, ?_, ?_, ?_, ?_, L3.Published.known_digest 4 rfl, ?_, ?_, ?_,
      ?_, ?_, ?_, ?_, ?_, ?_, ?_, ?_, ?_, ?_, ?_, ?_, L3.Published.known_digest 13 rfl,
      L3.Published.known_digest 14 rfl⟩ <;>
    exact sha256_of_window (by decide +kernel)

theorem known_digest (i : Nat) {m : Bytes} {d : Digest} (h : known[i]? = some (m, d)) : sha256 m = d :=
  known_digests (m, d) (List.mem_of_getElem? h)

theorem crates_sha256 : crates.sha256 = sha256 := reference_sha256 known signed _ known_digests

theorem known_collisionFree : CollisionFree crates (known.map Prod.fst) :=
  reference_collisionFree known signed _ known_digests (by decide +kernel)

/-! ### Bundles of the log -/

/-- The whole log. -/
def granted : Value := bundle [entry0, entry1, entry2, entry3, entry4, entry5, entry6]

/-- The log without the agent's birth and its grant. -/
def once : Value := bundle [entry0, entry1, entry6]

/-- The same rows, the enrolment repeated. -/
def twice : Value := bundle [entry0, entry1, entry1, entry6]

/-- The log without the revisions of the grant. -/
def unrevised : Value := bundle [entry0, entry1, entry2, entry3, entry6]

/-- The anchors of the checkpoints before and after the intent, in normal form. -/
def lower : String := "2026-01-01T00:01:00.000000Z"
def upper : String := "2026-01-01T00:02:00.000000Z"

/-- What a revision says: its version, when it takes effect, and whether it
permits the action. -/
structure RevisionRead where
  version : Int
  effective : Option String
  permits : Bool
  deriving DecidableEq

/-- What is read for an intent: the bounds of its interval and the revisions
of its grant. -/
structure IntentRead where
  lower : Option String
  upper : Option String
  revisions : Option (List RevisionRead)
  deriving DecidableEq

def intentRead (bundle : Value) (intent : Rec) : IntentRead :=
  let rows := entryRows crates bundle
  let gid := intent.ctx.index "grant_id"
  { lower := nts (intervalFor crates bundle intent.leaf).lower
    upper := nts (intervalFor crates bundle intent.leaf).upper
    revisions := (grantVersions (revisionsOf crates rows (replayRoots crates rows).timeline gid)).map
      fun pairs => pairs.map fun g => ⟨g.version, nts (g.ctx.index "effective_ts"),
        docOk (intent.ctx.index "action_class") lower upper g.ctx⟩ }

/-- The bundles verify. In the whole log the authority of the intent is
verified, although version 2 of its grant, the later one in effect, does not
permit the payment; without its revisions the grant permits it. In the other two
the enrolment alone decides; its second row is a second enrolment, which nobody
handed over to. -/
theorem granted_checked : (verifyBundleFacts crates granted none).ok = true ∧
    (facts crates granted (some "pay-1")).authority = .verified ∧
    ((pickIntent (entryRows crates granted) (some "pay-1")).map fun p => intentRead granted p.1) =
      some ⟨some lower, some upper, some [⟨2, some "2026-01-01T00:00:40.000000Z", false⟩,
        ⟨3, some "2026-01-01T00:00:20.000000Z", true⟩]⟩ ∧
    (verifyBundleFacts crates once none).ok = true ∧ (verifyBundleFacts crates twice none).ok = true ∧
    (facts crates once (some "pay-1")).identity = .notVerified ∧
    (facts crates twice (some "pay-1")).identity = .conflict ∧
    (∀ b ∈ hashedBytes crates once, b ∈ known.map Prod.fst) ∧
    (replayRoots crates (entryRows crates granted)).timeline.map RootEntry.kid = [deputyKid] ∧
    (replayRoots crates (entryRows crates twice)).conflict = true ∧
    (verifyBundleFacts crates unrevised none).ok = true ∧
    (facts crates unrevised (some "pay-1")).authority = .verified ∧
    ((pickIntent (entryRows crates unrevised) (some "pay-1")).map fun p => (intentRead unrevised p.1).revisions) =
      some (some []) := by
  decide +kernel

end SwarrmVerify.L4.Granted

/-! ## Its root -/

namespace SwarrmVerify.L5.Roots
open SwarrmVerify.L4.Action

section
open SwarrmVerify.L3.Published (deputyKid)
open SwarrmVerify.L4.Granted

theorem entryRows_sorted (X : Crates) (bundle : Value) :
    (entryRows X bundle).Pairwise fun a b => a.leaf ≤ b.leaf :=
  List.pairwise_insertionSort (fun a b : Rec => a.leaf ≤ b.leaf) _

/-- The line of the log with a grant is its one root. Where the row is listed
twice, the second is disputed. -/
theorem root_custody_granted :
    (∃ history, Custody crates (entryRows crates granted) (entryRows crates granted)
      (replayRoots crates (entryRows crates granted)) history ∧ history.map (fun p => p.2.kid) = [deputyKid]) ∧
    ∃ history, Custody crates (entryRows crates twice) (entryRows crates twice)
      (replayRoots crates (entryRows crates twice)) history ∧
      Succession.Disputed (Enrols crates (entryRows crates twice)) (HandsOver crates) (entryRows crates twice)
        history := by
  obtain ⟨-, -, -, -, -, -, -, -, hkids, hconflict, -⟩ := granted_checked
  obtain ⟨⟨history, h⟩, -⟩ := root_custody crates (entryRows crates granted) (entryRows_sorted crates granted)
  obtain ⟨⟨history', h'⟩, -⟩ := root_custody crates (entryRows crates twice) (entryRows_sorted crates twice)
  rw [h.timeline, List.map_map] at hkids
  exact ⟨⟨history, h, hkids⟩, history', h', h'.conflict.mp hconflict⟩

end

end SwarrmVerify.L5.Roots
