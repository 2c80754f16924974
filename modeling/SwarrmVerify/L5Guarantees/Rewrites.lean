import SwarrmVerify.L5Guarantees.Noninterference
import SwarrmVerify.L5Guarantees.Roots

/-!
# Rewrites of a grant

Two receipts for one version of a grant with different hashes are a conflict:
somebody has rewritten a version that others may have relied on. The versions
of all revisions of the grant are read first, into a table of receipts by
version. When one of them does not read there is no table, the check for
conflicts is not reached, and the conflict goes unseen.

The table keeps every receipt it is given, so it has as many receipts as there
are revisions and as many rows as there are versions; with fewer rows than
receipts, two of them share a version (`card_lt`).

**Hypotheses** of `conflict_iff`: the bundle verifies, an intent is picked, and
two of the revisions of its grant state one version and differ. Nothing is said
of the others.

**Results.**
* `insertVersion_keeps`: inserting a receipt keeps the versions that are there.
* `versions_conflict`: two receipts for one version conflict, if there is a
  table.
* `conflict_iff`: the authority is CONFLICT exactly if every revision of the
  grant states a version that reads.
* `rewritten_conflict`, `rewritten_unseen`: a log with a rewritten version, and
  the same log with a third revision that does not read.
-/
namespace SwarrmVerify.L5.Rewrites
open SwarrmVerify.L3.Receipt SwarrmVerify.L3.Keys SwarrmVerify.L4.Checkpoint SwarrmVerify.L4.Bundle
open SwarrmVerify.L4.Action SwarrmVerify.L5.Noninterference

variable {X : Crates}

/-! ## The revisions of a grant -/

/-- The row revises the grant of the intent, under the root in force at its
leaf. -/
structure Revises (X : Crates) (bundle : Value) (intent r : Rec) : Prop where
  row : r ∈ entryRows X bundle
  signed : rootValid X (replayRoots X (entryRows X bundle)).timeline "authority.grant.revised" r = true
  names : (r.ctx.index "grant_id").eqv (intent.ctx.index "grant_id") = true

/-- The version that the row states for the grant. -/
def versionOf (r : Rec) : Option Int := (r.ctx.get "grant_version").bind asInt

/-- The row states a version and the version before it. -/
def Readable (r : Rec) : Prop := ∃ v prev, versionOf r = some v ∧ (r.ctx.get "prev_grant_version").bind asInt = some prev

theorem mem_revisionsOf {bundle : Value} {intent r : Rec} :
    r ∈ revisionsOf X (entryRows X bundle) (replayRoots X (entryRows X bundle)).timeline (intent.ctx.index "grant_id") ↔
      Revises X bundle intent r := by
  rw [revisionsOf, rootValidAuth, List.mem_filter, List.mem_filter]
  constructor
  · intro ⟨⟨hrow, hsigned⟩, hnames⟩
    exact ⟨hrow, hsigned, hnames⟩
  · intro h
    exact ⟨⟨h.row, h.signed⟩, h.names⟩

theorem grantVersion_eq {r : Rec} {g : GrantVersion} (h : grantVersion r = some g) :
    versionOf r = some g.version ∧ (r.ctx.get "prev_grant_version").bind asInt = some g.prev ∧ g.hash = r.rh := by
  simp only [grantVersion, Option.bind_eq_bind, Option.bind_eq_some_iff, Option.pure_def, Option.some.injEq] at h
  obtain ⟨v, ⟨x, hx, hv⟩, prev, ⟨y, hy, hprev⟩, rfl⟩ := h
  exact ⟨Option.bind_eq_some_iff.mpr ⟨x, hx, hv⟩, Option.bind_eq_some_iff.mpr ⟨y, hy, hprev⟩, rfl⟩

theorem readable_iff {r : Rec} : Readable r ↔ ∃ g, grantVersion r = some g := by
  constructor
  · intro ⟨v, prev, hv, hprev⟩
    refine ⟨⟨v, prev, r.rh, r.ctx⟩, ?_⟩
    rw [versionOf] at hv
    rw [grantVersion, Option.bind_eq_bind, hv, Option.bind_some, hprev]
    rfl
  · intro ⟨g, hg⟩
    obtain ⟨hv, hprev, _⟩ := grantVersion_eq hg
    exact ⟨g.version, g.prev, hv, hprev⟩

/-! ## The table of versions -/

theorem sameKey_refl (g : GrantVersion) : g.sameKey g := ⟨rfl, rfl, rfl⟩

theorem sameKey_trans {a b c : GrantVersion} (h : a.sameKey b) (h' : b.sameKey c) : a.sameKey c :=
  ⟨h.1.trans h'.1, h.2.1.trans h'.2.1, h.2.2.trans h'.2.2⟩

theorem sameKey_symm {a b : GrantVersion} (h : a.sameKey b) : b.sameKey a := ⟨h.1.symm, h.2.1.symm, h.2.2.symm⟩

/-- Inserting keeps the keys that are there and adds its own. -/
theorem insertVersion_keeps (l : List GrantVersion) (g : GrantVersion) :
    ∀ y, y = g ∨ y ∈ l → ∃ x ∈ insertVersion l g, y.sameKey x := by
  induction l with
  | nil =>
    rintro y (rfl | hy)
    · exact ⟨y, List.mem_singleton_self y, sameKey_refl y⟩
    · cases hy
  | cons z l ih =>
    intro y hy
    unfold insertVersion
    split
    · rename_i hsame
      rcases hy with rfl | hy
      · exact ⟨y, List.mem_cons_self, sameKey_refl y⟩
      rcases List.mem_cons.mp hy with rfl | hy
      · exact ⟨g, List.mem_cons_self, sameKey_symm hsame⟩
      · exact ⟨y, List.mem_cons_of_mem _ hy, sameKey_refl y⟩
    split
    · rcases hy with rfl | hy
      · exact ⟨y, List.mem_cons_self, sameKey_refl y⟩
      · exact ⟨y, List.mem_cons_of_mem _ hy, sameKey_refl y⟩
    · have hrest : y = z ∨ y = g ∨ y ∈ l := by
        rcases hy with rfl | hy
        · exact Or.inr (Or.inl rfl)
        · exact (List.mem_cons.mp hy).imp_right Or.inr
      rcases hrest with rfl | hrest
      · exact ⟨y, List.mem_cons_self, sameKey_refl y⟩
      · obtain ⟨x, hx, hkey⟩ := ih y hrest
        exact ⟨x, List.mem_cons_of_mem _ hx, hkey⟩

theorem foldl_keeps (gs : List GrantVersion) : ∀ l : List GrantVersion,
    ∀ y, y ∈ l ∨ y ∈ gs → ∃ x ∈ gs.foldl insertVersion l, y.sameKey x := by
  induction gs with
  | nil =>
    rintro l y (hy | hy)
    · exact ⟨y, hy, sameKey_refl y⟩
    · cases hy
  | cons g gs ih =>
    intro l y hy
    have hstep : y ∈ gs ∨ y = g ∨ y ∈ l := by
      rcases hy with hy | hy
      · exact Or.inr (Or.inr hy)
      · rcases List.mem_cons.mp hy with rfl | hy
        · exact Or.inr (Or.inl rfl)
        · exact Or.inl hy
    rw [List.foldl_cons]
    rcases hstep with hy | hy
    · exact ih _ y (Or.inr hy)
    · obtain ⟨x, hx, hkey⟩ := insertVersion_keeps l g y hy
      obtain ⟨z, hz, hkey'⟩ := ih _ x (Or.inl hx)
      exact ⟨z, hz, sameKey_trans hkey hkey'⟩

/-- Fewer versions than receipts: two of them have one version. -/
theorem card_lt {l : List GrantVersion} {x y : GrantVersion} (hx : x ∈ l) (hy : y ∈ l) (hne : x ≠ y)
    (hv : x.version = y.version) : (l.map (·.version)).toFinset.card < l.length := by
  have hdup : ¬ (l.map (·.version)).Nodup := fun hnodup => hne (List.inj_on_of_nodup_map hnodup hx hy hv)
  have hle : (l.map (·.version)).toFinset.card ≤ l.length := by
    simpa using (l.map (·.version)).toFinset_card_le
  refine Nat.lt_of_le_of_ne hle fun heq => hdup ?_
  rw [← List.dedup_eq_self]
  refine (List.dedup_sublist _).eq_of_length ?_
  rw [← List.card_toFinset, heq, List.length_map]

/-! ## Main result -/

/-- The conflict of the versions of a grant, with two receipts for one. -/
theorem versions_conflict {revs : List Rec} {r r' : Rec} {v : Int} (hr : r ∈ revs) (hr' : r' ∈ revs)
    (hne : r.rh ≠ r'.rh) (hv : versionOf r = some v) (hv' : versionOf r' = some v) :
    ((grantVersions revs).any fun p => decide ((p.map (·.version)).toFinset.card < p.length)) = true ↔
      ∀ q ∈ revs, Readable q := by
  rw [Option.any_eq_true, grantVersions]
  constructor
  · intro ⟨p, hp, _⟩ q hq
    obtain ⟨gs, hgs, _⟩ := Option.map_eq_some_iff.mp hp
    obtain ⟨g, _, hg⟩ := mem_of_mapM hgs hq
    exact readable_iff.mpr ⟨g, hg⟩
  · intro hall
    obtain ⟨gs, hgs⟩ := mapM_isSome fun q hq => readable_iff.mp (hall q hq)
    refine ⟨gs.foldl insertVersion [], by rw [hgs]; rfl, ?_⟩
    obtain ⟨g, hg, hread⟩ := mem_of_mapM hgs hr
    obtain ⟨g', hg', hread'⟩ := mem_of_mapM hgs hr'
    obtain ⟨hversion, _, hhash⟩ := grantVersion_eq hread
    obtain ⟨hversion', _, hhash'⟩ := grantVersion_eq hread'
    obtain ⟨x, hx, hkey⟩ := foldl_keeps gs [] g (Or.inr hg)
    obtain ⟨y, hy, hkey'⟩ := foldl_keeps gs [] g' (Or.inr hg')
    rw [hversion] at hv
    rw [hversion'] at hv'
    refine decide_eq_true (card_lt hx hy ?_ ?_)
    · intro hxy
      subst hxy
      exact hne (by rw [← hhash, ← hhash', hkey.2.2, hkey'.2.2])
    · rw [← hkey.1, ← hkey'.1, Option.some.inj hv, Option.some.inj hv']

/-- Two receipts for one version of the intent's grant, both in force. -/
def Rewrite (X : Crates) (bundle : Value) (intent : Rec) : Prop :=
  ∃ r r' v, Revises X bundle intent r ∧ Revises X bundle intent r' ∧ r.rh ≠ r'.rh ∧ versionOf r = some v ∧
    versionOf r' = some v

/-- **Rewrites.** In a verified bundle with two receipts for one version of the
picked intent's grant the authority is in conflict if and only if every
revision of that grant states its version and the one before. -/
theorem conflict_iff (X : Crates) (bundle : Value) (trust : Option Value) (actionId : Option String) (chosen : Rec)
    (dup : Bool) (h : (verifyBundleFacts X bundle trust).ok = true)
    (hpick : pickIntent (entryRows X bundle) actionId = some (chosen, dup)) (hrewrite : Rewrite X bundle chosen) :
    (authorityFacts X bundle actionId).authority = .conflict ↔ ∀ r, Revises X bundle chosen r → Readable r := by
  obtain ⟨r, r', v, hr, hr', hne, hv, hv'⟩ := hrewrite
  have hversions := versions_conflict (mem_revisionsOf.mpr hr) (mem_revisionsOf.mpr hr') hne hv hv'
  have hok : (verifyBundleFacts X bundle none).ok = true := by
    rw [← (trust_noninterference X bundle trust none).1]
    exact h
  simp only [mem_revisionsOf] at hversions
  rw [authorityFacts, if_pos hok, facts, hpick]
  simp only [intentFacts, deriveAuthority]
  rw [← hversions]
  constructor
  · intro hconflict
    by_contra hno
    rw [if_neg hno] at hconflict
    split at hconflict
    · cases hconflict
    · split at hconflict
      · cases hconflict
      · dsimp only at hconflict
        split at hconflict <;> cases hconflict
  · intro hyes
    rw [if_pos hyes]

end SwarrmVerify.L5.Rewrites

/-! ## A log with a rewritten grant

The grant of `Granted` is revised to version 2 twice, for refunds and for
payments, and once more by a revision that does not name the version before
it. A recorder, the third test key of RFC 8032, co-signs the last receipt. The
chain has two checkpoints of size 8, anchored at 00:01:00 and 00:02:00, and
leaves out the one of size 9 before its target; an assertion of the target's
issuer covers that interval. The signatures and digests are genuine. -/

namespace SwarrmVerify.L4.Rewritten
open Sha256 SwarrmVerify.L1.Jcs SwarrmVerify.L1.Reference SwarrmVerify.L3.Receipt SwarrmVerify.L3.Published
open SwarrmVerify.L4.Action SwarrmVerify.L4.Bundle SwarrmVerify.L4.Granted

/-! ### Receipts -/

def recorder : Digest := digestOf 0xfc51cd8e6218a1a38da47ed00230f0580816ed13ba3303ac5deb911548908025

def recorderKid : String := "2sBz4BI73qWd2bO9"

def recorderJwk : Value := jwk recorderKid recorder.val

def recorderCreated : Value :=
  body "_system" "evd.key.created" "k2" 2 "2026-01-01T00:00:01Z" (.object [])
    (.object [("effective_ts", .string "2026-01-01T00:00:01Z"), ("jwk", recorderJwk), ("role", .string "recorder")])

def rewrittenSig : Bytes :=
  bytesBE 64 0x8fc67d96758b5515f958c6877f7c537efcd1ef1a300314fb3b4a532fd45f3242e504ca00a1b16bbb66a49d1ea78b8bdebce82030e0397c46daf0a46b412d1404
def unlinkedSig : Bytes :=
  bytesBE 64 0x288a8cec176152ab894f0ae3c51bc9f62d0154165bd214d91943ec69c42a63b7925e649e257196b68a2ce3d4923e8d277fc1ba4b54ec4164dd7496b74302c004

/-- Version 2 again, for payments. -/
def rewrite : List (String × Value) := terms 2 "2026-01-01T00:00:20Z" "payment"

def revisedAgain : Value := revised "r4" 4 "2026-01-01T00:00:05Z" rewrite rewrittenSig

/-- Version 3, but of what is not said. -/
def unlinked : List (String × Value) :=
  (terms 3 "2026-01-01T00:00:20Z" "payment").filter fun p => p.1 != "prev_grant_version"

def revisedUnlinked : Value := revised "r5" 5 "2026-01-01T00:00:05Z" unlinked unlinkedSig

def noted : Value := body "clerk" "llm.call" "c3" 3 "2026-01-01T00:00:07Z" (.object []) (.object [])

/-- The receipt hashes, the leaf hashes over them and the nodes of the tree. -/
def receiptR : Digest := digestOf 0xb34b0fd47918fa34a1ac3f8d207c62c0179d5398421693100bab80714ed33e87
def receipt6 : Digest := digestOf 0xaf0be85c8818938e1478f595eb7266bd91c03e6571a6fb229a840db81d9dd80d
def receipt7 : Digest := digestOf 0x537c3aaecbeaa49bf2eaa00a25a234a9fceb7ea3c38f75cd85e2d04ea98b7e09
def receipt9 : Digest := digestOf 0x7824af8456888934763f34666a0f84885a863099437f9b316dc5e5dca1076b2c
def leafR : Digest := digestOf 0x997b81c67ba6f88083f5f483c6801315b61443acb967e9ee149488ebc3a3c6e7
def leaf6 : Digest := digestOf 0xf4f1f3ebc00c53f2298f848d77d9468b2c48721904374bc955fb898a38adc593
def leaf7 : Digest := digestOf 0x4677dc39b280ff0ac91ba1e8fe5539bc46aa03a1476c885f0df3f7216a272e1a
def leaf9 : Digest := digestOf 0x95748df3bea88fcc301539d0a80ba6e646b198cdc41d9482f234c4e1b7f421ee
def node02 : Digest := digestOf 0x27bbf4bdc895cf8def15b95ef0271ae654f390b1c2d964a8ee6a69c89d01154c
def node04 : Digest := digestOf 0x43d944fd4a9fdc49beba84e4316ad9cfee0b9aca66af7b8fbafc1150eff6fb8a
def root8 : Digest := digestOf 0xe44b9b8f33daad7dd567f0d20563b36488e998647da6baad3f17f2eb50ad050e
def root10 : Digest := digestOf 0x8a012266156f508f3b10f6a2c38a459cfc1abd2d02a0c0f358246219a8d26d3c
def node24 : Digest := digestOf 0xfd30c1442af6b04ff450332405dcecfb1c1244f5d2cad56e428e36a8a8aba104
def node46 : Digest := digestOf 0xbc72ce8c417cf3241ce53adf6d182c5d05856ef8f692e8010ed3075eb42f7a72
def node48 : Digest := digestOf 0x4430a51d7291eb4232c960f6602ccc141ad360221519f1f290163535ac44ab62
def node68 : Digest := digestOf 0x87f27be0bad2b7e2f003dd5bf24c6394f8c471bd3d1fc7c1892582da8fc524ea
def node89 : Digest := digestOf 0x62ea0d535c69fc3adc60c65e58e4db0b6bc0d6713cd6b18eda8f4ae1f583014b

/-! ### The log -/

def sigR : Bytes :=
  bytesBE 64 0x290c2e8ca4061e1705a2f745dc1acf12f30dc86f3653b6173f7a1c40fc96c501431a863f859206b95ddafb74cc59bc1d20dd02c332e584ecbf0113736c3b1b02
def sig6 : Bytes :=
  bytesBE 64 0xb206fe722634d828bb07892fbcc4ec816b2e9d8caae84c55ac29d8d630cecaed3f3a142d65949cab9182f8464c37b4e9ddde200c84da72d4befb0fdb33a67305
def sig7 : Bytes :=
  bytesBE 64 0x6df3c75bcf20d01f9c583e9a9e170280eef3e4f1506a8530dd2c797567200c0dab6b6500c525c371e4648fda514ef9171c3095d49cd0765624fff184affbf504
def sig9 : Bytes :=
  bytesBE 64 0x38cde1a6723072262041f46fc64daa2da8bfa823e2336ff37b9120592ebbd764306fbb5b3c8c1c14033dca33358c8eb8aa49f175c745aad110434d7455f73a0f
def cosig9 : Bytes :=
  bytesBE 64 0xb3c8eff98c1ed4c2d823399563676c86221e7acea36112d03b44e71d3b1dac69a1ffa5796da1193e0fbfd6c7fac382a347ebdb44fda5fa090fe0723be6d3d609

/-- An envelope with two signatures. -/
def cosigned : Value :=
  .object [("payload", .string (b64Encode (text noted))), ("payloadType", .string receiptType),
    ("signatures", .array [.object [("keyid", .string genesisKid), ("sig", .string (b64Encode sig9))],
      .object [("keyid", .string recorderKid), ("sig", .string (b64Encode cosig9))]])]

def entry0 : Value := entry 0 (envelope genesisCreated genesisKid genesisCreatedSig) [leafR, node24, node48, node89]
def entry1 : Value := entry 1 (envelope recorderCreated genesisKid sigR) [leaf0, node24, node48, node89]
def entry2 : Value := entry 2 (envelope enrolled genesisKid receiptSig1) [Granted.leaf2, node02, node48, node89]
def entry3 : Value := entry 3 (envelope born genesisKid receiptSig2) [Granted.leaf1, node02, node48, node89]
def entry4 : Value := entry 4 (envelope issued genesisKid receiptSig3) [Granted.leaf4, node68, node04, node89]
def entry5 : Value := entry 5 (envelope revised2 genesisKid receiptSig4) [Granted.leaf3, node68, node04, node89]
def entry6 : Value := entry 6 (envelope revisedAgain genesisKid sig6) [leaf7, node46, node04, node89]
def entry7 : Value := entry 7 (envelope revisedUnlinked genesisKid sig7) [leaf6, node46, node04, node89]
def entry8 : Value := entry 8 (envelope intended genesisKid receiptSig6) [leaf9, root8]
def entry9 : Value := entry 9 cosigned [Granted.leaf6, root8]

/-- The chain: two checkpoints of size 8, then one of size 10 that follows one of
size 9 which is not carried. -/
def bodyA : Value := checkpointBody 8 root8 "2026-01-01T00:00:05Z" ""
def hashA : Digest := digestOf 0x1efe2dfe760501f1ce4fe711390f5d480ef79c3710fd8f255ef6bb8794643e94
def bodyB : Value := checkpointBody 8 root8 "2026-01-01T00:00:06Z" (hex hashA.val)
def hashB : Digest := digestOf 0xef5803c1a65ad0995a9d2d59c4d36553d08387d35909c7cb1527df701115a6fd
def elided : Digest := digestOf 0x85251d6a7ec6b450f40d211b0497c8c31775d74a04fbe32c1760faa9f9dc466d
def bodyC : Value := checkpointBody 10 root10 "2026-01-01T00:00:07Z" (hex elided.val)
def hashC : Digest := digestOf 0x85040d46871f05044c8d6cf7dc639ef93a26317189d46cc36dd1def2bf743ba8

def bodyASig : Bytes :=
  bytesBE 64 0x4180e8806c0de09e1ca9d8da843a22b703cb6e492098a73ec40e94d4bebc4c4d66f969c3ee3cc69186a047626596e978273f886720271c6824ffbd64f3cdfe0a
def bodyBSig : Bytes :=
  bytesBE 64 0xb8bc245e64d77bd8497e619c633e6a3b1b24be964b40404773caae06d7ff7e30b25754ee0386035230e2b50e0fa52bd895ef3f5157918742c713a387bd280b0d
def bodyCSig : Bytes :=
  bytesBE 64 0x3ff13cc96afcc17f5d0c9993cbeecae4bcb78034fb48b9030c27ff262d7c9b6a9038d8667b7d26d4921f6fe92730edd36f63490df32fe93ef9dbfc041db75803
def assertedSig : Bytes :=
  bytesBE 64 0x70a173a09133a9633e5f60aa3210faa303125ece9d43936137d139038f80259da6c9c26ba4a12e5382c48a4a70c2b66376bb2a06fdf8cef98c5b2fd0b0945607

def target : Value := checkpoint bodyC genesisKid bodyCSig

/-- The second version of an assertion, over the last interval. -/
def asserted : Value :=
  .object [("appended", .number (.posInt 2)), ("authority_checkpoint_hash", .string (hex hashC.val)),
    ("from_hash", .string (hex hashB.val)), ("from_tree_size", .number (.posInt 8)),
    ("origin", .string "evd://tenant/acme"), ("schema", .string "evd/continuity/v2"),
    ("to_hash", .string (hex hashC.val)), ("to_tree_size", .number (.posInt 10))]

def assertions : List Value := [checkpoint asserted genesisKid assertedSig]

def rewritten : Value :=
  .object [("anchor_records", .array [anchor hashA "2026-01-01T00:01:00Z", anchor hashB "2026-01-01T00:02:00Z",
      anchor hashC "2026-01-01T00:03:00Z"]),
    ("checkpoint_chain", .array [.object [("checkpoint", checkpoint bodyA genesisKid bodyASig)],
      .object [("checkpoint", checkpoint bodyB genesisKid bodyBSig)],
      .object [("checkpoint", target), ("consistency_from_prev", .array [.string (hex node89.val)])]]),
    ("checkpoint_chain_profile", .string sparseCheckpointChainProfile), ("continuity", .array assertions),
    ("entries", .array [entry0, entry1, entry2, entry3, entry4, entry5, entry6, entry7, entry8, entry9]),
    ("jwks", .object [("keys", .array [genesisJwk, recorderJwk])]), ("origin", .string "evd://tenant/acme"),
    ("schema", .string "evd/bundle/v1"), ("target_checkpoint", target)]

/-- A relying party that names the recorder. -/
def trust : Option Value := some (.object [("recorder_keys", .object [(recorderKid, .string (hex recorder.val))])])

/-- What a verifier of the log hashes, and the digests. -/
def known : List (Bytes × Digest) :=
  [(text genesisCreated, receipt0), (text recorderCreated, receiptR), (text enrolled, Granted.receipt1),
    (text born, Granted.receipt2), (text issued, Granted.receipt3), (text revised2, Granted.receipt4),
    (text revisedAgain, receipt6), (text revisedUnlinked, receipt7), (text intended, Granted.receipt6),
    (text noted, receipt9), (0x00 :: receipt0.val, leaf0), (0x00 :: receiptR.val, leafR),
    (0x00 :: Granted.receipt1.val, Granted.leaf1), (0x00 :: Granted.receipt2.val, Granted.leaf2),
    (0x00 :: Granted.receipt3.val, Granted.leaf3), (0x00 :: Granted.receipt4.val, Granted.leaf4),
    (0x00 :: receipt6.val, leaf6), (0x00 :: receipt7.val, leaf7), (0x00 :: Granted.receipt6.val, Granted.leaf6),
    (0x00 :: receipt9.val, leaf9), (0x01 :: (leaf0.val ++ leafR.val), node02),
    (0x01 :: (Granted.leaf1.val ++ Granted.leaf2.val), node24), (0x01 :: (node02.val ++ node24.val), node04),
    (0x01 :: (Granted.leaf3.val ++ Granted.leaf4.val), node46), (0x01 :: (leaf6.val ++ leaf7.val), node68),
    (0x01 :: (node46.val ++ node68.val), node48), (0x01 :: (node04.val ++ node48.val), root8),
    (0x01 :: (Granted.leaf6.val ++ leaf9.val), node89), (0x01 :: (root8.val ++ node89.val), root10),
    (text bodyA, hashA), (text bodyB, hashB), (text bodyC, hashC),
    (genesis.val, digestOf 0x21fe31dfa154a261626bf854046fd2271b7bed4b6abe45aa58877ef47f9721b9),
    (deputy.val, digestOf 0x39f713d0a644253f04529421b9f51b9b08979d08295959c4f3990ee617f5139f),
    (recorder.val, digestOf 0xdac073e0123bdea59dd9b3bda9cf6037f63aca82627d7abcd5c4ac29dd74003e)]

def signed : List Signed :=
  [⟨genesis, pae receiptType (text genesisCreated), genesisCreatedSig⟩,
    ⟨genesis, pae receiptType (text recorderCreated), sigR⟩,
    ⟨genesis, pae receiptType (text enrolled), receiptSig1⟩, ⟨genesis, pae receiptType (text born), receiptSig2⟩,
    ⟨genesis, pae receiptType (text issued), receiptSig3⟩,
    ⟨genesis, pae receiptType (text revised2), receiptSig4⟩,
    ⟨genesis, pae receiptType (text revisedAgain), sig6⟩,
    ⟨genesis, pae receiptType (text revisedUnlinked), sig7⟩,
    ⟨genesis, pae receiptType (text intended), receiptSig6⟩, ⟨genesis, pae receiptType (text noted), sig9⟩,
    ⟨recorder, pae receiptType (text noted), cosig9⟩,
    ⟨genesis, pae "application/vnd.evd.checkpoint.v1+json" (text bodyA), bodyASig⟩,
    ⟨genesis, pae "application/vnd.evd.checkpoint.v1+json" (text bodyB), bodyBSig⟩,
    ⟨genesis, pae "application/vnd.evd.checkpoint.v1+json" (text bodyC), bodyCSig⟩,
    ⟨genesis, text asserted, assertedSig⟩,
    ⟨deputy, signedContext "authority.root.enrolled" enrolment, enrolledSig⟩,
    ⟨deputy, signedContext "authority.grant.issued" ([classes "payment", limits, subject] ++ window), issuedSig⟩,
    ⟨deputy, signedContext "authority.grant.revised" (narrowed ++ window), narrowedSig⟩,
    ⟨deputy, signedContext "authority.grant.revised" (rewrite ++ window), rewrittenSig⟩,
    ⟨deputy, signedContext "authority.grant.revised" (unlinked ++ window), unlinkedSig⟩]

/-- The crates on this log. -/
def crates : Crates := reference known signed
  [genesisCreated, recorderCreated, enrolled, born, issued, revised2, revisedAgain, revisedUnlinked, intended, noted]

/-- The digests are genuine. -/
theorem known_digests : ∀ p ∈ known, sha256 p.1 = p.2 := by
  -- one evaluation for each digest that the other logs do not have
  simp only [known, List.forall_mem_cons, List.not_mem_nil, false_imp_iff, implies_true, and_true]
  refine ⟨L3.Published.known_digest 0 rfl, ?_, Granted.known_digest 1 rfl, Granted.known_digest 2 rfl,
      Granted.known_digest 3 rfl, Granted.known_digest 4 rfl, ?_, ?_, Granted.known_digest 6 rfl, ?_,
      L3.Published.known_digest 4 rfl, ?_, Granted.known_digest 8 rfl, Granted.known_digest 9 rfl,
      Granted.known_digest 10 rfl, Granted.known_digest 11 rfl, ?_, ?_, Granted.known_digest 13 rfl, ?_, ?_, ?_,
      ?_, ?_, ?_, ?_, ?_, ?_, ?_, ?_, ?_, ?_, L3.Published.known_digest 13 rfl,
      L3.Published.known_digest 14 rfl, ?_⟩ <;>
    exact sha256_of_window (by decide +kernel)

theorem crates_sha256 : crates.sha256 = sha256 := reference_sha256 known signed _ known_digests

/-! ### What is read of it -/

/-- The revisions of the grant of an action: receipt hash, version, and whether
both versions read. -/
def revisionsRead (bundle : Value) (actionId : String) : Option (List (String × Option Int × Bool)) :=
  let rows := entryRows crates bundle
  (pickIntent rows (some actionId)).map fun p =>
    (revisionsOf crates rows (replayRoots crates rows).timeline (p.1.ctx.index "grant_id")).map fun r =>
      (r.rh, (r.ctx.get "grant_version").bind asInt, (grantVersion r).isSome)

/-- The log verifies: the recorder attests the last leaf and the assertion
covers the chain. The second checkpoint of size 8 keeps its own, later time,
and the two receipts for version 2 make no conflict. -/
theorem rewritten_checked : (verifyBundleFacts crates rewritten trust).ok = true ∧
    (verifyBundleFacts crates rewritten trust).recorderAttested = [9] ∧
    (verifyBundleFacts crates rewritten trust).continuityPresent = true ∧
    (verifyBundleFacts crates rewritten trust).continuityOk = true ∧
    clampedTimes crates rewritten = [(8, "2026-01-01T00:01:00.000000Z", "2026-01-01T00:01:00Z"),
      (8, "2026-01-01T00:02:00.000000Z", "2026-01-01T00:02:00Z"),
      (10, "2026-01-01T00:03:00.000000Z", "2026-01-01T00:03:00Z")] ∧
    (facts crates rewritten (some "pay-1")).authority = .notVerified ∧
    revisionsRead rewritten "pay-1" = some [(hex Granted.receipt4.val, some 2, true), (hex receipt6.val, some 2, true),
      (hex receipt7.val, some 3, false)] := by
  decide +kernel

end SwarrmVerify.L4.Rewritten

/-! ## Its rewrite -/

namespace SwarrmVerify.L5.Rewrites
open SwarrmVerify.L4.Bundle SwarrmVerify.L4.Action SwarrmVerify.L5.Noninterference

section
open SwarrmVerify.L4.Rewritten

/-- The rewritten log has two receipts for version 2. -/
theorem rewritten_rewrite : ∃ chosen dup, pickIntent (entryRows crates rewritten) (some "pay-1") = some (chosen, dup) ∧
    Rewrite crates rewritten chosen := by
  obtain ⟨_, _, _, _, _, _, hread⟩ := rewritten_checked
  rw [revisionsRead] at hread
  obtain ⟨⟨chosen, dup⟩, hpick, hrevs⟩ := Option.map_eq_some_iff.mp hread
  refine ⟨chosen, dup, hpick, ?_⟩
  obtain ⟨r, rest, hr, hfirst, hrest⟩ := List.map_eq_cons_iff.mp hrevs
  obtain ⟨r', rest', hr', hsecond, _⟩ := List.map_eq_cons_iff.mp hrest
  simp only [Prod.mk.injEq] at hfirst hsecond
  refine ⟨r, r', 2, mem_revisionsOf.mp ?_, mem_revisionsOf.mp ?_, ?_, hfirst.2.1, hsecond.2.1⟩
  · rw [hr]
    exact List.mem_cons_self
  · rw [hr, hr']
    exact List.mem_cons_of_mem _ List.mem_cons_self
  · rw [hfirst.1, hsecond.1]
    decide

theorem rewritten_conflict : ∃ chosen dup, pickIntent (entryRows crates rewritten) (some "pay-1") = some (chosen, dup) ∧
    ((authorityFacts crates rewritten (some "pay-1")).authority = .conflict ↔
      ∀ r, Revises crates rewritten chosen r → Readable r) := by
  obtain ⟨chosen, dup, hpick, hrewrite⟩ := rewritten_rewrite
  exact ⟨chosen, dup, hpick, conflict_iff crates rewritten trust (some "pay-1") chosen dup rewritten_checked.1 hpick hrewrite⟩

/-- Its third revision does not read, and there is no conflict. -/
theorem rewritten_unseen : (verifyBundleFacts crates rewritten trust).ok = true ∧
    (∃ chosen dup, pickIntent (entryRows crates rewritten) (some "pay-1") = some (chosen, dup) ∧
      Rewrite crates rewritten chosen) ∧
    (authorityFacts crates rewritten (some "pay-1")).authority = .notVerified := by
  obtain ⟨hok, _, _, _, _, hauthority, _⟩ := rewritten_checked
  refine ⟨hok, rewritten_rewrite, ?_⟩
  have hnone : (verifyBundleFacts crates rewritten none).ok = true :=
    (trust_noninterference crates rewritten none trust).1.trans hok
  rw [authorityFacts, if_pos hnone]
  exact hauthority

end

end SwarrmVerify.L5.Rewrites
