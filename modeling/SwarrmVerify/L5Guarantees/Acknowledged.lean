import SwarrmVerify.L4Bundle.Checkpoints
import SwarrmVerify.L4Handshake.Acknowledgement
import SwarrmVerify.L5Guarantees.SplitView

/-!
# Acknowledged history

An acknowledgement names two checkpoints of a log by their body hashes, and the
verifier looks the hashes up in the chain of a verified bundle. What it finds
is one of a few words; what the words mean is said here of the chain itself.
`Shows` says that the chain shows a checkpoint with this body hash and size,
`Means` what a coverage says of an acknowledgement and a bundle.

A verifier keeps no history of its own. But a counterparty that signed for a
checkpoint has committed itself to everything below it, since a body hash fixes
a root. Two acknowledgements that name one checkpoint therefore bring together
two bundles that never met.

**Results.**
* `size_iff`: the table of sizes is the chain, by body hash.
* `assessment_exact`: the verifier does not panic; every report is about some
  bundle that was strictly parsed and some acknowledgement; who signed, and
  what each coverage means.
* `acknowledged_history`: covered acknowledgements that name one checkpoint, of
  whatever counterparties, assessed beside whatever bundles, pin one history of
  the log below it, and each bundle grows as its acknowledgement says. The
  bytes that the bundles hash do not collide.
-/
namespace SwarrmVerify.L5.Acknowledged
open SwarrmVerify.L2.Merkle SwarrmVerify.L3.Receipt SwarrmVerify.L3.Keys
open SwarrmVerify.L4.Action (strictJson)
open SwarrmVerify.L4.Checkpoint SwarrmVerify.L4.Bundle SwarrmVerify.L4.Handshake
open SwarrmVerify.L5.Membership SwarrmVerify.L5.SplitView

variable {X : Crates}

/-! ## Sizes of the chain -/

/-- The chain shows a checkpoint with this body hash and size. -/
def Shows (X : Crates) (bundle : Value) (hash : String) (s : UInt64) : Prop :=
  ∃ cp ∈ chainOf bundle, checkpointBodyHash X cp = some hash ∧ bodyU64 cp "tree_size" = some s

section
variable {bundle : Value} {trust : Option Value} (hX : WriterLaws X)
  (h : (verifyBundleFacts X bundle trust).ok = true) (hc : CollisionFree X (viewHashed X bundle))
include hX h hc

/-- A body hash has one size in a chain. -/
theorem Shows.unique {hash : String} {m n : UInt64} (hm : Shows X bundle hash m) (hn : Shows X bundle hash n) :
    m = n := by
  obtain ⟨p, hp, hhash, hsize⟩ := hm
  obtain ⟨q, hq, hhash', hsize'⟩ := hn
  have hall := List.Subset.refl (viewHashed X bundle)
  exact (shared_body hX h h hc hall hall hp hq hhash hhash').2 m n hsize hsize'

theorem size_iff (hash : String) (s : UInt64) :
    (verifyBundleFacts X bundle trust).chainSizes.lookup hash = some s ↔ Shows X bundle hash s := by
  obtain ⟨checkpoints, hfacts⟩ := verified_checkpoints h
  obtain ⟨hread, hheld⟩ := checkpointFacts_spec hfacts.chain
  have hshown : ∀ v, checkpoints.lookup hash = some v → Shows X bundle hash v.2 := by
    intro v hv
    obtain ⟨cp, hcp, hhash, -, hsize⟩ := hread hash v hv
    exact ⟨cp, hcp, hhash, hsize⟩
  rw [hfacts.sizes]
  constructor
  · intro hs
    obtain ⟨v, hv, rfl⟩ := Option.map_eq_some_iff.mp hs
    exact hshown v hv
  · intro hs
    obtain ⟨cp, hcp, hhash, -⟩ := id hs
    obtain ⟨v, hv⟩ := Option.isSome_iff_exists.mp (hheld cp hcp hash hhash)
    rw [hv, Option.map_some, Shows.unique hX h hc hs (hshown v hv)]

end

/-! ## Coverage -/

/-- What a coverage says of an acknowledgement and a bundle. -/
def Means (X : Crates) (bundle : Value) (a : Acknowledgement) : Coverage → Prop
  | .otherOrigin => bundle.getStr "origin" ≠ some a.origin
  | .covered => bundle.getStr "origin" = some a.origin ∧
      ∃ m n, Shows X bundle a.fromHash m ∧ Shows X bundle a.toHash n ∧ m < n
  | .malformed => bundle.getStr "origin" = some a.origin ∧
      ∃ m n, Shows X bundle a.fromHash m ∧ Shows X bundle a.toHash n ∧ n ≤ m
  | .conflict => bundle.getStr "origin" = some a.origin ∧
      ((∀ m, ¬Shows X bundle a.fromHash m) ∨ ∀ n, ¬Shows X bundle a.toHash n)

theorem origin_eqv (a : Acknowledgement) (bundle : Value) :
    (a.json.index "origin").eqv (bundle.index "origin") = true ↔ bundle.getStr "origin" = some a.origin := by
  have horigin : a.json.index "origin" = .string a.origin := rfl
  rw [horigin, Value.index, Value.getStr]
  cases bundle.get "origin" with
  | none => simp [Value.eqv]
  | some v =>
    cases v with
    | string s =>
      simp only [Option.getD_some, Value.eqv, beq_iff_eq, Option.bind_some, Value.asStr, Option.some.injEq]
      exact eq_comm
    | _ => simp [Value.eqv, Value.asStr]

/-- Two body hashes of one chain have one pair of sizes. -/
theorem shows_pair {bundle : Value} {trust : Option Value} (hX : WriterLaws X)
    (h : (verifyBundleFacts X bundle trust).ok = true) (hc : CollisionFree X (viewHashed X bundle))
    {hash hash' : String} {m n : UInt64} (hm : Shows X bundle hash m) (hn : Shows X bundle hash' n)
    (R : UInt64 → UInt64 → Prop) : (∃ k l, Shows X bundle hash k ∧ Shows X bundle hash' l ∧ R k l) ↔ R m n := by
  constructor
  · rintro ⟨k, l, hk, hl, hR⟩
    rwa [Shows.unique hX h hc hm hk, Shows.unique hX h hc hn hl]
  · exact fun hR => ⟨m, n, hm, hn, hR⟩

theorem coverage_iff {bundle : Value} {trust : Option Value} (hX : WriterLaws X)
    (h : (verifyBundleFacts X bundle trust).ok = true) (hc : CollisionFree X (viewHashed X bundle))
    (a : Acknowledgement) (c : Coverage) :
    acknowledgementCoverage a.json bundle (verifyBundleFacts X bundle trust) = some c ↔ Means X bundle a c := by
  have hfrom : (a.json.index "from_hash").asStr = some a.fromHash := rfl
  have hto : (a.json.index "to_hash").asStr = some a.toHash := rfl
  have hsize := size_iff hX h hc
  have hnone : ∀ hash, (verifyBundleFacts X bundle trust).chainSizes.lookup hash = none →
      ∀ s, ¬Shows X bundle hash s := fun hash hnone s hs => by simp [(hsize hash s).mpr hs] at hnone
  unfold acknowledgementCoverage
  rw [hfrom, hto]
  by_cases horigin : bundle.getStr "origin" = some a.origin
  · rw [(origin_eqv a bundle).mpr horigin]
    cases hm : (verifyBundleFacts X bundle trust).chainSizes.lookup a.fromHash with
    | none => cases c <;> simp [Means, horigin, hnone _ hm, hm]
    | some m =>
      have hm' := (hsize _ _).mp hm
      cases hn : (verifyBundleFacts X bundle trust).chainSizes.lookup a.toHash with
      | none => cases c <;> simp [Means, horigin, hnone _ hn, hn]
      | some n =>
        have hn' := (hsize _ _).mp hn
        have hless := shows_pair hX h hc hm' hn' (· < ·)
        have hback := shows_pair hX h hc hm' hn' fun k l => l ≤ k
        have hshown : ¬((∀ m, ¬Shows X bundle a.fromHash m) ∨ ∀ n, ¬Shows X bundle a.toHash n) := by
          rintro (hno | hno)
          · exact hno m hm'
          · exact hno n hn'
        simp only [Bool.not_true, Bool.false_eq_true, if_false, Option.bind_eq_bind, Option.bind_some, hm, hn]
        by_cases hlt : m < n
        · cases c <;> simp only [Means, horigin, hshown, hless, hback, hlt, UInt64.not_le.mpr hlt] <;> simp
        · cases c <;> simp only [Means, horigin, hshown, hless, hback, hlt, UInt64.not_lt.mp hlt] <;> simp
  · have : (a.json.index "origin").eqv (bundle.index "origin") = false := by
      simpa using mt (origin_eqv a bundle).mp horigin
    rw [this]
    cases c <;> simp [Means, horigin]

/-! ## Assessments -/

variable {A : Assessor} {envelope context json : Bytes}

theorem coverage_means (hX : WriterLaws A.toCrates) {bundle : Value} {a : Acknowledgement} {r : Assessment}
    (h : Assessed A envelope context json bundle a r) (hc : CollisionFree A.toCrates (viewHashed A.toCrates bundle)) :
    Means A.toCrates bundle a r.coverage := (coverage_iff hX h.verified hc a r.coverage).mp h.coverage

/-- **Assessments.** The verifier does not panic. Every report is about some
strictly parsed bundle and some acknowledgement, and of such a bundle a coverage
is reported exactly if the bundle verifies by itself, a key of the local context
signed the acknowledgement, and the chain shows what the coverage means. -/
theorem assessment_exact (A : Assessor) (hX : WriterLaws A.toCrates) (envelope context json : Bytes) :
    (∃ s, verifyAcknowledgementJson A envelope context json = .ok s) ∧
    (∀ r, (assessment A envelope context json).run = .ok (some r) →
      ∃ bundle, ∃ a : Acknowledgement, strictJson A.toEngine json = some bundle ∧ r.acknowledgement = a.json) ∧
    ∀ bundle, strictJson A.toEngine json = some bundle →
      CollisionFree A.toCrates (viewHashed A.toCrates bundle) → ∀ (a : Acknowledgement) (c : Coverage),
        (∃ r, (assessment A envelope context json).run = .ok (some r) ∧ r.acknowledgement = a.json ∧ r.coverage = c) ↔
          json.length ≤ L4.Strict.maxBundleBytes ∧ (verifyBundleFacts A.toCrates bundle none).ok = true ∧
            (L1.Jcs.canonicalChecked A.toCrates bundle).isSome = true ∧
            Acknowledges A.toHost envelope context a ∧ Means A.toCrates bundle a c := by
  refine ⟨?_, fun r hr => ?_, fun bundle hparsed hc a c => ?_⟩
  · have hsafe : Panics.Safe (assessment A envelope context json).run := assessment_safe
    obtain ⟨o, ho⟩ := hsafe
    rw [verifyAcknowledgementJson, ho]
    exact ⟨_, rfl⟩
  · obtain ⟨bundle, a, h⟩ := assessment_iff.mp hr
    exact ⟨bundle, a, h.parsed, h.acknowledgement⟩
  · constructor
    · rintro ⟨r, hr, hack, rfl⟩
      obtain ⟨bundle', a', h⟩ := assessment_iff.mp hr
      obtain rfl : bundle = bundle' := Option.some.inj (hparsed.symm.trans h.parsed)
      obtain rfl : a = a' := Acknowledgement.json_injective (hack.symm.trans h.acknowledgement)
      obtain ⟨canon, hcanon, -⟩ := h.digest
      exact ⟨h.size, h.verified, by rw [hcanon]; rfl, h.acknowledges, coverage_means hX h hc⟩
    · rintro ⟨hsize, hok, hcanon, ha, hmeans⟩
      obtain ⟨canon, hcanon⟩ := Option.isSome_iff_exists.mp hcanon
      refine ⟨⟨a.json, c, hex (A.sha256 canon).val⟩, assessment_iff.mpr ⟨bundle, a, ?_⟩, rfl, rfl⟩
      exact ⟨hsize, hparsed, hok, ha, (coverage_iff hX hok hc a c).mpr hmeans, rfl, canon, hcanon, rfl⟩

/-- The bundle shows the older checkpoint, and the newer one extends it. -/
def Grows (X : Crates) (L : List Bytes) (bundle : Value) (a : Acknowledgement) : Prop :=
  ∃ p ∈ chainOf bundle, ∃ q ∈ chainOf bundle, ∃ d : Digest, checkpointBodyHash X p = some a.fromHash ∧
    checkpointBodyHash X q = some a.toHash ∧ (bodyStr q "root_hash").bind hexToBytes = some d.val ∧
    targetSize p < targetSize q ∧ Precedes X L (targetSize q).toNat d p

theorem covered_grows {L : List Bytes} {bundle : Value} {trust : Option Value} {a : Acknowledgement} (hX : WriterLaws X)
    (h : (verifyBundleFacts X bundle trust).ok = true) (hc : CollisionFree X L) (hL : viewHashed X bundle ⊆ L)
    (ha : Means X bundle a .covered) : Grows X L bundle a := by
  obtain ⟨-, m, n, ⟨p, hp, hfrom, hm⟩, ⟨q, hq, hto, hn⟩, hlt⟩ := ha
  obtain ⟨s, d, hs, hd, hseen⟩ := seen_below hX h hc hL hq
  have hpsize : targetSize p = m := by rw [targetSize, hm, Option.getD_some]
  have hqsize : targetSize q = s := by rw [targetSize, hs, Option.getD_some]
  obtain rfl : n = s := Option.some.inj (hn.symm.trans hs)
  refine ⟨p, hp, q, hq, d, hfrom, hto, hd, by rwa [hpsize, hqsize], ?_⟩
  rw [hqsize]
  exact hseen.chain p hp (by rw [hpsize]; exact UInt64.le_of_lt hlt)

/-- The acknowledgement names a checkpoint. -/
def Names (a : Acknowledgement) (hash : String) : Prop := hash = a.fromHash ∨ hash = a.toHash

theorem names_shown {bundle : Value} {a : Acknowledgement} {hash : String} (ha : Means X bundle a .covered)
    (hn : Names a hash) : ∃ cp ∈ chainOf bundle, checkpointBodyHash X cp = some hash := by
  obtain ⟨-, m, n, ⟨p, hp, hfrom, -⟩, ⟨q, hq, hto, -⟩, -⟩ := ha
  rcases hn with rfl | rfl
  · exact ⟨p, hp, hfrom⟩
  · exact ⟨q, hq, hto⟩

/-- **One acknowledged history.** Two acknowledgements, of whatever
counterparties, are covered by the bundles they were assessed beside and name
one checkpoint. Then the bundles agree below that checkpoint, and each shows the
range it covers as growth of one log. -/
theorem acknowledged_history (A : Assessor) (hX : WriterLaws A.toCrates)
    (envelope context json envelope' context' json' : Bytes) (bundle bundle' : Value) (a a' : Acknowledgement)
    (r r' : Assessment) (h : Assessed A envelope context json bundle a r)
    (h' : Assessed A envelope' context' json' bundle' a' r') (hcovered : r.coverage = .covered)
    (hcovered' : r'.coverage = .covered) (hash : String) (hnames : Names a hash) (hnames' : Names a' hash)
    (hc : CollisionFree A.toCrates (viewHashed A.toCrates bundle ++ viewHashed A.toCrates bundle')) :
    (∃ cp ∈ chainOf bundle, checkpointBodyHash A.toCrates cp = some hash ∧
      AgreeBelow A.toCrates bundle bundle' (targetSize cp)) ∧
    Grows A.toCrates (viewHashed A.toCrates bundle ++ viewHashed A.toCrates bundle') bundle a ∧
    Grows A.toCrates (viewHashed A.toCrates bundle ++ viewHashed A.toCrates bundle') bundle' a' := by
  obtain ⟨hL, hL'⟩ := List.append_subset.mp
    (List.Subset.refl (viewHashed A.toCrates bundle ++ viewHashed A.toCrates bundle'))
  have hmeans : Means A.toCrates bundle a .covered := hcovered ▸ coverage_means hX h (hc.mono hL)
  have hmeans' : Means A.toCrates bundle' a' .covered := hcovered' ▸ coverage_means hX h' (hc.mono hL')
  obtain ⟨cp, hcp, hhash⟩ := names_shown hmeans hnames
  obtain ⟨cp', hcp', hhash'⟩ := names_shown hmeans' hnames'
  obtain ⟨d, hseen, hseen'⟩ := shared_below hX h.verified h'.verified hc hL hL' hcp hcp' hhash hhash'
  exact ⟨⟨cp, hcp, hhash, hseen.agree hc hseen'⟩, covered_grows hX h.verified hc hL hmeans,
    covered_grows hX h'.verified hc hL' hmeans'⟩

section
open Sha256 SwarrmVerify.L1.CborWire SwarrmVerify.L1.Reference SwarrmVerify.L3.Published

/-! ## An acknowledgement of the published log

The counterparty's key is the third test key of RFC 8032, its signature is
genuine. -/

def counterparty : Digest := digestOf 0xfc51cd8e6218a1a38da47ed00230f0580816ed13ba3303ac5deb911548908025
def counterpartyKid : String := "2sBz4BI73qWd2bO9"

def core : C := .map [(.text "schema", .text "swarrm-b28/acknowledgement-core/v1"), (.text "profile", .text profile),
  (.text "counterparty", .text counterpartyKid), (.text "origin", .text "evd://tenant/acme"),
  (.text "from_hash", .text (hex body2Hash.val)), (.text "to_hash", .text (hex body4Hash.val)),
  (.text "issued_at", .integer 1767225604)]

def protectedHeader : Bytes :=
  (canonical (.map [(.integer 1, .integer (-8)), (.integer 3, .text media),
    (.integer 4, .bytes (utf8 counterpartyKid))])).getD []

def payload : Bytes := (canonical (.map [(.integer 265, .text profile), (.integer (-65537), core)])).getD []

def coreSig : Bytes :=
  bytesBE 64 0xc8e5687fd01107a2cf651fe9dc35462ad0efeb46ce7a16375e583437cf6bd9c315e7d41c8b5c75fc1a6fefebccb68f543dfd6aae2289d1f147b72310b8f97808

def seen : Bytes :=
  0xd2 :: (canonical (.array [.bytes protectedHeader, .map [], .bytes payload, .bytes coreSig])).getD []

/-- The counterparty's key and a clock. -/
def ownContext : Bytes :=
  (canonical (.map [(.text "schema", .text localAcknowledgementContext),
    (.text "keys", .array [.map [(.text "kid", .text counterpartyKid), (.text "public_key", .bytes counterparty.val)]]),
    (.text "now", .integer 1767225605)])).getD []

/-- The crates on the log and on the acknowledgement. -/
def witnessed : Crates :=
  reference known (⟨counterparty,
    (canonical (.array [.text "Signature1", .bytes protectedHeader, .bytes [], .bytes payload])).getD [], coreSig⟩ ::
      signed) receipts

/-- The log as the genesis key alone shows it. -/
def genesisOnly : Value := bundle [entry0]

/-- A verifier that reads two bundles of the log. -/
def desk : Assessor where
  toEngine := { L4.Action.referenceEngine witnessed with
    visit := fun b => [withoutDeputy, genesisOnly].find? fun v => text v = b }
  ciborium b := (readItem b.length b).map fun q => (q.1, b.length - q.2.length)
  edKey _ := true
  p256Key _ := none
  p256Signature _ := none
  normalizeS b := b
  p256Verify _ _ _ := false

/-- What the counterparty says. -/
def saw : Acknowledgement where
  counterparty := counterpartyKid
  fromHash := hex body2Hash.val
  issuedAt := 1767225604
  origin := "evd://tenant/acme"
  toHash := hex body4Hash.val

def views : List Value := [withoutDeputy, genesisOnly]

/-- The verifier on the two bundles. -/
theorem desk_checked : (views.map L1.Reference.text).Nodup ∧
    (∀ b ∈ viewHashed desk.toCrates withoutDeputy ++ viewHashed desk.toCrates genesisOnly, b ∈ known.map Prod.fst) ∧
    ∀ v ∈ views, (L4.Action.jsonNumbersLexicallyBounded (text v) = true ∧
      L4.Action.depthExceeds v L1.Jcs.maxDepth = false ∧ (text v).length ≤ L4.Strict.maxBundleBytes) ∧
      (verifyBundleFacts desk.toCrates v none).ok = true ∧
      acknowledgementCoverage saw.json v (verifyBundleFacts desk.toCrates v none) = some .covered ∧
      (L1.Jcs.canonicalChecked desk.toCrates v).isSome = true := by
  decide +kernel

theorem desk_collisionFree {L : List Bytes}
    (h : L ⊆ viewHashed desk.toCrates withoutDeputy ++ viewHashed desk.toCrates genesisOnly) :
    CollisionFree desk.toCrates L :=
  known_collisionFree.mono fun b hb => desk_checked.2.1 b (h hb)

theorem desk_reads {v : Value} (hv : v ∈ views) : strictJson desk.toEngine (text v) = some v := by
  have hvisit : desk.visit (text v) = some v := fromSlice_text known signed desk_checked.1 hv
  obtain ⟨⟨hnumbers, hdepth, -⟩, -⟩ := desk_checked.2.2 v hv
  have hstrict : L4.Action.strictValue v = some v := by
    simp only [views, List.mem_cons, List.not_mem_nil, or_false] at hv
    rcases hv with rfl | rfl <;> rfl
  rw [strictJson, hnumbers, hvisit]
  simp [hstrict, hdepth]

theorem seen_acknowledges : Acknowledges desk.toHost seen ownContext saw := by
  have hread : ((verifiedAcknowledgement desk.toHost seen ownContext).run.toOption.bind id).any (fun v =>
      decide (v.getStr "counterparty" = some saw.counterparty ∧ v.getStr "from_hash" = some saw.fromHash ∧
        v.getU64 "issued_at" = some saw.issuedAt ∧ v.getStr "origin" = some saw.origin ∧
        v.getStr "to_hash" = some saw.toHash)) = true := by decide +kernel
  obtain ⟨v, hv, hread⟩ := (Option.any_eq_true _ _).mp hread
  have hrun : (verifiedAcknowledgement desk.toHost seen ownContext).run = .ok (some v) := by
    cases hrun : (verifiedAcknowledgement desk.toHost seen ownContext).run with
    | error e =>
      rw [hrun] at hv
      cases hv
    | ok o =>
      rw [hrun] at hv
      exact congrArg Except.ok hv
  obtain ⟨a, ha, rfl⟩ := verifiedAcknowledgement_iff.mp hrun
  obtain ⟨hc, hf, hi, ho, ht⟩ := of_decide_eq_true hread
  have ha' : a = saw := by
    obtain ⟨c, f, i, o, t⟩ := a
    obtain rfl : c = saw.counterparty := Option.some.inj hc
    obtain rfl : f = saw.fromHash := Option.some.inj hf
    obtain rfl : i = saw.issuedAt := by
      rw [← UInt64.ofNat_toNat (x := i)]
      exact Option.some.inj hi
    obtain rfl : o = saw.origin := Option.some.inj ho
    obtain rfl : t = saw.toHash := Option.some.inj ht
    rfl
  rwa [ha'] at ha

/-- The assessment of the acknowledgement beside a bundle of the log. -/
theorem seen_assessed {v : Value} (hv : v ∈ views) :
    ∃ r, Assessed desk seen ownContext (text v) v saw r ∧ r.coverage = .covered := by
  obtain ⟨⟨-, -, hsize⟩, hok, hcovered, hcanon⟩ := desk_checked.2.2 v hv
  obtain ⟨canon, hcanon⟩ := Option.isSome_iff_exists.mp hcanon
  exact ⟨⟨saw.json, .covered, hex (desk.sha256 canon).val⟩,
    ⟨hsize, desk_reads hv, hok, seen_acknowledges, hcovered, rfl, canon, hcanon, rfl⟩, rfl⟩

theorem assessment_exact_published : WriterLaws desk.toCrates ∧
    CollisionFree desk.toCrates (viewHashed desk.toCrates withoutDeputy) ∧
    ∃ r, (assessment desk seen ownContext (text withoutDeputy)).run = .ok (some r) ∧ r.acknowledgement = saw.json ∧
      r.coverage = .covered ∧
      ∃ bundle, ∃ a : Acknowledgement, strictJson desk.toEngine (text withoutDeputy) = some bundle ∧
        r.acknowledgement = a.json := by
  have hX : WriterLaws desk.toCrates := reference_writerLaws _ _ _
  have hc : CollisionFree desk.toCrates (viewHashed desk.toCrates withoutDeputy) :=
    desk_collisionFree (List.subset_append_left _ _)
  have hv : withoutDeputy ∈ views := List.mem_cons_self
  obtain ⟨⟨-, -, hsize⟩, hok, hcovered, hcanon⟩ := desk_checked.2.2 _ hv
  obtain ⟨-, hsource, hexact⟩ := assessment_exact desk hX seen ownContext (text withoutDeputy)
  obtain ⟨r, hr, hack, hcoverage⟩ := (hexact withoutDeputy (desk_reads hv) hc saw .covered).mpr
    ⟨hsize, hok, hcanon, seen_acknowledges, (coverage_iff hX hok hc saw .covered).mp hcovered⟩
  exact ⟨hX, hc, r, hr, hack, hcoverage, hsource r hr⟩

theorem acknowledged_history_published :
    (∃ cp ∈ chainOf withoutDeputy, checkpointBodyHash desk.toCrates cp = some saw.toHash ∧
      AgreeBelow desk.toCrates withoutDeputy genesisOnly (targetSize cp)) ∧
    Grows desk.toCrates (viewHashed desk.toCrates withoutDeputy ++ viewHashed desk.toCrates genesisOnly) withoutDeputy
      saw := by
  have hv : withoutDeputy ∈ views := List.mem_cons_self
  have hv' : genesisOnly ∈ views := List.mem_of_getLast? rfl
  obtain ⟨r, hr, hcovered⟩ := seen_assessed hv
  obtain ⟨r', hr', hcovered'⟩ := seen_assessed hv'
  obtain ⟨hagree, hgrows, -⟩ := acknowledged_history desk (reference_writerLaws _ _ _) _ _ _ _ _ _ _ _ _ _ _ _ hr hr'
    hcovered hcovered' saw.toHash (.inr rfl) (.inr rfl) (desk_collisionFree (List.Subset.refl _))
  exact ⟨hagree, hgrows⟩

end

end SwarrmVerify.L5.Acknowledged
