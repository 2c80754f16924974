import SwarrmVerify.Core.SortedMap
import SwarrmVerify.L4Bundle.Bundle
import SwarrmVerify.L4Dispute.Texts

/-!
# Two-party reconciliation (`dispute.rs`)

Each party presents a bundle. Receipts that name one action are grouped into
claims, the named material fields of the two sides are compared, and the whole
result is compared with the one that the package carries. A result that the
package does not carry word for word is no result.

The source builds its maps as it goes, keyed by texts, and takes them apart
again. The model keeps the order of its steps:

* `Party`, `party`: the receipts of one bundle by claim, in the order of the
  entries, and what was set aside;
* `values`, `compare`: the distinct values of a field on each side, in the
  order of their texts, and the fields that differ or that one side lacks;
* `statement`: one claim of both sides, with its outcome and its sentence;
* `reconcile`, `reverify`: the population of claims, the summary, and the
  comparison with the package.

The lemmas after the model say what each step leaves without its maps:
`of_foldl_push` and `keys_foldl_push` for claims, `mem_values` and `values_ext`
for values, `compareField_says` for one field. `compare_outcome`: agreement is
one set of values for every field, conflict a field that both sides carry with
different ones.
-/
namespace SwarrmVerify.L4.Dispute
open SwarrmVerify.L3.Receipt SwarrmVerify.L3.Keys SwarrmVerify.L4.Bundle

/-! ## Texts -/

/-- The named material fields; the first is a member of the body, the others of
its context. Nothing else of a receipt is compared. -/
def fields : List String :=
  ["action_type", "external_ref", "value", "amount", "amount_band", "currency", "counterparty", "counterparty_class",
    "recipient", "status", "result", "mandate_present"]

def scope : String :=
  "This reconciliation reports what each party's independently verified bundle can support. It does not determine fault, intent, liability, or which party's record reflects what actually happened. Absence of a receipt from a presented export is absence of support, not proof that no event occurred."

def conflictText : String :=
  "Both parties' verified bundles carry receipts for this claim; the named material fields do not carry the same values. This reconciliation reports the disagreement; it does not determine which record is accurate."

def oneSidedText : String :=
  "Both parties' verified bundles carry receipts for this claim, but one or more named material fields are carried by only one side. The presented evidence therefore cannot establish material agreement."

def agreementText : String :=
  "Both parties' verified bundles carry receipts for this claim and every material field carried by both sides matches."

def neitherText : String := "Neither party's verified bundle carries a receipt supporting this claim."

/-- One side has no receipt for the claim. What that is worth depends on whether
its export claims to be complete. -/
def lackingText (holder lacking : String) (incomplete : Bool) : String :=
  let note :=
    if incomplete then "its export makes no completeness claim"
    else "its signed export manifest proves the presented set intact, not that the party's log holds nothing else"
  holder ++ "'s verified bundle carries a receipt for this claim; " ++ lacking ++
    "'s verified bundle contains none, and " ++ note ++
    ". Absence of support is not proof that no event occurred."

/-! ## Building values -/

/-- `json!` of an object: a `BTreeMap`, so the members come in the order of
their names. -/
def obj (members : List (String × Value)) : Value := .object (SortedMap.ofList members)

/-- `json!` of a `usize` -/
def count (n : Nat) : Value := .number (.posInt (UInt64.ofNat n))

/-- `json!` of texts -/
def texts (ts : List String) : Value := .array (ts.map .string)

/-! ## The package -/

/-- A text that says something; the empty one is as good as none.
mirrors verify-rs/src/dispute.rs:20-22 -/
def nonempty (v : Value) : Option String := v.asStr.filter fun text => !text.isEmpty

def packageFields : List String :=
  ["schema", "case_ref", "party_labels", "contested_claims", "bundles", "reconciliation"]

/-- The header of a package: exactly its members, of this schema, with a case
and a reconciliation.
mirrors verify-rs/src/dispute.rs:24-33 -/
def header (package : Value) : Option Unit := do
  let object ← package.asObject
  if object.length ≠ packageFields.length || !packageFields.all (Value.hasKey object) ||
      (package.index "schema").asStr != some "evd/dispute-artifact/v1" then none
  let _ ← nonempty (package.index "case_ref")
  let _ ← (package.index "reconciliation").asObject
  return ()

/-- Two labels that differ, so that what is said of one party is not said of the
other. -/
structure Labels where
  first : String
  second : String
  distinct : first ≠ second

def Labels.swap (l : Labels) : Labels := ⟨l.second, l.first, l.distinct.symm⟩

/-- The labels of a package, in its own order. There is one bundle for each and
no other.
mirrors verify-rs/src/dispute.rs:35-46 -/
def labels (package : Value) : Option Labels := do
  match ← (package.index "party_labels").asArray with
  | [x, y] =>
    let a ← nonempty x
    let b ← nonempty y
    let bundles ← (package.index "bundles").asObject
    if h : a = b then none
    else if bundles.length ≠ 2 || !([a, b].all fun label => (bundles.lookup label).any Value.isObject) then none
    else some ⟨a, b, h⟩
  | _ => none

/-- What a package gives to recompute from: the labels, the bundles, and the
contested claims without repetition and in order.
mirrors verify-rs/src/dispute.rs:48-56 -/
def inputs (package : Value) : Option (Labels × List (String × Value) × List String) := do
  header package
  let labels ← labels package
  let claims ← (← (package.index "contested_claims").asArray).mapM nonempty
  if !(claims.zip claims.tail).all fun pair => decide (pair.1 < pair.2) then none
  else return (labels, ← (package.index "bundles").asObject, claims)

/-! ## One party -/

/-- What a receipt is to the reconciliation: the log's own, of no action, or a
view of one claim. -/
inductive Row where
  | internal
  | uncorrelated
  | claim (id : String) (view : Value)

/-- The named material fields of a body, those of them that it has. -/
def materialMembers (body : Value) : List (String × Value) :=
  ("action_type", body.index "action_type") ::
    (fields.drop 1).filterMap fun field => ((body.index "context").get field).map (field, ·)

/-- The material fields a receipt carries, and its hash, by which the statement
names it.
mirrors verify-rs/src/dispute.rs:77-84 -/
def view (body : Value) (hash : String) : Value := obj (materialMembers body ++ [("_receipt_hash", .string hash)])

/-- One entry. A receipt without a readable body or agent makes the whole side
unreadable.
mirrors verify-rs/src/dispute.rs:68-86 -/
def row (X : Crates) (entry : Value) : Option Row := do
  let body ← bodyOf X (entry.index "envelope")
  let agent ← (body.index "agent_id").asStr
  if startsWith agent "_" then return .internal
  match nonempty ((body.index "context").index "action_id") with
  | none => return .uncorrelated
  | some id => return .claim id (view body (← receiptHashHex X (entry.index "envelope")))

/-- The receipts of each claim, in the order of the entries, under the
identifier of the action. -/
abbrev Claims := List (String × List Value)

def Claims.of (claims : Claims) (id : String) : List Value := (claims.lookup id).getD []

def Claims.push (claims : Claims) : Row → Claims
  | .claim id v => SortedMap.insert id (claims.of id ++ [v]) claims
  | _ => claims

structure Facts where
  origin : Value
  trustRoot : String
  exportComplete : Option Bool
  claims : Nat
  uncorrelatedReceipts : Nat

def Facts.json (f : Facts) : Value :=
  obj [("origin", f.origin), ("trust_root", .string f.trustRoot),
    ("export_complete", (f.exportComplete.map .bool).getD .null), ("claims", count f.claims),
    ("uncorrelated_receipts", count f.uncorrelatedReceipts)]

structure Party where
  claims : Claims
  facts : Facts

def isUncorrelated : Row → Bool
  | .uncorrelated => true
  | _ => false

/-- One side: a bundle that verifies without any trust, its root, and its
receipts by claim.
mirrors verify-rs/src/dispute.rs:58-90 -/
def party (X : Crates) (bundle : Value) : Option Party := do
  let verified := verifyBundleFacts X bundle none
  if !verified.ok then none
  let entries ← (bundle.index "entries").asArray
  let first ← (collectKeyEntries X entries).head?
  let root ← receiptHashHex X first.env
  let rows ← entries.mapM (row X)
  let claims := rows.foldl Claims.push []
  return ⟨claims, ⟨bundle.index "origin", root, verified.complete, claims.length, rows.countP isUncorrelated⟩⟩

/-! ## One claim -/

/-- The distinct values of a field, in the order of their texts; of equal texts
the last value stays, and by the laws of the crate equal texts are of equal
values.
mirrors verify-rs/src/dispute.rs:152-160 -/
def values (S : Serde) (views : List Value) (field : String) : Option (List Value) := do
  let pairs ← (views.filterMap (·.get field)).mapM fun v => (valueKey S v).map (·, v)
  return (SortedMap.ofList pairs).map Prod.snd

/-- What one field contributes to a comparison. Values are kept where they are
to be shown. -/
inductive FieldResult where
  | absent
  | agreed
  | conflict (va vb : List Value)
  | oneSided (label : String)

/-- A field that neither side has is left out, one that both have is agreed on
or in conflict, and one of one side is noted under that side.
mirrors verify-rs/src/dispute.rs:166-181 -/
def compareField (S : Serde) (a b : List Value) (labels : Labels) (field : String) : Option FieldResult := do
  let va ← values S a field
  let vb ← values S b field
  match va.isEmpty, vb.isEmpty with
  | true, true => return .absent
  | false, false =>
    let ka ← va.mapM (valueKey S)
    let kb ← vb.mapM (valueKey S)
    return if ka = kb then .agreed else .conflict va vb
  | true, false => return .oneSided labels.second
  | false, true => return .oneSided labels.first

structure Comparison where
  agreedFields : List String := []
  conflictingFields : List (String × Value) := []
  oneSidedFields : List (String × Value) := []

def Comparison.add (labels : Labels) (c : Comparison) (field : String) : FieldResult → Comparison
  | .absent => c
  | .agreed => { c with agreedFields := c.agreedFields ++ [field] }
  | .conflict va vb =>
    { c with
      conflictingFields :=
        SortedMap.insert field (obj [(labels.first, .array va), (labels.second, .array vb)]) c.conflictingFields }
  | .oneSided label => { c with oneSidedFields := SortedMap.insert field (.string label) c.oneSidedFields }

inductive Outcome where
  | agreement
  | conflict
  | unsupported
  deriving DecidableEq

def Outcome.text : Outcome → String
  | .agreement => "AGREEMENT"
  | .conflict => "CONFLICT"
  | .unsupported => "UNSUPPORTED"

def Comparison.outcome (c : Comparison) : Outcome × String :=
  if !c.conflictingFields.isEmpty then (.conflict, conflictText)
  else if !c.oneSidedFields.isEmpty then (.unsupported, oneSidedText)
  else (.agreement, agreementText)

/-- The fields in their order, each with its own result; a field that cannot be
keyed leaves no comparison.
mirrors verify-rs/src/dispute.rs:162-190 -/
def compare (S : Serde) (a b : List Value) (labels : Labels) : Option Comparison :=
  fields.foldlM (fun c field => (compareField S a b labels field).map (c.add labels field)) {}

structure Claim where
  claimId : String
  supportedBy : List String
  unsupportedBy : List String
  receiptHashes : List (String × Value)
  comparison : Option Comparison
  outcome : Outcome
  statement : String

def Claim.contested (c : Claim) : Bool := c.outcome ≠ .agreement

def Comparison.members (c : Comparison) : List (String × Value) :=
  [("agreed_fields", texts c.agreedFields), ("conflicting_fields", .object c.conflictingFields),
    ("one_sided_fields", .object c.oneSidedFields)]

def Claim.json (c : Claim) : Value :=
  obj ([("claim_id", .string c.claimId), ("supported_by", texts c.supportedBy),
    ("unsupported_by", texts c.unsupportedBy), ("receipt_hashes", .object c.receiptHashes)] ++
    (c.comparison.map Comparison.members).getD [] ++
    [("outcome", .string c.outcome.text), ("statement", .string c.statement), ("contested", .bool c.contested)])

/-- What is said of one claim: both receipts, one or none, and in the first case
the comparison.
mirrors verify-rs/src/dispute.rs:192-215 -/
def statement (S : Serde) (labels : Labels) (a b : Party) (id : String) : Option Claim := do
  let va := a.claims.of id
  let vb := b.claims.of id
  let sides := [(labels.first, va), (labels.second, vb)]
  let hashes (views : List Value) : Value := .array (views.map (·.index "_receipt_hash"))
  let result (comparison : Option Comparison) (outcome : Outcome) (text : String) : Claim :=
    { claimId := id
      supportedBy := (sides.filter fun side => !side.2.isEmpty).map Prod.fst
      unsupportedBy := (sides.filter fun side => side.2.isEmpty).map Prod.fst
      receiptHashes := SortedMap.ofList [(labels.first, hashes va), (labels.second, hashes vb)]
      comparison, outcome, statement := text }
  match va.isEmpty, vb.isEmpty with
  | false, false =>
    let comparison ← compare S va vb labels
    return result (some comparison) comparison.outcome.1 comparison.outcome.2
  | false, true =>
    return result none .unsupported (lackingText labels.first labels.second b.facts.exportComplete.isNone)
  | true, false =>
    return result none .unsupported (lackingText labels.second labels.first a.facts.exportComplete.isNone)
  | true, true => return result none .unsupported neitherText

/-! ## The reconciliation -/

structure Reconciliation where
  parties : List (String × Value)
  claims : List Claim

namespace Reconciliation

def outcomes (r : Reconciliation) (o : Outcome) : Nat := r.claims.countP fun c => c.outcome = o

def contested (r : Reconciliation) : Nat := r.claims.countP Claim.contested

def summary (r : Reconciliation) : Value :=
  obj ([Outcome.agreement, .conflict, .unsupported].map (fun o => (o.text, count (r.outcomes o))) ++
    [("contested", count r.contested)])

def json (r : Reconciliation) : Value :=
  obj [("schema", .string "evd/two-party-reconciliation/v1"), ("scope", .string scope), ("parties", .object r.parties),
    ("claims", .array (r.claims.map Claim.json)), ("summary", r.summary)]

end Reconciliation

/-- The claims of either side and the contested ones, a `BTreeSet`: each once,
in order. -/
def population (a b : Party) (contested : List String) : List String :=
  (SortedMap.ofList ((a.claims.map Prod.fst ++ b.claims.map Prod.fst ++ contested).map (·, ()))).map Prod.fst

/-- What two bundles support. Two bundles of one party, by origin or by root,
support nothing.
mirrors verify-rs/src/dispute.rs:219-231 -/
def reconcile (S : Serde) (labels : Labels) (bundleA bundleB : Value) (contested : List String) :
    Option Reconciliation := do
  let a ← party S.toCrates bundleA
  let b ← party S.toCrates bundleB
  if a.facts.origin.eqv b.facts.origin || a.facts.trustRoot == b.facts.trustRoot then none
  let claims ← (population a b contested).mapM (statement S labels a b)
  return ⟨SortedMap.ofList [(labels.first, a.facts.json), (labels.second, b.facts.json)], claims⟩

/-- A package is reverified by recomputing it, from its bundles and nothing else
that it says.
mirrors verify-rs/src/dispute.rs:217-234 -/
def reverify (S : Serde) (package : Value) : Option Reconciliation := do
  let (labels, bundles, contested) ← inputs package
  let recomputed ← reconcile S labels ((bundles.lookup labels.first).getD .null)
    ((bundles.lookup labels.second).getD .null) contested
  let mine ← valueKey S recomputed.json
  let carried ← valueKey S (package.index "reconciliation")
  if mine = carried then some recomputed else none

/-! ## The receipts of a claim -/

/-- The view a row has of a claim, if the row is one of that claim. -/
def Row.viewOf (id : String) : Row → Option Value
  | .claim j v => if id = j then some v else none
  | _ => none

theorem Row.viewOf_eq_some {r : Row} {id : String} {v : Value} : r.viewOf id = some v ↔ r = .claim id v := by
  cases r with
  | claim j w =>
    rw [viewOf, Row.claim.injEq]
    by_cases h : id = j
    · subst h
      simp
    · simp [h, Ne.symm h]
  | _ => simp [viewOf]

theorem of_push (claims : Claims) (r : Row) (id : String) :
    (claims.push r).of id = claims.of id ++ (r.viewOf id).toList := by
  cases r with
  | claim j v =>
    simp only [Claims.push, Claims.of, SortedMap.lookup_insert, Row.viewOf]
    by_cases h : id = j
    · subst h
      simp
    · simp [h]
  | _ => simp [Claims.push, Row.viewOf]

/-- A claim holds the views of its rows, after those that it held before. By
induction on the rows. -/
theorem of_foldl_push (rows : List Row) (id : String) :
    ∀ claims : Claims, (rows.foldl Claims.push claims).of id = claims.of id ++ rows.filterMap (Row.viewOf id) := by
  induction rows with
  | nil => intro claims; simp
  | cons r rows ih =>
    intro claims
    rw [List.foldl_cons, ih, of_push, List.append_assoc]
    cases h : r.viewOf id <;> simp [h]

theorem keys_push {claims : Claims} {r : Row} {id : String} :
    id ∈ (claims.push r).map Prod.fst ↔ id ∈ claims.map Prod.fst ∨ (r.viewOf id).isSome = true := by
  cases r with
  | claim j v =>
    rw [Claims.push, SortedMap.mem_keys, SortedMap.mem_keys, SortedMap.lookup_insert, Row.viewOf]
    by_cases h : id = j <;> simp [h]
  | _ => simp [Claims.push, Row.viewOf]

/-- The claims are those of the rows, and a claim is never dropped. -/
theorem keys_foldl_push {rows : List Row} {id : String} : ∀ {claims : Claims},
    id ∈ (rows.foldl Claims.push claims).map Prod.fst ↔ id ∈ claims.map Prod.fst ∨ ∃ v, .claim id v ∈ rows := by
  induction rows with
  | nil => simp
  | cons r rows ih =>
    intro claims
    rw [List.foldl_cons, ih, keys_push, Option.isSome_iff_exists, or_assoc]
    simp only [Row.viewOf_eq_some, List.mem_cons, exists_or, @eq_comm _ r]

/-! ## Material fields -/

/-- A named material field of a body, where the body keeps it. -/
def material (body : Value) (field : String) : Option Value :=
  if field = "action_type" then some (body.index "action_type") else (body.index "context").get field

theorem mem_materialMembers {body v : Value} {field : String} :
    (field, v) ∈ materialMembers body ↔ field ∈ fields ∧ material body field = some v := by
  have hfirst : "action_type" ∉ fields.drop 1 := by decide
  have hfields : fields = "action_type" :: fields.drop 1 := rfl
  rw [materialMembers, List.mem_cons, List.mem_filterMap, material, hfields, List.mem_cons, ← hfields]
  simp only [Option.map_eq_some_iff, Prod.mk.injEq]
  by_cases h : field = "action_type"
  · subst h
    simp only [true_and, if_true, true_or, Option.some.injEq]
    constructor
    · rintro (rfl | ⟨f, hf, w, hw, rfl, rfl⟩)
      · rfl
      · exact absurd hf hfirst
    · exact fun he => .inl he.symm
  · simp only [h, false_and, false_or, if_false]
    constructor
    · rintro ⟨f, hf, w, hw, rfl, rfl⟩
      exact ⟨hf, hw⟩
    · exact fun ⟨hf, hv⟩ => ⟨field, hf, v, hv, rfl, rfl⟩

/-- A view carries the named material fields of the receipt, each with the value
it has there. -/
theorem view_get (body : Value) (hash : String) {field : String} (hf : field ∈ fields) :
    (view body hash).get field = material body field := by
  have hhash : "_receipt_hash" ∉ fields := by decide
  have hmem : ∀ e, e ∈ materialMembers body ++ [("_receipt_hash", Value.string hash)] ↔
      e.1 ∈ fields ∧ material body e.1 = some e.2 ∨ e = ("_receipt_hash", .string hash) := by
    intro e
    rw [List.mem_append, mem_materialMembers, List.mem_singleton]
  have hfunctional : ∀ e ∈ materialMembers body ++ [("_receipt_hash", Value.string hash)],
      ∀ d ∈ materialMembers body ++ [("_receipt_hash", Value.string hash)], e.1 = d.1 → e.2 = d.2 := by
    intro e he d hd hed
    rcases (hmem e).mp he with ⟨hef, hev⟩ | rfl
    · rcases (hmem d).mp hd with ⟨-, hdv⟩ | rfl
      · exact Option.some.inj (hev.symm.trans (hed ▸ hdv))
      · rw [hed] at hef
        exact absurd hef hhash
    · rcases (hmem d).mp hd with ⟨hdf, -⟩ | rfl
      · rw [← hed] at hdf
        exact absurd hdf hhash
      · rfl
  refine Option.ext fun v => ?_
  rw [view, obj, Value.get, SortedMap.lookup_ofList_iff hfunctional, hmem]
  constructor
  · rintro (⟨-, h⟩ | h)
    · exact h
    · exact absurd ((Prod.mk.inj h).1 ▸ hf) hhash
  · exact fun h => .inl ⟨hf, h⟩

/-! ## Values -/

/-- The values views have of a field, as a set: what the comparison is about. -/
def held (views : List Value) (field : String) : Set Value := { v | ∃ w ∈ views, w.get field = some v }

theorem mem_held {views : List Value} {field : String} {v : Value} :
    v ∈ views.filterMap (·.get field) ↔ v ∈ held views field := List.mem_filterMap

section Compared

variable {S : Serde} (hS : SerdeLaws S)

include hS

/-- A map from texts to values that have them: one text, one value. -/
theorem keyed_functional {pairs : List (List Char × Value)} (h : ∀ e ∈ pairs, valueKey S e.2 = some e.1) :
    ∀ e ∈ pairs, ∀ d ∈ pairs, e.1 = d.1 → e.2 = d.2 := by
  intro e he d hd hed
  have hd' := h d hd
  rw [← hed] at hd'
  exact valueKey_inj hS (h e he) hd'

/-- The map that the values of a field are read from. It is functional, so the
order in which views come does not matter. -/
theorem values_spec {views vs : List Value} {field : String} (h : values S views field = some vs) :
    ∃ pairs : List (List Char × Value), vs = (SortedMap.ofList pairs).map Prod.snd ∧
      (∀ e ∈ pairs, ∀ d ∈ pairs, e.1 = d.1 → e.2 = d.2) ∧
      ∀ k v, (k, v) ∈ pairs ↔ v ∈ held views field ∧ valueKey S v = some k := by
  unfold values at h
  obtain ⟨pairs, hpairs, hvs⟩ := Option.bind_eq_some_iff.mp h
  cases hvs
  have hmem : ∀ k v, (k, v) ∈ pairs ↔ v ∈ held views field ∧ valueKey S v = some k := by
    intro k v
    rw [← mem_held]
    constructor
    · intro he
      obtain ⟨w, hw, hkey⟩ := Checkpoint.mem_mapM hpairs he
      obtain ⟨j, hj, hjv⟩ := Option.map_eq_some_iff.mp hkey
      cases hjv
      exact ⟨hw, hj⟩
    · intro ⟨hv, hk⟩
      obtain ⟨e, he, hkey⟩ := Checkpoint.mem_of_mapM hpairs hv
      rw [hk] at hkey
      cases hkey
      exact he
  exact ⟨pairs, rfl, keyed_functional hS fun e he => ((hmem e.1 e.2).mp he).2, hmem⟩

theorem mem_values {views vs : List Value} {field : String} (h : values S views field = some vs) {v : Value} :
    v ∈ vs ↔ v ∈ held views field := by
  have hkeyed : ∀ w ∈ held views field, ∃ k, valueKey S w = some k := by
    intro w hw
    unfold values at h
    obtain ⟨pairs, hpairs, -⟩ := Option.bind_eq_some_iff.mp h
    obtain ⟨e, -, he⟩ := Checkpoint.mem_of_mapM hpairs (mem_held.mpr hw)
    obtain ⟨k, hk, -⟩ := Option.map_eq_some_iff.mp he
    exact ⟨k, hk⟩
  obtain ⟨pairs, rfl, hfun, hmem⟩ := values_spec hS h
  rw [List.mem_map]
  constructor
  · rintro ⟨⟨k, w⟩, he, rfl⟩
    have hlook := (SortedMap.sorted_ofList pairs).lookup_iff.mpr he
    exact ((hmem k w).mp ((SortedMap.lookup_ofList_iff hfun).mp hlook)).1
  · intro hv
    obtain ⟨k, hk⟩ := hkeyed v hv
    have hlook := (SortedMap.lookup_ofList_iff hfun).mpr ((hmem k v).mpr ⟨hv, hk⟩)
    exact ⟨(k, v), (SortedMap.sorted_ofList pairs).lookup_iff.mp hlook, rfl⟩

/-- Sides with one set of values list them alike, whatever their order and
repetitions. -/
theorem values_ext {a b va vb : List Value} {field : String} (ha : values S a field = some va)
    (hb : values S b field = some vb) (h : held a field = held b field) : va = vb := by
  obtain ⟨pa, rfl, hfun, hpa⟩ := values_spec hS ha
  obtain ⟨pb, rfl, -, hpb⟩ := values_spec hS hb
  rw [SortedMap.ofList_congr (fun e => ?_) hfun]
  rw [hpa e.1 e.2, hpb e.1 e.2, h]

theorem texts_inj {va vb : List Value} {ks : List (List Char)} (ha : va.mapM (valueKey S) = some ks)
    (hb : vb.mapM (valueKey S) = some ks) : va = vb := by
  rw [Checkpoint.mapM_eq_some] at ha hb
  have hmap := ha.trans hb.symm
  clear hb
  induction va generalizing vb ks with
  | nil => exact (List.map_eq_nil_iff.mp hmap.symm).symm
  | cons x va ih =>
    cases vb with
    | nil => cases hmap
    | cons y vb =>
      rw [List.map_cons, List.map_cons, List.cons.injEq] at hmap
      cases ks with
      | nil => cases ha
      | cons k ks =>
        rw [List.map_cons, List.map_cons, List.cons.injEq] at ha
        have hy := hmap.1.symm.trans ha.1
        rw [valueKey_inj hS ha.1 hy, ih ha.2 hmap.2]

/-- What the result for a field says of the values of the two sides, taken as
sets. -/
def FieldResult.Says (A B : Set Value) : FieldResult → Prop
  | .absent => A = ∅ ∧ B = ∅
  | .agreed => A.Nonempty ∧ A = B
  | .conflict _ _ => A.Nonempty ∧ B.Nonempty ∧ A ≠ B
  | .oneSided _ => A = ∅ ∧ B.Nonempty ∨ A.Nonempty ∧ B = ∅

theorem isEmpty_values {views vs : List Value} {field : String} (h : values S views field = some vs) :
    (vs.isEmpty = true → held views field = ∅) ∧ (vs.isEmpty = false → (held views field).Nonempty) := by
  cases vs with
  | nil =>
    refine ⟨fun _ => Set.eq_empty_of_forall_notMem fun v hv => ?_, fun he => ?_⟩
    · exact absurd ((mem_values hS h).mpr hv) List.not_mem_nil
    · cases he
  | cons v vs =>
    refine ⟨fun he => ?_, fun _ => ⟨v, (mem_values hS h).mp List.mem_cons_self⟩⟩
    cases he

/-- Fields are compared as sets of values: the lists that are compared are
canonical for them. -/
theorem compareField_says {a b : List Value} {labels : Labels} {field : String} {r : FieldResult}
    (h : compareField S a b labels field = some r) : r.Says (held a field) (held b field) := by
  unfold compareField at h
  obtain ⟨va, hva, h⟩ := Option.bind_eq_some_iff.mp h
  obtain ⟨vb, hvb, h⟩ := Option.bind_eq_some_iff.mp h
  obtain ⟨haEmpty, haSome⟩ := isEmpty_values hS hva
  obtain ⟨hbEmpty, hbSome⟩ := isEmpty_values hS hvb
  cases hae : va.isEmpty with
  | true =>
    cases hbe : vb.isEmpty with
    | true =>
      rw [hae, hbe] at h
      cases h
      exact ⟨haEmpty hae, hbEmpty hbe⟩
    | false =>
      rw [hae, hbe] at h
      cases h
      exact .inl ⟨haEmpty hae, hbSome hbe⟩
  | false =>
    cases hbe : vb.isEmpty with
    | true =>
      rw [hae, hbe] at h
      cases h
      exact .inr ⟨haSome hae, hbEmpty hbe⟩
    | false =>
      rw [hae, hbe] at h
      obtain ⟨ka, hka, h⟩ := Option.bind_eq_some_iff.mp h
      obtain ⟨kb, hkb, h⟩ := Option.bind_eq_some_iff.mp h
      by_cases hk : ka = kb
      · rw [if_pos hk] at h
        cases h
        have hvals : va = vb := texts_inj hS hka (hk ▸ hkb)
        refine ⟨haSome hae, Set.ext fun v => ?_⟩
        rw [← mem_values hS hva, ← mem_values hS hvb, hvals]
      · rw [if_neg hk] at h
        cases h
        refine ⟨haSome hae, hbSome hbe, fun hsets => hk ?_⟩
        rw [values_ext hS hva hvb hsets, hkb] at hka
        exact (Option.some.inj hka).symm

end Compared

/-! ## Outcomes -/

theorem insert_ne_nil {κ β : Type} [LinearOrder κ] (k : κ) (b : β) (m : List (κ × β)) : SortedMap.insert k b m ≠ [] := by
  intro he
  have hlook := SortedMap.lookup_insert k k b m
  rw [he, if_pos rfl] at hlook
  cases hlook

/-- The field makes a conflict; a field of one side does not. -/
def FieldResult.isConflict : FieldResult → Bool
  | .conflict _ _ => true
  | _ => false

def FieldResult.isOneSided : FieldResult → Bool
  | .oneSided _ => true
  | _ => false

theorem add_conflicting (labels : Labels) (c : Comparison) (field : String) (r : FieldResult) :
    (c.add labels field r).conflictingFields ≠ [] ↔ c.conflictingFields ≠ [] ∨ r.isConflict = true := by
  cases r with
  | conflict va vb => exact ⟨fun _ => .inr rfl, fun _ => insert_ne_nil _ _ _⟩
  | _ => exact ⟨.inl, fun h => h.resolve_right nofun⟩

theorem add_oneSided (labels : Labels) (c : Comparison) (field : String) (r : FieldResult) :
    (c.add labels field r).oneSidedFields ≠ [] ↔ c.oneSidedFields ≠ [] ∨ r.isOneSided = true := by
  cases r with
  | oneSided label => exact ⟨fun _ => .inr rfl, fun _ => insert_ne_nil _ _ _⟩
  | _ => exact ⟨.inl, fun h => h.resolve_right nofun⟩

/-- A comparison has a result for every field, and lists the conflicts and the
one-sided fields among them. By induction on the fields. -/
theorem compare_fold {S : Serde} {a b : List Value} {labels : Labels} (fs : List String) : ∀ (c c' : Comparison),
    fs.foldlM (fun c field => (compareField S a b labels field).map (c.add labels field)) c = some c' →
      (∀ f ∈ fs, ∃ r, compareField S a b labels f = some r) ∧
      (c'.conflictingFields ≠ [] ↔ c.conflictingFields ≠ [] ∨
        ∃ f ∈ fs, ∃ r, compareField S a b labels f = some r ∧ r.isConflict = true) ∧
      (c'.oneSidedFields ≠ [] ↔ c.oneSidedFields ≠ [] ∨
        ∃ f ∈ fs, ∃ r, compareField S a b labels f = some r ∧ r.isOneSided = true) := by
  induction fs with
  | nil =>
    intro c c' h
    cases h
    simp
  | cons f fs ih =>
    intro c c' h
    rw [List.foldlM_cons] at h
    obtain ⟨d, hd, h⟩ := Option.bind_eq_some_iff.mp h
    obtain ⟨r, hr, rfl⟩ := Option.map_eq_some_iff.mp hd
    obtain ⟨hall, hconflict, hone⟩ := ih _ _ h
    have hfirst : ∀ P : FieldResult → Prop, (∃ r', compareField S a b labels f = some r' ∧ P r') ↔ P r := by
      intro P
      rw [hr]
      simp
    refine ⟨?_, ?_, ?_⟩
    · rw [List.forall_mem_cons]
      exact ⟨⟨r, hr⟩, hall⟩
    · rw [hconflict, add_conflicting, List.exists_mem_cons_iff, hfirst, or_assoc]
    · rw [hone, add_oneSided, List.exists_mem_cons_iff, hfirst, or_assoc]

/-- Agreement: every field has one set of values on both sides. Conflict:
some field that both sides carry does not. -/
theorem compare_outcome {S : Serde} (hS : SerdeLaws S) {a b : List Value} {labels : Labels} {c : Comparison}
    (h : compare S a b labels = some c) :
    (c.outcome.1 = .agreement ↔ ∀ f ∈ fields, held a f = held b f) ∧
    (c.outcome.1 = .conflict ↔
      ∃ f ∈ fields, (held a f).Nonempty ∧ (held b f).Nonempty ∧ held a f ≠ held b f) := by
  obtain ⟨hall, hconflict, hone⟩ := compare_fold fields {} c h
  have hconflict' : c.conflictingFields ≠ [] ↔
      ∃ f ∈ fields, (held a f).Nonempty ∧ (held b f).Nonempty ∧ held a f ≠ held b f := by
    rw [hconflict]
    constructor
    · rintro (hnil | ⟨f, hf, r, hr, hrc⟩)
      · exact absurd rfl hnil
      · have hsays := compareField_says hS hr
        cases r with
        | conflict va vb => exact ⟨f, hf, hsays⟩
        | _ => cases hrc
    · rintro ⟨f, hf, hA, hB, hne⟩
      obtain ⟨r, hr⟩ := hall f hf
      refine .inr ⟨f, hf, r, hr, ?_⟩
      have hsays := compareField_says hS hr
      cases r with
      | conflict va vb => rfl
      | absent => exact absurd hsays.1 hA.ne_empty
      | agreed => exact absurd hsays.2 hne
      | oneSided label =>
        rcases hsays with ⟨hA', -⟩ | ⟨-, hB'⟩
        · exact absurd hA' hA.ne_empty
        · exact absurd hB' hB.ne_empty
  have hagree : c.conflictingFields = [] ∧ c.oneSidedFields = [] ↔ ∀ f ∈ fields, held a f = held b f := by
    constructor
    · intro ⟨hc, ho⟩ f hf
      obtain ⟨r, hr⟩ := hall f hf
      have hsays := compareField_says hS hr
      cases r with
      | absent => exact hsays.1.trans hsays.2.symm
      | agreed => exact hsays.2
      | conflict va vb => exact absurd hc (hconflict.mpr (.inr ⟨f, hf, _, hr, rfl⟩))
      | oneSided label => exact absurd ho (hone.mpr (.inr ⟨f, hf, _, hr, rfl⟩))
    · intro heq
      constructor
      · refine not_not.mp fun hne => ?_
        obtain ⟨f, hf, -, -, hdiff⟩ := hconflict'.mp hne
        exact hdiff (heq f hf)
      · refine not_not.mp fun hne => ?_
        rcases hone.mp hne with hnil | ⟨f, hf, r, hr, hro⟩
        · exact hnil rfl
        have hsays := compareField_says hS hr
        rw [heq f hf] at hsays
        cases r with
        | oneSided label =>
          rcases hsays with ⟨hA, hB⟩ | ⟨hA, hB⟩
          · exact hB.ne_empty hA
          · exact hA.ne_empty hB
        | _ => cases hro
  rw [← hconflict', ← hagree, Comparison.outcome]
  cases c.conflictingFields with
  | nil => cases c.oneSidedFields <;> simp
  | cons e m => simp


end SwarrmVerify.L4.Dispute
