import SwarrmVerify.L5Guarantees.Matching
import SwarrmVerify.L5Guarantees.Reconciliation

/-!
# Members that are carried twice (`certificate.rs`)

A certificate displays the evidence that its verdict input consumes, so its
members are carried twice: once for the reader, once for the engine. The echo
check compares the two carriages member by member. The attestation of the node
is not among its members, though the comment above it says that a doctored
input must not upgrade the headline.

Carriages agree if they are the same value or both are missing. The core comes
from CBOR and holds no floats, so the comparison by `==` is equality
(`L4Certificate.CoreValues`).

**Results.**
* `echoed_members`: what the check compares, and that it compares no more.
* `evidence_iff`: in a core without errors all carriages agree, exactly if
  those of the attestation do, whatever else the core carries.
* `cborToJson_toCbor`: JSON without floats, written as CBOR, is read back; this
  is how the example below is a core that can be received.
* `attestation_swapped`: a clean core that displays one attestation and has
  another consumed.
-/
namespace SwarrmVerify.L5.Echo
open SwarrmVerify.L4.Action SwarrmVerify.L4.Certificate SwarrmVerify.L5.Matching

variable {E : Engine} {c : Cbor.Value} {core : Value}

/-! ## The two carriages -/

/-- The members that the core declares and the engine reads, but the lists. -/
def twice : List String := ["claim", "source_identity", "control_evidence", "batch", "scan", "node_attestation"]

/-- A list; what is not truthy is the empty one. -/
def listed (v : Value) (k : String) : Value := ((v.get k).filter fun w => truthy (some w)).getD (.array [])

/-- The carriages of one member agree; null is absence. -/
def Carried (core : Value) (k : String) : Prop := core.getSome k = (core.index "verdict_input").getSome k

/-- Every member that is carried twice is carried alike. -/
def EvidenceAgrees (core : Value) : Prop :=
  (∀ k ∈ twice, Carried core k) ∧
    ∀ k ∈ ["events", "event_matches"], listed core k = listed (core.index "verdict_input") k

theorem no_errors {trust : Option Value} {bundle : Value} (h : (crossCheckErrors E core bundle trust).1 = []) :
    checkInputEcho core = true := by
  simp only [crossCheckErrors, List.map_eq_nil_iff, List.filter_eq_nil_iff] at h
  have hecho := h (checkInputEcho core, .verdictInputMismatch) (by simp)
  simpa using hecho

theorem getSome_floatless (hf : floatless core = true) {k : String} {x : Value} (h : core.getSome k = some x) :
    floatless x = true := floatless_get hf (Option.filter_eq_some_iff.mp h).1

/-- A list of the core is what is listed of it. -/
theorem listed_core (hgate : gatedCore c = .ok core) {k : String} (hk : k ∈ ["events", "event_matches"]) :
    listed core k = core.index k := by
  obtain ⟨-, hshape⟩ := gatedCore_floatless hgate
  simp only [coreShapeOk, Bool.and_eq_true, List.all_eq_true] at hshape
  have hmem : k ∈ ["events", "event_matches", "open_findings", "proof_digests", "limitations"] := by
    simp only [List.mem_cons, List.not_mem_nil, or_false] at hk ⊢
    tauto
  obtain ⟨xs, hxs⟩ := Option.isSome_iff_exists.mp (hshape.2 k hmem)
  obtain ⟨w, hw, hwx⟩ := Option.bind_eq_some_iff.mp hxs
  cases w with
  | array ys =>
    rw [listed, Value.index, hw]
    cases ys <;> rfl
  | _ => cases hwx

/-- What the echo check compares. -/
theorem echoed_members (hgate : gatedCore c = .ok core) (h : checkInputEcho core = true) :
    (∀ k ∈ ["claim", "source_identity", "control_evidence", "batch", "scan"], Carried core k) ∧
    ∀ k ∈ ["events", "event_matches"], listed core k = listed (core.index "verdict_input") k := by
  obtain ⟨hf, -⟩ := gatedCore_floatless hgate
  simp only [checkInputEcho, Bool.and_eq_true, List.all_eq_true] at h
  obtain ⟨⟨hevents, hmatches⟩, hmembers⟩ := h
  constructor
  · intro k hk
    exact eqvOpt_eq (fun x hx => getSome_floatless hf hx) (hmembers k hk)
  · intro k hk
    rw [listed_core hgate hk]
    simp only [List.mem_cons, List.not_mem_nil, or_false] at hk
    rcases hk with rfl | rfl
    · exact eqv_eq (floatless_index hf) hevents
    · exact eqv_eq (floatless_index hf) hmatches

/-- **Evidence.** In a core without errors all carriages agree exactly when
those of the node's attestation do, which nothing compares. -/
theorem evidence_iff (E : Engine) (c : Cbor.Value) (core : Value) (trust : Option Value)
    (hgate : gatedCore c = .ok core) (hclean : (crossCheckErrors E core (core.index "bundle") trust).1 = []) :
    EvidenceAgrees core ↔ Carried core "node_attestation" := by
  obtain ⟨hmembers, hlists⟩ := echoed_members hgate (no_errors hclean)
  constructor
  · exact fun h => h.1 "node_attestation" (by simp [twice])
  · intro hatt
    refine ⟨fun k hk => ?_, hlists⟩
    by_cases hnode : k = "node_attestation"
    · exact hnode ▸ hatt
    · refine hmembers k ?_
      simp only [twice, List.mem_cons, List.not_mem_nil, or_false] at hk ⊢
      tauto

/-! ## A clean core -/

mutual
/-- JSON without floats as CBOR. -/
def toCbor : Value → Cbor.Value
  | .null => .null
  | .bool b => .bool b
  | .number (.posInt n) => .integer n.toNat
  | .number (.negInt i) => .integer i.toInt
  | .number (.float _) => .null
  | .string s => .text s
  | .array xs => .array (itemsToCbor xs)
  | .object m => .map (membersToCbor m)
def itemsToCbor : List Value → List Cbor.Value
  | [] => []
  | x :: xs => toCbor x :: itemsToCbor xs
def membersToCbor : List (String × Value) → List (Cbor.Value × Cbor.Value)
  | [] => []
  | (k, x) :: m => (.text k, toCbor x) :: membersToCbor m
end

mutual
/-- JSON that is read back from CBOR within the depth: no floats, integers of
63 bits, members in the order of their names. -/
def carriable : Value → Int → Bool
  | .number (.posInt n), limit => decide (0 ≤ limit) && decide (n.toNat < 2 ^ 63)
  | .number (.negInt i), limit => decide (0 ≤ limit) && decide (i.toInt < 0)
  | .number (.float _), _ => false
  | .array xs, limit => decide (0 ≤ limit) && carriableItems xs (limit - 1)
  | .object m, limit =>
    decide (0 ≤ limit) && decide (m.Pairwise fun a b => a.1 < b.1) && carriableMembers m (limit - 1)
  | _, limit => decide (0 ≤ limit)
def carriableItems : List Value → Int → Bool
  | [], _ => true
  | x :: xs, limit => carriable x limit && carriableItems xs limit
def carriableMembers : List (String × Value) → Int → Bool
  | [], _ => true
  | (_, x) :: m, limit => carriable x limit && carriableMembers m limit
end

/-- A member that comes last in the order is put last. -/
theorem setMember_last {m : List (String × Value)} {k : String} (x : Value) (h : ∀ e ∈ m, e.1 < k) :
    setMember m k x = m ++ [(k, x)] := by
  induction m with
  | nil => rfl
  | cons e m ih =>
    obtain ⟨j, y⟩ := e
    rw [List.forall_mem_cons] at h
    rw [setMember, if_neg (ne_of_gt h.1), if_neg (lt_asymm h.1), ih h.2]
    rfl

mutual
/-- Such JSON is read back. -/
theorem cborToJson_toCbor : ∀ (v : Value) (limit : Int), carriable v limit = true →
    cborToJson (toCbor v) limit = some v
  | .null, limit, h => by
    have hl := of_decide_eq_true h
    rw [toCbor, cborToJson, if_neg (by omega)]
  | .bool b, limit, h => by
    have hl := of_decide_eq_true h
    rw [toCbor, cborToJson, if_neg (by omega)]
  | .string s, limit, h => by
    have hl := of_decide_eq_true h
    rw [toCbor, cborToJson, if_neg (by omega)]
  | .number (.posInt n), limit, h => by
    simp only [carriable, Bool.and_eq_true, decide_eq_true_eq] at h
    rw [toCbor, cborToJson, if_neg (by omega), numberOf, if_pos (by omega), if_pos (by omega)]
    simp
  | .number (.negInt i), limit, h => by
    simp only [carriable, Bool.and_eq_true, decide_eq_true_eq] at h
    have hlow := i.le_toInt
    rw [toCbor, cborToJson, if_neg (by omega), numberOf, if_pos (by omega), if_neg (by omega)]
    simp
  | .number (.float _), _, h => by cases h
  | .array xs, limit, h => by
    simp only [carriable, Bool.and_eq_true, decide_eq_true_eq] at h
    rw [toCbor, cborToJson, if_neg (by omega), itemsToJson_toCbor xs (limit - 1) h.2]
    rfl
  | .object m, limit, h => by
    simp only [carriable, Bool.and_eq_true, decide_eq_true_eq] at h
    rw [toCbor, cborToJson, if_neg (by omega), membersToJson_toCbor m (limit - 1) [] h.1.2 h.2]
    rfl
theorem itemsToJson_toCbor : ∀ (xs : List Value) (limit : Int), carriableItems xs limit = true →
    itemsToJson (itemsToCbor xs) limit = some xs
  | [], _, _ => rfl
  | x :: xs, limit, h => by
    rw [carriableItems, Bool.and_eq_true] at h
    rw [itemsToCbor, itemsToJson, cborToJson_toCbor x limit h.1, itemsToJson_toCbor xs limit h.2]
    rfl
theorem membersToJson_toCbor : ∀ (m : List (String × Value)) (limit : Int) (o : List (String × Value)),
    (o ++ m).Pairwise (fun a b => a.1 < b.1) → carriableMembers m limit = true →
      membersToJson (membersToCbor m) limit o = some (o ++ m)
  | [], _, o, _, _ => by rw [membersToCbor, membersToJson, List.append_nil]
  | (k, x) :: m, limit, o, ho, h => by
    rw [carriableMembers, Bool.and_eq_true] at h
    have hlast : ∀ e ∈ o, e.1 < k := fun e he => (List.pairwise_append.mp ho).2.2 e he (k, x) List.mem_cons_self
    have ho' : ((o ++ [(k, x)]) ++ m).Pairwise fun a b => a.1 < b.1 := by rwa [List.append_assoc]
    rw [membersToCbor, membersToJson, cborToJson_toCbor x limit h.1, Option.bind_eq_bind, Option.bind_some,
      setMember_last x hlast, membersToJson_toCbor m limit _ ho' h.2, List.append_assoc]
    rfl
end

section
open SwarrmVerify.L4.Presented SwarrmVerify.L4.Dispute

def clerkEngine : Engine := referenceEngine serde.toCrates

/-- What the log of the ledger supports. -/
def clerkFacts : Value :=
  .object [("authority", .string "NOT_VERIFIED"), ("identity", .string "NOT_VERIFIED"), ("integrity", .string "VALID"),
    ("intent", .string "NOT_RECORDED"), ("intent_interval", .object [("lower", .null), ("upper", .null)])]

/-- A core about no action, over the bundle of a ledger; it displays a revoked
attestation and has one that was issued consumed. -/
def swappedCore : Cbor.Value :=
  let unnamed := [("action_class", Value.string ""), ("action_id", .string "")]
  toCbor (.object [("bundle", acmeBundle),
    ("coverage_doc", .object [("event_count", .number (.posInt 0)),
      ("event_key_root", .string "4f53cda18c2baa0c0354bb5f9a3ecbe5ed12ab4d8e11ba873c2f11161202b945")]),
    ("event_matches", .array []), ("events", .array []), ("limitations", texts ["COVERAGE_CONVENTIONS_UNBOUND"]),
    ("node_attestation", .object [("state", .string "REVOKED")]), ("open_findings", .array []),
    ("proof_digests", .array []), ("schema", .string coreSchema),
    ("subject", .object (unnamed ++ [("origin", .string acme.origin)])),
    ("verdict_input", .object [("action", .object unnamed), ("authority", clerkFacts),
      ("node_attestation", .object [("state", .string "ISSUED")])])])

theorem swapped_checked : (match gatedCore swappedCore with
    | .ok core => (crossCheckErrors clerkEngine core (core.index "bundle") none).1.isEmpty &&
      (core.getSome "node_attestation").bind (·.getStr "state") !=
        ((core.index "verdict_input").getSome "node_attestation").bind (·.getStr "state")
    | .error _ => false) = true := by
  decide +kernel

theorem swapped_clean : ∃ core, gatedCore swappedCore = .ok core ∧
    (crossCheckErrors clerkEngine core (core.index "bundle") none).1 = [] ∧ ¬ Carried core "node_attestation" := by
  have hcheck := swapped_checked
  cases hcore : gatedCore swappedCore with
  | error code =>
    rw [hcore] at hcheck
    cases hcheck
  | ok core =>
    rw [hcore, Bool.and_eq_true, List.isEmpty_iff, bne_iff_ne] at hcheck
    exact ⟨core, rfl, hcheck.1, fun hatt => hcheck.2 (congrArg (·.bind (·.getStr "state")) hatt)⟩

/-- The core is clean, and its carriages differ. -/
theorem attestation_swapped : ∃ core, gatedCore swappedCore = .ok core ∧
    (crossCheckErrors clerkEngine core (core.index "bundle") none).1 = [] ∧ ¬ EvidenceAgrees core := by
  obtain ⟨core, hcore, hclean, hatt⟩ := swapped_clean
  exact ⟨core, hcore, hclean, fun h => hatt (h.1 "node_attestation" (by simp [twice]))⟩

/-- The condition decides this core. -/
theorem evidence_iff_swapped : ∃ core, gatedCore swappedCore = .ok core ∧
    (crossCheckErrors clerkEngine core (core.index "bundle") none).1 = [] ∧
    (EvidenceAgrees core ↔ Carried core "node_attestation") := by
  obtain ⟨core, hcore, hclean, -⟩ := swapped_clean
  exact ⟨core, hcore, hclean, evidence_iff clerkEngine swappedCore core none hcore hclean⟩

end

end SwarrmVerify.L5.Echo
