import SwarrmVerify.Core.Panics
import SwarrmVerify.L1Encoding.Text
import SwarrmVerify.L3KeyLog.Receipt
import SwarrmVerify.L1Encoding.CborWire

/-!
# Documents of a Counterparty Assurance exchange (`b28.rs`)

An exchange carries closed CBOR documents: a schema name, a fixed set of
members and conditions on them. The verifier reads members by `doc[name]`,
which panics where the member is missing, so every reading is a run
(`Core.Panics`).

The source has one function for each schema, all of one form. Here `Shape` is
that form: the schema name, the members with a rule for each, and the
conditions that hold between members, in the order of the source, each as a run
that may read what was checked before it. A rule is about one member (its kind,
its length, its range); `Rule.two`, `Rule.three` and `Rule.four` are about
several at once.

**Results.**
* `Shape.read_safe`, `Shape.validate_safe`: checking a document does not panic,
  for a shape whose conditions return on documents that meet its rules.
* `Shape.validate_holds`: a document that validates has exactly the members of
  its shape, and its conditions hold (`Shape.Holds`).
* `Shape.Holds.index`: every member of such a document can be read.
-/
namespace SwarrmVerify.L4.Handshake
open Panics SwarrmVerify.L1.CborWire

abbrev C := Cbor.Value

/-- What only this layer calls. -/
structure Host extends Crates where
  /-- `ciborium::de::from_reader_with_recursion_limit`: the value and the bytes read -/
  ciborium : Bytes → Option (C × Nat)
  /-- `ed25519_dalek::VerifyingKey::from_bytes` is ok -/
  edKey : Digest → Bool
  /-- `p256::ecdsa::VerifyingKey::from_sec1_bytes` -/
  p256Key : Bytes → Option Bytes
  /-- `p256::ecdsa::Signature::from_der` -/
  p256Signature : Bytes → Option Bytes
  /-- `Signature::normalize_s` -/
  normalizeS : Bytes → Bytes
  /-- `VerifyingKey::verify` -/
  p256Verify : Bytes → Bytes → Bytes → Bool

/-! ## Values -/

mutual
/-- `==` on `ciborium::Value`. -/
def eqv : C → C → Bool
  | .integer a, .integer b => a == b
  | .bytes a, .bytes b => a == b
  | .float a, .float b => F64.eqv ⟨a⟩ ⟨b⟩
  | .text a, .text b => a == b
  | .bool a, .bool b => a == b
  | .null, .null => true
  | .tag t v, .tag u w => t == u && eqv v w
  | .array xs, .array ys => eqvItems xs ys
  | .map m, .map n => eqvMembers m n
  | _, _ => false
def eqvItems : List C → List C → Bool
  | [], [] => true
  | x :: xs, y :: ys => eqv x y && eqvItems xs ys
  | _, _ => false
def eqvMembers : List (C × C) → List (C × C) → Bool
  | [], [] => true
  | (j, x) :: xs, (k, y) :: ys => eqv j k && eqv x y && eqvMembers xs ys
  | _, _ => false
end

def isNull : C → Bool
  | .null => true
  | _ => false

/-- A text, of whatever length and content.
mirrors verify-rs/src/b28.rs:129-135 -/
def text : C → Option String
  | .text s => some s
  | _ => none

/-- A text that says something, within a number of bytes and without a NUL.
mirrors verify-rs/src/b28.rs:136-139 -/
def bounded (v : C) (maximum : Nat) : Option String :=
  (text v).filter fun s => s != "" && (utf8 s).length ≤ maximum && !(utf8 s).contains 0

/-- A byte string, of whatever length. mirrors verify-rs/src/b28.rs:140-146 -/
def bytes : C → Option Bytes
  | .bytes b => some b
  | _ => none

/-- A byte string of one length. mirrors verify-rs/src/b28.rs:147-150 -/
def fixed (v : C) (size : Nat) : Option Bytes := (bytes v).filter fun b => b.length == size

/-- The source's `opaque`: 32 bytes, not all zero.
mirrors verify-rs/src/b28.rs:151-154 -/
def opaqueBytes (v : C) : Option Bytes := (fixed v 32).filter fun b => b.any (· != 0)

/-- An integer that is not negative and is within `i64`.
mirrors verify-rs/src/b28.rs:155-159 -/
def uint : C → Option Nat
  | .integer i => if 0 ≤ i ∧ i < 2 ^ 63 then some i.toNat else none
  | _ => none

/-- An integer above zero. mirrors verify-rs/src/b28.rs:160-163 -/
def positive (v : C) : Option Nat := (uint v).filter (0 < ·)

/-- An array within a cap. mirrors verify-rs/src/b28.rs:87-90 -/
def array (v : C) (cap : Nat) : Option (List C) :=
  match v with
  | .array xs => if xs.length ≤ cap then some xs else none
  | _ => none

def nonzeroDigit (b : UInt8) : Bool := 49 ≤ b && b ≤ 57

/-- Up to 78 digits without a leading zero. -/
def canonicalDecimal (s : String) : Run Bool :=
  let b := utf8 s
  if s == "0" then pure true
  else allOf [pure !b.isEmpty, pure (b.length ≤ 78), do return nonzeroDigit (← item b 0),
    do return (← sliceOf b 1 b.length).all asciiDigit]

/-- A decimal in its canonical form, which compares by its length and its
digits.
mirrors verify-rs/src/b28.rs:164-169 -/
def decimal (v : C) : Run (Option String) :=
  match text v with
  | none => return none
  | some s => do return if ← canonicalDecimal s then some s else none

/-- The order of two canonical decimals: the shorter is the smaller.
mirrors verify-rs/src/b28.rs:733-735 -/
def decimalAtMost (left right : C) : Run Bool := do
  match ← decimal left, ← decimal right with
  | some a, some b =>
    return (utf8 a).length < (utf8 b).length ||
      ((utf8 a).length == (utf8 b).length && decide (byteOrder (utf8 a) ≤ byteOrder (utf8 b)))
  | _, _ => return false

/-! ## Names -/

def profile : String := "https://swarrm.ai/spec/eat/b28/cwt/v1"

def profileV2 : String := "https://swarrm.ai/spec/eat/action/cwt/v2"

def v1Ns : String := "swarrm-b28/"

def v2Ns : String := "swarrm/"

def media : String := "application/eat+cwt"

def nonAssertion : String :=
  "This proves identity, current proof-bearing authority and durable replay at a bounded checkpoint. It does not evaluate Node, source, coverage, history or post-action evidence readiness in v1, predict behaviour, certify an outcome, establish later evidence, or express a Swarrm opinion."

def maxCwt : Nat := 65536

def maxLocalItems : Nat := 64

/-- The profile in either of its generations.
mirrors verify-rs/src/b28.rs:98-100 -/
def profileMatches (observed : Option String) : Bool := observed == some profile || observed == some profileV2

/-- `str::replacen(from, to, 1)` for a text that is not empty. -/
def replaceFirst (old new : List Char) : List Char → List Char
  | [] => []
  | c :: cs => if old.isPrefixOf (c :: cs) then new ++ (c :: cs).drop old.length else c :: replaceFirst old new cs

/-- A name of the second generation is read as its twin of the first.
mirrors verify-rs/src/b28.rs:105-107 -/
def acceptedName (observed : Option String) (expected : String) : Bool :=
  observed.any fun s => String.ofList (replaceFirst v2Ns.toList v1Ns.toList s.toList) == expected

/-! ## Documents -/

abbrev Doc := List (String × C)

/-- `BTreeMap::insert` of an entry with a new text key. -/
def addMember (out : Doc) (e : C × C) : Option Doc :=
  match e.1 with
  | .text key => if (out.lookup key).isSome then none else some (out ++ [(key, e.2)])
  | _ => none

/-- A map as a document: its keys are texts, and none is there twice.
mirrors verify-rs/src/b28.rs:91-97 -/
def mapDoc : C → Option Doc
  | .map entries => entries.foldlM addMember []
  | _ => none

/-- The document of a value of any schema.
mirrors verify-rs/src/b28.rs:126-128 -/
def plain (v : C) : Option Doc := mapDoc v

/-- A document of a schema with exactly its fields.
mirrors verify-rs/src/b28.rs:120-125 -/
def document (v : C) (schema : Option String) (fields : List String) : Option Doc :=
  (mapDoc v).filter fun doc =>
    doc.length == fields.length + (if schema.isSome then 1 else 0) &&
      fields.all (fun f => (doc.lookup f).isSome) &&
      schema.all fun s => acceptedName ((doc.lookup "schema").bind text) s

/-- A member of a document as an entry of the map it was read from. -/
def entry (e : String × C) : C × C := (.text e.1, e.2)

theorem lookup_eq_some_iff_mem {doc : Doc} (h : (doc.map Prod.fst).Nodup) {k : String} {x : C} :
    doc.lookup k = some x ↔ (k, x) ∈ doc := by
  induction doc with
  | nil => simp
  | cons e doc ih =>
    obtain ⟨j, y⟩ := e
    rw [List.map_cons, List.nodup_cons] at h
    rw [List.lookup_cons, List.mem_cons, Prod.mk.injEq]
    split
    · rename_i hk
      rw [beq_iff_eq] at hk
      subst hk
      have hnot : (k, x) ∉ doc := fun hm => h.1 (List.mem_map.mpr ⟨_, hm, rfl⟩)
      simp [hnot, eq_comm]
    · rename_i hk
      rw [ih h.2]
      have hne : k ≠ j := by simpa using hk
      simp [hne]

/-- The fold of `mapDoc`, from what it has read so far. -/
theorem mapDoc_fold (entries : List (C × C)) : ∀ (out doc : Doc), (out.map Prod.fst).Nodup →
    (entries.foldlM addMember out = some doc ↔
      ∃ rest, entries = rest.map entry ∧ doc = out ++ rest ∧ (doc.map Prod.fst).Nodup) := by
  induction entries with
  | nil =>
    intro out doc hout
    simp only [List.foldlM_nil]
    constructor
    · intro h
      cases h
      exact ⟨[], rfl, (List.append_nil out).symm, hout⟩
    · intro h
      obtain ⟨rest, hrest, rfl, -⟩ := h
      rw [List.map_eq_nil_iff.mp hrest.symm, List.append_nil]
      rfl
  | cons e entries ih =>
    intro out doc hout
    obtain ⟨k, x⟩ := e
    rw [List.foldlM_cons]
    cases k with
    | text key =>
      have hmem : (out.lookup key).isSome = true ↔ key ∈ out.map Prod.fst := by
        rw [Option.isSome_iff_exists]
        simp [lookup_eq_some_iff_mem hout]
      constructor
      · intro h
        obtain ⟨out', ho, h⟩ := Option.bind_eq_some_iff.mp h
        dsimp only [addMember] at ho
        split at ho
        · cases ho
        · rename_i hnew
          cases ho
          rw [hmem] at hnew
          have hnext : ((out ++ [(key, x)]).map Prod.fst).Nodup := by
            rw [List.map_append, List.nodup_append]
            refine ⟨hout, by simp, ?_⟩
            intro a ha b hb hab
            rw [List.map_singleton, List.mem_singleton] at hb
            subst hb hab
            exact hnew ha
          obtain ⟨rest, rfl, rfl, hdoc⟩ := (ih _ _ hnext).mp h
          exact ⟨(key, x) :: rest, rfl, by simp, hdoc⟩
      · intro h
        obtain ⟨rest, hrest, rfl, hdoc⟩ := h
        cases rest with
        | nil => cases hrest
        | cons r rest =>
          rw [List.map_cons, List.cons.injEq] at hrest
          obtain ⟨hr, rfl⟩ := hrest
          obtain ⟨j, y⟩ := r
          simp only [entry, Prod.mk.injEq, Cbor.Value.text.injEq] at hr
          obtain ⟨rfl, rfl⟩ := hr
          have hprefix : ((out ++ [(key, x)]).map Prod.fst).Nodup := by
            refine hdoc.sublist (List.Sublist.map _ ?_)
            simp
          have hnew : ¬ (out.lookup key).isSome = true := by
            rw [hmem]
            rw [List.map_append, List.nodup_append] at hprefix
            exact fun hin => hprefix.2.2 key hin key (by simp) rfl
          dsimp only [addMember]
          rw [if_neg hnew]
          exact (ih _ _ hprefix).mpr ⟨rest, rfl, by simp, hdoc⟩
    | _ =>
      constructor
      · intro h
        cases h
      · intro h
        obtain ⟨rest, hrest, -⟩ := h
        cases rest with
        | nil => cases hrest
        | cons r rest =>
          rw [List.map_cons, List.cons.injEq] at hrest
          cases hrest.1

theorem plain_eq_some {v : C} {doc : Doc} :
    plain v = some doc ↔ v = .map (doc.map entry) ∧ (doc.map Prod.fst).Nodup := by
  unfold plain mapDoc
  split
  · rename_i entries
    rw [mapDoc_fold entries [] doc List.nodup_nil]
    constructor
    · intro h
      obtain ⟨rest, rfl, rfl, hdoc⟩ := h
      exact ⟨rfl, hdoc⟩
    · intro h
      exact ⟨doc, Cbor.Value.map.inj h.1, rfl, h.2⟩
  · rename_i hmap
    constructor
    · intro h
      cases h
    · intro h
      exact absurd h.1 (hmap _)

/-- A condition on members of a document. -/
inductive Rule where
  | one (a : String) (test : C → Run Bool)
  | two (a b : String) (test : C → C → Run Bool)
  | three (a b c : String) (test : C → C → C → Run Bool)
  | four (a b c d : String) (test : C → C → C → C → Run Bool)

namespace Rule

def run (doc : Doc) : Rule → Run Bool
  | one a test => do test (← index doc a)
  | two a b test => do test (← index doc a) (← index doc b)
  | three a b c test => do test (← index doc a) (← index doc b) (← index doc c)
  | four a b c d test => do test (← index doc a) (← index doc b) (← index doc c) (← index doc d)

def reads : Rule → List String
  | one a _ => [a]
  | two a b _ => [a, b]
  | three a b c _ => [a, b, c]
  | four a b c d _ => [a, b, c, d]

/-- The test never panics. -/
def Total : Rule → Prop
  | one _ test => ∀ x, Safe (test x)
  | two _ _ test => ∀ x y, Safe (test x y)
  | three _ _ _ test => ∀ x y z, Safe (test x y z)
  | four _ _ _ _ test => ∀ x y z w, Safe (test x y z w)

theorem run_safe {doc : Doc} {r : Rule} (hreads : ∀ k ∈ r.reads, (doc.lookup k).isSome = true) (h : r.Total) :
    Safe (r.run doc) := by
  cases r with
  | one a test =>
    simp only [reads, List.forall_mem_cons] at hreads
    exact (index_safe hreads.1).bind fun x _ => h x
  | two a b test =>
    simp only [reads, List.forall_mem_cons] at hreads
    exact (index_safe hreads.1).bind fun x _ => (index_safe hreads.2.1).bind fun y _ => h x y
  | three a b c test =>
    simp only [reads, List.forall_mem_cons] at hreads
    exact (index_safe hreads.1).bind fun x _ => (index_safe hreads.2.1).bind fun y _ =>
      (index_safe hreads.2.2.1).bind fun z _ => h x y z
  | four a b c d test =>
    simp only [reads, List.forall_mem_cons] at hreads
    exact (index_safe hreads.1).bind fun x _ => (index_safe hreads.2.1).bind fun y _ =>
      (index_safe hreads.2.2.1).bind fun z _ => (index_safe hreads.2.2.2.1).bind fun w _ => h x y z w

/-- A condition on one member that panics nowhere. -/
def on (a : String) (test : C → Bool) : Rule := one a fun v => pure (test v)

def boundedText (a : String) (maximum : Nat) : Rule := on a fun v => (bounded v maximum).isSome

def fixedBytes (a : String) (size : Nat) : Rule := on a fun v => (fixed v size).isSome

def identifier (a : String) : Rule := on a fun v => (opaqueBytes v).isSome

def number (a : String) : Rule := on a fun v => (uint v).isSome

def count (a : String) : Rule := on a fun v => (positive v).isSome

def constant (a s : String) : Rule := on a fun v => text v == some s

def profileName (a : String) : Rule := on a fun v => profileMatches (text v)

/-- Two numbers in strict order, as the ends of a window.
mirrors verify-rs/src/b28.rs:170-172 -/
def window (a b : String) : Rule := two a b fun x y =>
  pure (match uint x, uint y with
    | some left, some right => left < right
    | _, _ => false)

/-- Bytes of a length in a range. -/
def sizedBytes (a : String) (low high : Nat) : Rule := on a fun v => (bytes v).any fun b => low ≤ b.length && b.length ≤ high

/-- The rules for whom a document belongs to.
mirrors verify-rs/src/b28.rs:234-236 -/
def tenantRoot : List Rule := [boundedText "tenant" 128, identifier "organisation_root"]

end Rule

/-- A closed document: its schema, its other members and its conditions. -/
structure Shape where
  schema : Option String
  fields : List String
  rules : List Rule

/-- The document, if it is of the shape. -/
def Shape.read (s : Shape) (v : C) : Run (Option Doc) :=
  match document v s.schema s.fields with
  | none => return none
  | some doc => do return if ← allOf (s.rules.map (Rule.run doc)) then some doc else none

def Shape.validate (s : Shape) (v : C) : Run Bool := do return (← s.read v).isSome

/-- The conditions read members of the document and never panic. -/
def Shape.Total (s : Shape) : Prop :=
  ∀ r ∈ s.rules, r.Total ∧ ∀ k ∈ r.reads, k ∈ s.fields ∨ (s.schema.isSome = true ∧ k = "schema")

/-- What a document of the shape is. -/
structure Shape.Holds (s : Shape) (doc : Doc) : Prop where
  has : ∀ k ∈ s.fields, (doc.lookup k).isSome = true
  rule : ∀ r ∈ s.rules, r.run doc = .ok true

theorem document_eq_some {v : C} {schema : Option String} {fields : List String} {doc : Doc}
    (h : document v schema fields = some doc) :
    plain v = some doc ∧ (∀ k ∈ fields, (doc.lookup k).isSome = true) ∧
      ∀ s, schema = some s → acceptedName ((doc.lookup "schema").bind text) s = true := by
  obtain ⟨hdoc, hc⟩ := Option.filter_eq_some_iff.mp h
  simp only [Bool.and_eq_true, List.all_eq_true] at hc
  refine ⟨hdoc, hc.1.2, fun s hs => ?_⟩
  subst hs
  exact hc.2

/-- The value of a member, or null. -/
def get (doc : Doc) (k : String) : C := (doc.lookup k).getD .null

theorem index_get {doc : Doc} {k : String} (h : (doc.lookup k).isSome = true) : index doc k = .ok (get doc k) := by
  obtain ⟨v, hv⟩ := Option.isSome_iff_exists.mp h
  rw [index_eq_ok, get, hv]
  rfl

theorem get_of_lookup {doc : Doc} {k : String} {v : C} (h : doc.lookup k = some v) : get doc k = v := by
  rw [get, h]
  rfl

/-- Every member of a document of a shape can be read. -/
theorem Shape.Holds.index {s : Shape} {doc : Doc} (h : s.Holds doc) :
    ∀ k ∈ s.fields, Panics.index doc k = .ok (get doc k) := fun k hk => index_get (h.has k hk)

/-! What a condition that holds says of the values it reads. -/

theorem Rule.one_holds {doc : Doc} {a : String} {test : C → Run Bool} (h : (Rule.one a test).run doc = .ok true) :
    test (get doc a) = .ok true := by
  obtain ⟨v, hv, h⟩ := bind_eq_ok.mp h
  rw [get_of_lookup (index_eq_ok.mp hv)]
  exact h

theorem Rule.two_holds {doc : Doc} {a b : String} {test : C → C → Run Bool}
    (h : (Rule.two a b test).run doc = .ok true) : test (get doc a) (get doc b) = .ok true := by
  obtain ⟨v, hv, h⟩ := bind_eq_ok.mp h
  obtain ⟨w, hw, h⟩ := bind_eq_ok.mp h
  rw [get_of_lookup (index_eq_ok.mp hv), get_of_lookup (index_eq_ok.mp hw)]
  exact h

theorem Rule.three_holds {doc : Doc} {a b c : String} {test : C → C → C → Run Bool}
    (h : (Rule.three a b c test).run doc = .ok true) : test (get doc a) (get doc b) (get doc c) = .ok true := by
  obtain ⟨v, hv, h⟩ := bind_eq_ok.mp h
  obtain ⟨w, hw, h⟩ := bind_eq_ok.mp h
  obtain ⟨x, hx, h⟩ := bind_eq_ok.mp h
  rw [get_of_lookup (index_eq_ok.mp hv), get_of_lookup (index_eq_ok.mp hw), get_of_lookup (index_eq_ok.mp hx)]
  exact h

theorem Rule.four_holds {doc : Doc} {a b c d : String} {test : C → C → C → C → Run Bool}
    (h : (Rule.four a b c d test).run doc = .ok true) :
    test (get doc a) (get doc b) (get doc c) (get doc d) = .ok true := by
  obtain ⟨v, hv, h⟩ := bind_eq_ok.mp h
  obtain ⟨w, hw, h⟩ := bind_eq_ok.mp h
  obtain ⟨x, hx, h⟩ := bind_eq_ok.mp h
  obtain ⟨y, hy, h⟩ := bind_eq_ok.mp h
  rw [get_of_lookup (index_eq_ok.mp hv), get_of_lookup (index_eq_ok.mp hw), get_of_lookup (index_eq_ok.mp hx),
    get_of_lookup (index_eq_ok.mp hy)]
  exact h

theorem Rule.on_holds {doc : Doc} {a : String} {test : C → Bool} (h : (Rule.on a test).run doc = .ok true) :
    test (get doc a) = true := Except.ok.inj (Rule.one_holds h)

theorem Rule.window_holds {doc : Doc} {a b : String} (h : (Rule.window a b).run doc = .ok true) :
    ∃ l r, uint (get doc a) = some l ∧ uint (get doc b) = some r ∧ l < r := by
  have h := Except.ok.inj (Rule.two_holds h)
  split at h
  · rename_i l r hl hr
    exact ⟨l, r, hl, hr, by simpa using h⟩
  · cases h

theorem Shape.read_safe {s : Shape} (ht : s.Total) (v : C) : Safe (s.read v) := by
  unfold Shape.read
  split
  · exact safe_pure _
  · rename_i doc hdoc
    obtain ⟨-, hhas, hschema⟩ := document_eq_some hdoc
    refine Safe.bind (allOf_safe fun m hm => ?_) fun _ _ => safe_pure _
    obtain ⟨r, hr, rfl⟩ := List.mem_map.mp hm
    refine Rule.run_safe (fun k hk => ?_) (ht r hr).1
    rcases (ht r hr).2 k hk with hf | ⟨hs, rfl⟩
    · exact hhas k hf
    · obtain ⟨name, hname⟩ := Option.isSome_iff_exists.mp hs
      have := hschema name hname
      cases hl : doc.lookup "schema" with
      | none => rw [hl] at this; cases this
      | some x => rfl

theorem Shape.read_eq_some {s : Shape} {v : C} {doc : Doc} :
    s.read v = .ok (some doc) ↔
      document v s.schema s.fields = some doc ∧ ∀ r ∈ s.rules, r.run doc = .ok true := by
  unfold Shape.read
  split
  · rename_i h
    simp [h, pure, Except.pure]
  · rename_i d h
    rw [bind_eq_ok]
    constructor
    · rintro ⟨b, hb, he⟩
      cases b with
      | false => cases he
      | true =>
        cases he
        exact ⟨h, fun r hr => allOf_eq_true.mp hb _ (List.mem_map_of_mem hr)⟩
    · rintro ⟨hd, hr⟩
      cases h.symm.trans hd
      refine ⟨true, allOf_eq_true.mpr fun m hm => ?_, rfl⟩
      obtain ⟨r, hr', rfl⟩ := List.mem_map.mp hm
      exact hr r hr'

theorem Shape.validate_safe {s : Shape} (ht : s.Total) (v : C) : Safe (s.validate v) :=
  (Shape.read_safe ht v).bind fun _ _ => safe_pure _

/-- A document that validates has the members of its shape, and its conditions
hold. -/
theorem Shape.validate_holds {s : Shape} {v : C} (h : s.validate v = .ok true) :
    ∃ doc, plain v = some doc ∧ s.Holds doc := by
  obtain ⟨o, ho, hs⟩ := bind_eq_ok.mp h
  cases o with
  | none => cases hs
  | some doc =>
    obtain ⟨hdoc, hr⟩ := Shape.read_eq_some.mp ho
    obtain ⟨hplain, hhas, -⟩ := document_eq_some hdoc
    exact ⟨doc, hplain, hhas, hr⟩

end SwarrmVerify.L4.Handshake
