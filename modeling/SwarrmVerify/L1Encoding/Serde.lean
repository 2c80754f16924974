import SwarrmVerify.Core.JsonReader
import SwarrmVerify.L1Encoding.Unique

/-!
# Reading with `serde_json`

What the verifier relies on when it reads: `serde_json` accepts the texts of
RFC 8259 within its limits, holds a number in one of three forms, and where it
builds a `Value` the last member of a name counts. The parser itself is not
translated; it is a parameter that is held to laws, which are about documents
of the grammar (`Core.JsonText`) and nothing else.

* `tree`, `value`: a document as a visitor sees it, with every member, and as a
  `Value`, with the last one of each name.
* `Visits`, `Parses`: the texts within the limits are accepted, others are not,
  and what is returned is that of the document.
* `HoldsNumbers`: which numerals are held as which number.
* `reader_parses`, `held_numbers`: functions that meet the laws, so that they
  can be met.
-/
namespace SwarrmVerify.L1.Serde
open JsonText (Doc Text numeral Integral magnitude Finite64)

/-- How a number token is held; `none` is out of range. -/
abbrev Numbers := Bytes → Option Number

mutual
/-- Members in the order in which they stand. -/
def tree (number : Numbers) : Doc → Option Value
  | .null => some .null
  | .bool b => some (.bool b)
  | .number t => (number t).map .number
  | .string s => some (.string s)
  | .array xs => (treeItems number xs).map .array
  | .object m => (treeMembers number m).map .object
def treeItems (number : Numbers) : List Doc → Option (List Value)
  | [] => some []
  | x :: xs => do
    let v ← tree number x
    let vs ← treeItems number xs
    return v :: vs
def treeMembers (number : Numbers) : List (String × Doc) → Option (List (String × Value))
  | [] => some []
  | (k, x) :: m => do
    let v ← tree number x
    let vs ← treeMembers number m
    return (k, v) :: vs
end

mutual
/-- A `Map` in the order of names, the last member of a name. -/
def collapse : Value → Value
  | .array xs => .array (collapseItems xs)
  | .object m => .object (SortedMap.ofList (collapseMembers m))
  | v => v
def collapseItems : List Value → List Value
  | [] => []
  | x :: xs => collapse x :: collapseItems xs
def collapseMembers : List (String × Value) → List (String × Value)
  | [] => []
  | (k, x) :: m => (k, collapse x) :: collapseMembers m
end

/-- The value of a document. -/
def value (number : Numbers) (d : Doc) : Option Value := (tree number d).map collapse

theorem treeMembers_keys {number : Numbers} : ∀ {m : List (String × Doc)} {ys : List (String × Value)},
    treeMembers number m = some ys → (collapseMembers ys).map Prod.fst = m.map Prod.fst
  | [], _, h => by
    cases h
    rfl
  | (k, x) :: m, _, h => by
    simp only [treeMembers, Option.bind_eq_bind, Option.bind_eq_some_iff, Option.pure_def, Option.some.injEq] at h
    obtain ⟨y, hy, ys, hys, rfl⟩ := h
    rw [collapseMembers, List.map_cons, List.map_cons, treeMembers_keys hys]

/-! ## The laws -/

/-- A deserializer presents the texts within its limits to a visitor. -/
def Visits (visit : Bytes → Option Value) (number : Numbers) (limits : Doc → Prop) : Prop :=
  ∀ raw x, visit raw = some x ↔ ∃ d, Text d raw ∧ limits d ∧ tree number d = some x

/-- `from_slice` reads the texts within its limits. -/
def Parses (fromSlice : Bytes → Option Value) (number : Numbers) (limits : Doc → Prop) : Prop :=
  ∀ raw v, fromSlice raw = some v ↔ ∃ d, Text d raw ∧ limits d ∧ value number d = some v

/-- The recursion limit of `serde_json`. -/
def Shallow (d : Doc) : Prop := d.nesting < 128

instance (d : Doc) : Decidable (Shallow d) := inferInstanceAs (Decidable (d.nesting < 128))

/-- Integers are held exactly in 64 bits, a negative zero and a number with a
fraction or an exponent as a finite float. -/
structure HoldsNumbers (number : Numbers) : Prop where
  natural : ∀ t, numeral t = true → Integral t → t.head? ≠ some 45 → magnitude t < 2 ^ 64 →
    number t = some (.posInt (UInt64.ofNat (magnitude t)))
  negative : ∀ t, numeral t = true → Integral t → t.head? = some 45 → 0 < magnitude t → magnitude t ≤ 2 ^ 63 →
    number t = some (.negInt (Int64.ofInt (-(magnitude t : Int))))
  negativeZero : ∀ t, numeral t = true → Integral t → t.head? = some 45 → magnitude t = 0 →
    number t = some (.float ⟨0x8000000000000000⟩)
  real : ∀ t, numeral t = true → ¬ Integral t → Finite64 t → ∃ f : F64, f.isFinite = true ∧ number t = some (.float f)
  range : ∀ t, numeral t = true → ¬ Integral t → ¬ Finite64 t → number t = none

/-! ## A reader -/

instance (t : Bytes) : Decidable (Finite64 t) := inferInstanceAs (Decidable (JsonText.size t < 2 ^ 1024 - 2 ^ 970))

/-- Integers are held as `serde_json` holds them, and no fraction is told from
another. -/
def held (t : Bytes) : Option Number :=
  if Integral t then
    if t.head? = some 45 then
      if magnitude t = 0 then some (.float ⟨0x8000000000000000⟩)
      else if magnitude t ≤ 2 ^ 63 then some (.negInt (Int64.ofInt (-(magnitude t : Int))))
      else some (.float ⟨0⟩)
    else if magnitude t < 2 ^ 64 then some (.posInt (UInt64.ofNat (magnitude t)))
    else some (.float ⟨0⟩)
  else if Finite64 t then some (.float ⟨0⟩)
  else none

theorem held_numbers : HoldsNumbers held where
  natural t _ hint hsign hsize := by rw [held, if_pos hint, if_neg hsign, if_pos hsize]
  negative t _ hint hsign hpos hsize := by
    rw [held, if_pos hint, if_pos hsign, if_neg (Nat.pos_iff_ne_zero.mp hpos), if_pos hsize]
  negativeZero t _ hint hsign hzero := by rw [held, if_pos hint, if_pos hsign, if_pos hzero]
  real t _ hint hfinite := ⟨⟨0⟩, rfl, by rw [held, if_neg hint, if_pos hfinite]⟩
  range t _ hint hfinite := by rw [held, if_neg hint, if_neg hfinite]

section Reader

variable (number : Numbers) (limits : Doc → Prop) [DecidablePred limits]

def visitor (raw : Bytes) : Option Value := ((JsonText.read raw).filter fun d => decide (limits d)).bind (tree number)

def reader (raw : Bytes) : Option Value := ((JsonText.read raw).filter fun d => decide (limits d)).bind (value number)

theorem read_filter {raw : Bytes} {d : Doc} :
    (JsonText.read raw).filter (fun d => decide (limits d)) = some d ↔ Text d raw ∧ limits d := by
  rw [Option.filter_eq_some_iff, JsonText.read_iff, decide_eq_true_eq]

theorem visitor_visits : Visits (visitor number limits) number limits := by
  intro raw x
  simp only [visitor, Option.bind_eq_some_iff, read_filter, and_assoc]

theorem reader_parses : Parses (reader number limits) number limits := by
  intro raw v
  simp only [reader, Option.bind_eq_some_iff, read_filter, and_assoc]

end Reader

end SwarrmVerify.L1.Serde
