import SwarrmVerify.L4Bundle.Trust
import SwarrmVerify.L1Encoding.Reference

/-!
# Reading producer documents (`action.rs`)

The verdict engine reads JSON the way its Python twin does: a missing key is
null, falsy containers are empty, a string iterates over its characters, and
iterating anything else raises. `none` in `iterItems` is that exception; every
other reader is total.

The readers are named as in the source (`obj`, `arr`, `flag`, `iterMember`).
`setIndex` is an assignment to a member of an object, by which the certificate
layer patches an input: it changes the member it is for and no other
(`lookup_setMember`, `get_setIndex_ne`).
-/
namespace SwarrmVerify.L4.Action
open SwarrmVerify.L1.Jcs

/-- The third-party functions that only the verdict and certificate layers
use. -/
structure Engine extends Crates where
  /-- `serde_json::Value::to_string` -/
  display : Value → String
  /-- the document `serde_json::Deserializer` presents to a visitor: members in
  document order, repeated keys kept -/
  visit : Bytes → Option Value

/-- The engine over some crates: a value is displayed by its canonical text,
which is what `serde_json` writes where there is no float. -/
def referenceEngine (X : Crates) : Engine :=
  { X with
    display := fun v => String.ofList ((L1.Reference.text v).map fun b => Char.ofNat b.toNat)
    visit := X.fromSlice }

/-! ## Members -/

def asBool : Value → Option Bool
  | .bool b => some b
  | _ => none

/-- A member that is `true`; anything else is not.
mirrors verify-rs/src/action.rs:37-39 -/
def flag (v : Value) (k : String) : Bool := ((v.get k).bind asBool).getD false

/-- The items of a member that is an array, none otherwise.
mirrors verify-rs/src/action.rs:41-43 -/
def arr (v : Value) (k : String) : List Value := (v.getArray k).getD []

/-- A member that is an object. mirrors verify-rs/src/action.rs:45-47 -/
def obj (v : Value) (k : String) : Option Value := (v.get k).filter Value.isObject

theorem index_of_obj {v w : Value} {k : String} (h : obj v k = some w) : v.index k = w := by
  obtain ⟨hget, _⟩ := Option.filter_eq_some_iff.mp h
  simp [Value.index, hget]

/-- `f == 0.0`. -/
def isZero (n : Number) : Bool := n.asF64.bits <<< 1 == 0

/-- Python truthiness. mirrors verify-rs/src/action.rs:56-65 -/
def truthy : Option Value → Bool
  | none => false
  | some .null => false
  | some (.bool b) => b
  | some (.number n) => !isZero n
  | some (.string x) => x != ""
  | some (.array a) => !a.isEmpty
  | some (.object m) => !m.isEmpty

/-- A member that is true in the sense of Python.
mirrors verify-rs/src/action.rs:67-69 -/
def nonempty (v : Value) (k : String) : Bool := truthy (v.get k)

/-- `v[k] = x` on an object: the member is replaced or put where the order of
keys puts it. -/
def setMember : List (String × Value) → String → Value → List (String × Value)
  | [], k, x => [(k, x)]
  | (j, y) :: m, k, x =>
    if k = j then (k, x) :: m
    else if k < j then (k, x) :: (j, y) :: m
    else (j, y) :: setMember m k x

/-- `IndexMut`: null becomes an object, anything else would panic. -/
def setIndex : Value → String → Value → Value
  | .object m, k, x => .object (setMember m k x)
  | _, k, x => .object [(k, x)]

theorem lookup_setMember (m : List (String × Value)) (k : String) (x : Value) (j : String) :
    (setMember m k x).lookup j = if j = k then some x else m.lookup j := by
  induction m with
  | nil =>
    rw [setMember, List.lookup_cons]
    split <;> rename_i h
    · rw [if_pos (beq_iff_eq.mp h)]
    · rw [if_neg (beq_eq_false_iff_ne.mp h)]
  | cons p m ih =>
    obtain ⟨i, y⟩ := p
    unfold setMember
    split
    · rename_i hki
      subst hki
      by_cases hj : j = k
      · simp [hj]
      · simp [List.lookup_cons, beq_false_of_ne hj, hj]
    · rename_i hki
      split
      · by_cases hj : j = k
        · simp [hj]
        · simp [List.lookup_cons, beq_false_of_ne hj, hj]
      · by_cases hji : j = i
        · subst hji
          simp [Ne.symm hki]
        · simp only [List.lookup_cons, beq_false_of_ne hji, ih]

@[simp] theorem get_setIndex_self (v : Value) (k : String) (x : Value) : (setIndex v k x).get k = some x := by
  cases v <;> simp [setIndex, Value.get, lookup_setMember]

theorem get_setIndex_ne (v : Value) {k j : String} (h : j ≠ k) (x : Value) : (setIndex v k x).get j = v.get j := by
  cases v <;> simp [setIndex, Value.get, lookup_setMember, h]

/-! ## Time -/

/-- The fraction of a canonical timestamp padded to six digits, so that values
compare lexicographically.
mirrors verify-rs/src/action.rs:74-82 -/
def nts (t : Value) : Option String := do
  let t ← t.asStr
  if !canonicalUtc t then none
  else
    let base := t.toList.dropLast
    let whole := base.takeWhile (· != '.')
    let frac := (base.dropWhile (· != '.')).drop 1
    return String.ofList (whole ++ '.' :: (frac ++ List.replicate (6 - frac.length) '0') ++ ['Z'])

/-! ## Iteration and text -/

/-- What Python iterates: lists, the characters of a text, the keys of an
object. `none` is a TypeError.
mirrors verify-rs/src/action.rs:101-110 -/
def iterItems : Option Value → Option (List Value)
  | none => some []
  | some .null => some []
  | some (.bool b) => if b then none else some []
  | some (.number n) => if isZero n then some [] else none
  | some (.string x) => some (x.toList.map fun c => .string (String.singleton c))
  | some (.array a) => some a
  | some (.object m) => some (m.map fun p => .string p.1)

/-- `iterItems` of a member of what must be an object. -/
def iterMember (v : Value) (k : String) : Option (List Value) := iterItems (if v.isObject then v.get k else none)

def pyEscape (x : String) : String :=
  String.ofList (x.toList.flatMap fun c => if c = '\\' then ['\\', '\\'] else if c = '\'' then ['\\', '\''] else [c])

mutual
/-- Python `repr`. mirrors verify-rs/src/action.rs:113-127 -/
def pyRepr (E : Engine) : Value → String
  | .null => "None"
  | .bool b => if b then "True" else "False"
  | .number n => E.display (.number n)
  | .string x => "'" ++ pyEscape x ++ "'"
  | .array a => "[" ++ ", ".intercalate (pyReprItems E a) ++ "]"
  | .object m => "\x7b" ++ ", ".intercalate (pyReprMembers E m) ++ "\x7d"
def pyReprItems (E : Engine) : List Value → List String
  | [] => []
  | x :: xs => pyRepr E x :: pyReprItems E xs
def pyReprMembers (E : Engine) : List (String × Value) → List String
  | [] => []
  | (k, x) :: m => ("'" ++ k ++ "': " ++ pyRepr E x) :: pyReprMembers E m
end

/-- Python `str(container.get(key, default))`.
mirrors verify-rs/src/action.rs:130-136 -/
def pyStr (E : Engine) (v : Option Value) (default : String) : String :=
  match v with
  | none => default
  | some (.string x) => x
  | some other => pyRepr E other

/-- The canonical bytes of a value without floats. One with a float has none.
mirrors verify-rs/src/jcs.rs:42-44 -/
def canonicalIntegerChecked (X : Crates) (v : Value) : Option Bytes :=
  if numbersMatch X true v L1.Jcs.maxDepth then canonicalChecked X v else none

mutual
/-- A container nested deeper than the limit. Scalars at the limit are not
counted.
mirrors verify-rs/src/lib.rs:57-68 -/
def depthExceeds : Value → Int → Bool
  | .array a, limit => decide (limit < 0) || depthExceedsItems a (limit - 1)
  | .object m, limit => decide (limit < 0) || depthExceedsMembers m (limit - 1)
  | _, limit => decide (limit < 0)
def depthExceedsItems : List Value → Int → Bool
  | [], _ => false
  | x :: xs, limit => depthExceeds x limit || depthExceedsItems xs limit
def depthExceedsMembers : List (String × Value) → Int → Bool
  | [], _ => false
  | (_, x) :: m, limit => depthExceeds x limit || depthExceedsMembers m limit
end

/-- `str::ends_with`. -/
def endsWith (s suffix : String) : Bool := (utf8 suffix).isSuffixOf (utf8 s)

example : nts (.string "2026-01-02T03:04:05.5Z") = some "2026-01-02T03:04:05.500000Z" := rfl

end SwarrmVerify.L4.Action
