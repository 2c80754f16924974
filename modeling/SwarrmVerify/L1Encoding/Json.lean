import Mathlib.Tactic
import SwarrmVerify.Core.Octets

/-!
# Byte strings and JSON values

`serde_json::Value` as the verifier sees it. Objects are association lists:
without the `preserve_order` feature (Cargo.lock has no `indexmap`) a
`serde_json::Map` is a `BTreeMap`, so the list of a real object is sorted by
key and has no repeated key; nothing below needs that, `get` reads the first
binding. Numbers keep serde_json's three forms (`PosInt`, `NegInt`, `Float`),
because the accessors `as_u64`, `as_i64` tell them apart where JCS does not.

A text is a `String`, which is a list of characters; its bytes are `utf8` and
its code units `encodeUtf16`. A digest is a byte string of 32 bytes, as a
subtype, so that whatever takes one need not check its length.

`eqv` is the `==` of `serde_json`: equality but for floats, which are compared
as numbers, so that zeros of different signs are equal. It is symmetric
(`eqv_comm`).
-/
namespace SwarrmVerify

abbrev Bytes := List UInt8

/-- `[u8; 32]`. -/
abbrev Digest := { b : Bytes // b.length = 32 }

/-- `<[u8; 32]>::try_from`. -/
def toDigest (b : Bytes) : Option Digest := if h : b.length = 32 then some ⟨b, h⟩ else none

theorem toDigest_val {b : Bytes} {d : Digest} (h : toDigest b = some d) : d.val = b := by
  unfold toDigest at h
  split at h
  · cases h; rfl
  · cases h

/-- `str::as_bytes`. -/
def utf8 (s : String) : Bytes := s.toByteArray.data.toList

theorem utf8_inj {s t : String} (h : utf8 s = utf8 t) : s = t := by
  apply String.toByteArray_inj.mp
  exact ByteArray.ext (Array.toList_inj.mp h)

theorem utf8_ofList (cs : List Char) : utf8 (String.ofList cs) = cs.flatMap String.utf8EncodeChar :=
  List.toList_data_toByteArray

/-- `char::encode_utf16`. -/
def encodeUtf16 (c : Char) : List Nat :=
  if c.toNat < 0x10000 then [c.toNat]
  else [0xd800 + (c.toNat - 0x10000) / 0x400, 0xdc00 + (c.toNat - 0x10000) % 0x400]

/-- A character is no surrogate and lies below `0x110000`. -/
theorem scalar_range (c : Char) : c.toNat < 0xd800 ∨ 0xdfff < c.toNat ∧ c.toNat < 0x110000 := c.valid

/-- `str::starts_with`. -/
def startsWith (s pre : String) : Bool := (utf8 pre).isPrefixOf (utf8 s)

/-- A binary64 by its bit pattern. -/
structure F64 where
  bits : UInt64
  deriving DecidableEq, Repr

/-- `f64::is_finite`. -/
def F64.isFinite (f : F64) : Bool := (f.bits >>> 52) &&& 0x7ff != 0x7ff

/-- `==` on finite floats: equal bits, or both zero. -/
def F64.eqv (a b : F64) : Bool := a.bits == b.bits || (a.bits <<< 1 == 0 && b.bits <<< 1 == 0)

/-- `n as f64` for a natural number below `2^64`, rounded to nearest even. -/
def F64.ofNat (n : Nat) : F64 :=
  if n = 0 then ⟨0⟩
  else
    let e := Nat.log2 n
    if e ≤ 52 then ⟨UInt64.ofNat ((1023 + e) * 2 ^ 52 + (n * 2 ^ (52 - e) - 2 ^ 52))⟩
    else
      let d := e - 52
      let q := n / 2 ^ d
      let r := n % 2 ^ d
      let up := if 2 * r > 2 ^ d || (2 * r == 2 ^ d && q % 2 == 1) then q + 1 else q
      -- a carry into `2^53` moves to the next exponent by itself
      ⟨UInt64.ofNat ((1023 + e) * 2 ^ 52 + (up - 2 ^ 52))⟩

/-- `i as f64` for `i : i64`. -/
def F64.ofInt (i : Int) : F64 :=
  if i < 0 then ⟨(F64.ofNat i.natAbs).bits ||| 0x8000000000000000⟩ else F64.ofNat i.toNat

/-- `serde_json::Number`. -/
inductive Number where
  | posInt (n : UInt64)
  | negInt (i : Int64)
  | float (f : F64)
  deriving DecidableEq, Repr

namespace Number

def asU64 : Number → Option UInt64
  | .posInt n => some n
  | _ => none

def asI64 : Number → Option Int
  | .posInt n => if n.toNat < 2 ^ 63 then some n.toNat else none
  | .negInt i => some i.toInt
  | .float _ => none

def asF64 : Number → F64
  | .posInt n => F64.ofNat n.toNat
  | .negInt i => F64.ofInt i.toInt
  | .float f => f

def isF64 : Number → Bool
  | .float _ => true
  | _ => false

def eqv : Number → Number → Bool
  | .posInt a, .posInt b => a == b
  | .negInt a, .negInt b => a == b
  | .float a, .float b => a.eqv b
  | _, _ => false

theorem eqv_comm (m n : Number) : m.eqv n = n.eqv m := by
  cases m <;> cases n <;> simp only [eqv, F64.eqv, Bool.beq_comm, Bool.and_comm]

end Number

/-- `serde_json::Value`. -/
inductive Value where
  | null
  | bool (b : Bool)
  | number (n : Number)
  | string (s : String)
  | array (items : List Value)
  | object (members : List (String × Value))
  deriving Repr

namespace Value

/-- `Value::get(key)`. -/
def get : Value → String → Option Value
  | .object m, k => m.lookup k
  | _, _ => none

/-- `value[key]`: `Null` when absent. -/
def index (v : Value) (k : String) : Value := (v.get k).getD .null

def asStr : Value → Option String
  | .string s => some s
  | _ => none

def asU64 : Value → Option UInt64
  | .number n => n.asU64
  | _ => none

def asI64 : Value → Option Int
  | .number n => n.asI64
  | _ => none

def asArray : Value → Option (List Value)
  | .array xs => some xs
  | _ => none

def asObject : Value → Option (List (String × Value))
  | .object m => some m
  | _ => none

def isNull : Value → Bool
  | .null => true
  | _ => false

def isString : Value → Bool
  | .string _ => true
  | _ => false

def isObject : Value → Bool
  | .object _ => true
  | _ => false

def isBoolean : Value → Bool
  | .bool _ => true
  | _ => false

def isU64 (v : Value) : Bool := v.asU64.isSome

theorem asStr_eq_some {v : Value} {s : String} (h : v.asStr = some s) : v = .string s := by
  cases v <;> simp [asStr] at h
  rw [h]

theorem asU64_eq_some {v : Value} {u : UInt64} (h : v.asU64 = some u) : v = .number (.posInt u) := by
  cases v with
  | number n =>
    cases n <;> simp [asU64, Number.asU64] at h
    rw [h]
  | _ => cases h

theorem asObject_eq_some {v : Value} {m : List (String × Value)} (h : v.asObject = some m) :
    v = .object m := by
  cases v <;> simp [asObject] at h
  rw [h]

/-- `v.get(k).and_then(Value::as_str)`. -/
def getStr (v : Value) (k : String) : Option String := (v.get k).bind asStr

/-- `v.get(k).and_then(Value::as_u64)`. -/
def getU64 (v : Value) (k : String) : Option UInt64 := (v.get k).bind asU64

/-- `v.get(k).and_then(Value::as_i64)`. -/
def getI64 (v : Value) (k : String) : Option Int := (v.get k).bind asI64

/-- `v.get(k).and_then(Value::as_array)`. -/
def getArray (v : Value) (k : String) : Option (List Value) := (v.get k).bind asArray

/-- `v.get(k)` with `Null` read as absent. -/
def getSome (v : Value) (k : String) : Option Value := (v.get k).filter fun x => !x.isNull

/-- `Map::contains_key`. -/
def hasKey (m : List (String × Value)) (k : String) : Bool := (m.lookup k).isSome

mutual
/-- `==` on values. -/
def eqv : Value → Value → Bool
  | .null, .null => true
  | .bool a, .bool b => a == b
  | .number a, .number b => a.eqv b
  | .string a, .string b => a == b
  | .array xs, .array ys => eqvItems xs ys
  | .object m, .object n => eqvMembers m n
  | _, _ => false
def eqvItems : List Value → List Value → Bool
  | [], [] => true
  | x :: xs, y :: ys => eqv x y && eqvItems xs ys
  | _, _ => false
def eqvMembers : List (String × Value) → List (String × Value) → Bool
  | [], [] => true
  | (j, x) :: xs, (k, y) :: ys => j == k && eqv x y && eqvMembers xs ys
  | _, _ => false
end

mutual
theorem eqv_comm : ∀ v w : Value, v.eqv w = w.eqv v
  | .null, w => by cases w <;> rfl
  | .bool b, w => by cases w <;> first | rfl | exact Bool.beq_comm
  | .number m, w => by cases w <;> first | rfl | exact Number.eqv_comm _ _
  | .string s, w => by cases w <;> first | rfl | exact Bool.beq_comm
  | .array xs, w => by
    cases w with
    | array ys => simp only [eqv, eqvItems_comm xs ys]
    | _ => rfl
  | .object m, w => by
    cases w with
    | object n => simp only [eqv, eqvMembers_comm m n]
    | _ => rfl
theorem eqvItems_comm : ∀ xs ys : List Value, eqvItems xs ys = eqvItems ys xs
  | [], [] => rfl
  | [], _ :: _ => rfl
  | _ :: _, [] => rfl
  | x :: xs, y :: ys => by simp only [eqvItems, eqv_comm x y, eqvItems_comm xs ys]
theorem eqvMembers_comm : ∀ m n : List (String × Value), eqvMembers m n = eqvMembers n m
  | [], [] => rfl
  | [], _ :: _ => rfl
  | _ :: _, [] => rfl
  | (j, x) :: m, (k, y) :: n => by
    simp only [eqvMembers, eqv_comm x y, eqvMembers_comm m n, @Bool.beq_comm _ _ _ j k]
end

/-- `==` on `Option<&Value>`. -/
def eqvOpt : Option Value → Option Value → Bool
  | none, none => true
  | some a, some b => eqv a b
  | _, _ => false

end Value

end SwarrmVerify
