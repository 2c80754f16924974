import SwarrmVerify.L4Certificate.Certificate

/-!
# Values of a core (`certificate.rs`)

The verifier of a certificate compares parts of the core with what it has
recomputed by the `==` of `serde_json`. That relation is coarser than equality
in one place only: floats are compared as numbers, so that `0.0` and `-0.0` are
equal without being the same value. A core comes from restricted CBOR
(`verify-rs/src/cbor.rs`), which has no floats, and the conversion to JSON
introduces none. So on a core `==` is equality, and what a comparison accepts
may be substituted.

* `floatless`: a value holds no float, at any depth; a property of members,
  items and lookups, as the lemmas after it say.
* `eqv_eq`: where the left side holds no float, `==` is equality.
* `cborToJson_floatless`: whatever is converted from CBOR holds no float.
-/
namespace SwarrmVerify.L4.Certificate
open SwarrmVerify.L4.Action

mutual
def floatless : Value → Bool
  | .number (.float _) => false
  | .array xs => floatlessItems xs
  | .object m => floatlessMembers m
  | _ => true
def floatlessItems : List Value → Bool
  | [] => true
  | x :: xs => floatless x && floatlessItems xs
def floatlessMembers : List (String × Value) → Bool
  | [] => true
  | (_, x) :: m => floatless x && floatlessMembers m
end

theorem number_eq {a b : Number} (hf : a.isF64 = false) (h : a.eqv b = true) : a = b := by
  cases a <;> cases b <;> simp_all [Number.eqv, Number.isF64]

mutual
/-- Only floats are equal without being the same. -/
theorem eqv_eq : ∀ {a b : Value}, floatless a = true → a.eqv b = true → a = b
  | .null, b, _, h => by cases b <;> simp_all [Value.eqv]
  | .bool _, b, _, h => by cases b <;> simp_all [Value.eqv]
  | .number n, b, hf, h => by
    cases b with
    | number n' =>
      have : n.isF64 = false := by cases n <;> simp_all [floatless, Number.isF64]
      rw [Value.eqv] at h
      rw [number_eq this h]
    | _ => simp [Value.eqv] at h
  | .string _, b, _, h => by cases b <;> simp_all [Value.eqv]
  | .array xs, b, hf, h => by
    cases b with
    | array ys =>
      rw [floatless] at hf
      rw [Value.eqv] at h
      rw [eqvItems_eq hf h]
    | _ => simp [Value.eqv] at h
  | .object m, b, hf, h => by
    cases b with
    | object n =>
      rw [floatless] at hf
      rw [Value.eqv] at h
      rw [eqvMembers_eq hf h]
    | _ => simp [Value.eqv] at h
theorem eqvItems_eq : ∀ {xs ys : List Value}, floatlessItems xs = true → Value.eqvItems xs ys = true → xs = ys
  | [], ys, _, h => by cases ys <;> simp_all [Value.eqvItems]
  | x :: xs, ys, hf, h => by
    cases ys with
    | nil => simp [Value.eqvItems] at h
    | cons y ys =>
      simp only [floatlessItems, Bool.and_eq_true] at hf
      simp only [Value.eqvItems, Bool.and_eq_true] at h
      rw [eqv_eq hf.1 h.1, eqvItems_eq hf.2 h.2]
theorem eqvMembers_eq : ∀ {m n : List (String × Value)}, floatlessMembers m = true → Value.eqvMembers m n = true →
    m = n
  | [], n, _, h => by cases n <;> simp_all [Value.eqvMembers]
  | (k, x) :: m, n, hf, h => by
    cases n with
    | nil => simp [Value.eqvMembers] at h
    | cons p n =>
      obtain ⟨k', y⟩ := p
      simp only [floatlessMembers, Bool.and_eq_true] at hf
      simp only [Value.eqvMembers, Bool.and_eq_true, beq_iff_eq] at h
      rw [h.1.1, eqv_eq hf.1 h.1.2, eqvMembers_eq hf.2 h.2]
end

theorem floatlessMembers_lookup {k : String} {x : Value} : ∀ {m : List (String × Value)},
    floatlessMembers m = true → m.lookup k = some x → floatless x = true
  | [], _, h => by cases h
  | (j, y) :: m, hf, h => by
    simp only [floatlessMembers, Bool.and_eq_true] at hf
    rw [List.lookup_cons] at h
    split at h
    · cases h; exact hf.1
    · exact floatlessMembers_lookup hf.2 h

theorem floatless_get {v x : Value} {k : String} (hf : floatless v = true) (h : v.get k = some x) :
    floatless x = true := by
  cases v with
  | object m => exact floatlessMembers_lookup (by simpa [floatless] using hf) h
  | _ => cases h

theorem floatless_index {v : Value} {k : String} (hf : floatless v = true) : floatless (v.index k) = true := by
  unfold Value.index
  cases h : v.get k with
  | none => rfl
  | some x => exact floatless_get hf h

theorem floatlessMembers_setMember {k : String} {x : Value} (hx : floatless x = true) :
    ∀ {m : List (String × Value)}, floatlessMembers m = true → floatlessMembers (setMember m k x) = true
  | [], _ => by simp [setMember, floatlessMembers, hx]
  | (j, y) :: m, hf => by
    have hf' := hf
    simp only [floatlessMembers, Bool.and_eq_true] at hf'
    unfold setMember
    split
    · simp [floatlessMembers, hx, hf'.2]
    · split
      · simp [floatlessMembers, hx, hf'.1, hf'.2]
      · simp [floatlessMembers, hf'.1, floatlessMembers_setMember hx hf'.2]

mutual
/-- A core has no floats. -/
theorem cborToJson_floatless : ∀ {c : Cbor.Value} {limit : Int} {v : Value}, cborToJson c limit = some v →
    floatless v = true
  | .null, limit, v, h => by
    rw [cborToJson] at h
    split at h <;> cases h
    rfl
  | .bool b, limit, v, h => by
    rw [cborToJson] at h
    split at h <;> cases h
    rfl
  | .integer i, limit, v, h => by
    rw [cborToJson] at h
    split at h
    · cases h
    · obtain ⟨n, hn, rfl⟩ := Option.map_eq_some_iff.mp h
      unfold numberOf at hn
      split at hn
      · cases hn
        split <;> rfl
      · cases hn
  | .text s, limit, v, h => by
    rw [cborToJson] at h
    split at h <;> cases h
    rfl
  | .array xs, limit, v, h => by
    rw [cborToJson] at h
    split at h
    · cases h
    · obtain ⟨ys, hys, rfl⟩ := Option.map_eq_some_iff.mp h
      exact itemsToJson_floatless hys
  | .map m, limit, v, h => by
    rw [cborToJson] at h
    split at h
    · cases h
    · obtain ⟨n, hn, rfl⟩ := Option.map_eq_some_iff.mp h
      exact membersToJson_floatless hn rfl
  | .bytes _, _, _, h => by simp [cborToJson] at h
  | .float _, _, _, h => by simp [cborToJson] at h
  | .tag _ _, _, _, h => by simp [cborToJson] at h
theorem itemsToJson_floatless : ∀ {xs : List Cbor.Value} {limit : Int} {ys : List Value},
    itemsToJson xs limit = some ys → floatlessItems ys = true
  | [], _, ys, h => by simp only [itemsToJson, Option.some.injEq] at h; subst h; rfl
  | x :: xs, limit, ys, h => by
    simp only [itemsToJson, Option.bind_eq_bind, Option.bind_eq_some_iff, Option.pure_def, Option.some.injEq] at h
    obtain ⟨y, hy, zs, hzs, rfl⟩ := h
    simp only [floatlessItems, cborToJson_floatless hy, itemsToJson_floatless hzs, Bool.and_self]
theorem membersToJson_floatless : ∀ {m : List (Cbor.Value × Cbor.Value)} {limit : Int}
    {o n : List (String × Value)}, membersToJson m limit o = some n → floatlessMembers o = true →
    floatlessMembers n = true
  | [], _, o, n, h, ho => by simp only [membersToJson, Option.some.injEq] at h; subst h; exact ho
  | (.text key, x) :: m, limit, o, n, h, ho => by
    simp only [membersToJson, Option.bind_eq_bind, Option.bind_eq_some_iff] at h
    obtain ⟨y, hy, h⟩ := h
    exact membersToJson_floatless h (floatlessMembers_setMember (cborToJson_floatless hy) ho)
  | (.null, _) :: _, _, _, _, h, _ => by simp [membersToJson] at h
  | (.bool _, _) :: _, _, _, _, h, _ => by simp [membersToJson] at h
  | (.integer _, _) :: _, _, _, _, h, _ => by simp [membersToJson] at h
  | (.bytes _, _) :: _, _, _, _, h, _ => by simp [membersToJson] at h
  | (.float _, _) :: _, _, _, _, h, _ => by simp [membersToJson] at h
  | (.tag _ _, _) :: _, _, _, _, h, _ => by simp [membersToJson] at h
  | (.array _, _) :: _, _, _, _, h, _ => by simp [membersToJson] at h
  | (.map _, _) :: _, _, _, _, h, _ => by simp [membersToJson] at h
end

end SwarrmVerify.L4.Certificate
