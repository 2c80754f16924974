import SwarrmVerify.L5Guarantees.Order
import SwarrmVerify.L5Guarantees.Rewrites

/-!
# Continuity assertions that tile the chain

A sparse chain leaves out checkpoints; the assertions of a bundle say how much
was appended between two that it presents. `continuity_ok` reads: each of them
is admissible, and no two neighbours of the chain are left without a link. One
assertion that is not admissible makes all of them worthless, and no gap is
counted then.

An assertion is admissible (`Admissible`) if it has the shape of its version
(`Declares`), a key of the log signed it (`SignedByLog`), and, in the second
version, it is bound to the target by the hash of its checkpoint and by an
issuer that was active there (`Bound`). Members are compared with the `==` of
`serde_json`, on texts and unsigned numbers only, for which it is equality.

**Results.**
* `admissible_iff`: what the two admission checks ask of one assertion.
* `isGap_iff`: two neighbours leave no gap exactly if the second is linked to
  the first by its `prev_hash` or an assertion names the interval.
* `gaps_zero_iff`: no gap is left exactly if the assertions tile the chain.
* `continuity_cover`: what the three reported facts of a verified bundle mean;
  that they depend on the set of assertions only; that another admissible
  assertion opens no gap; and what an assertion of the second version retains.
-/
namespace SwarrmVerify.L5.Tiling
open SwarrmVerify.L1.Jcs SwarrmVerify.L3.Receipt SwarrmVerify.L3.Keys SwarrmVerify.L4.Checkpoint
open SwarrmVerify.L4.Continuity SwarrmVerify.L4.Bundle SwarrmVerify.L5.Order

variable {X : Crates} {bundle a : Value} {kl : KeyLog} {chain items items' : List Value}

/-! ## JSON equality -/

theorem eqv_string {s : String} {v : Value} : Value.eqv (.string s) v = true ↔ v = .string s := by
  cases v with
  | string t => rw [Value.eqv, beq_iff_eq, Value.string.injEq, eq_comm]
  | _ => simp [Value.eqv]

theorem eqv_posInt {n : UInt64} {v : Value} : Value.eqv (.number (.posInt n)) v = true ↔ v = .number (.posInt n) := by
  cases v with
  | number m =>
    cases m with
    | posInt m => rw [Value.eqv, Number.eqv, beq_iff_eq, Value.number.injEq, Number.posInt.injEq, eq_comm]
    | _ => simp [Value.eqv, Number.eqv]
  | _ => simp [Value.eqv]

theorem eqvMembers_lookup (k : String) : ∀ {m n : List (String × Value)}, Value.eqvMembers m n = true →
    Value.eqvOpt (m.lookup k) (n.lookup k) = true
  | [], [], _ => rfl
  | [], _ :: _, h => by simp [Value.eqvMembers] at h
  | _ :: _, [], h => by simp [Value.eqvMembers] at h
  | (i, x) :: m, (j, y) :: n, h => by
    rw [Value.eqvMembers, Bool.and_eq_true, Bool.and_eq_true] at h
    obtain rfl := eq_of_beq h.1.1
    rw [List.lookup_cons, List.lookup_cons]
    split
    · exact h.1.2
    · exact eqvMembers_lookup k h.2

theorem eqv_get {v w : Value} (h : Value.eqv v w = true) (k : String) :
    Value.eqvOpt (v.get k) (w.get k) = true := by
  cases v with
  | object m =>
    cases w with
    | object n => exact eqvMembers_lookup k (by rwa [Value.eqv] at h)
    | _ => simp [Value.eqv] at h
  | _ => cases w <;> first | rfl | simp [Value.eqv] at h

theorem eqv_asStr {v w : Value} (h : Value.eqv v w = true) : v.asStr = w.asStr := by
  cases v with
  | string s => rw [eqv_string.mp h]
  | _ => cases w <;> first | rfl | simp [Value.eqv] at h

theorem eqv_asU64 {v w : Value} (h : Value.eqv v w = true) : v.asU64 = w.asU64 := by
  cases v with
  | number n =>
    cases n with
    | posInt n => rw [eqv_posInt.mp h]
    | _ =>
      cases w with
      | number m => cases m <;> first | rfl | simp [Value.eqv, Number.eqv] at h
      | _ => rfl
  | _ => cases w <;> first | rfl | simp [Value.eqv] at h

/-- Reading equal values gives equal texts and numbers. The code compares
checkpoints by `==` and reads them afterwards. -/
theorem eqv_bind {α : Type} {f : Value → Option α} (hf : ∀ {v w}, Value.eqv v w = true → f v = f w)
    {v w : Value} (h : Value.eqv v w = true) (k : String) : (v.get k).bind f = (w.get k).bind f := by
  have hopt := eqv_get h k
  cases hv : v.get k with
  | none =>
    cases hw : w.get k with
    | none => rfl
    | some y =>
      rw [hv, hw] at hopt
      cases hopt
  | some x =>
    cases hw : w.get k with
    | none =>
      rw [hv, hw] at hopt
      cases hopt
    | some y =>
      rw [hv, hw] at hopt
      exact hf hopt

theorem eqv_getStr {v w : Value} (h : Value.eqv v w = true) (k : String) : v.getStr k = w.getStr k :=
  eqv_bind eqv_asStr h k

theorem eqv_bodyStr {v w : Value} (h : Value.eqv v w = true) (k : String) : bodyStr v k = bodyStr w k :=
  eqv_bind (fun h => eqv_getStr h k) h "body"

theorem eqv_bodyU64 {v w : Value} (h : Value.eqv v w = true) (k : String) : bodyU64 v k = bodyU64 w k :=
  eqv_bind (fun h => eqv_bind eqv_asU64 h k) h "body"

/-- `value["body"]` of a value without one is `Null`, which has no members. -/
theorem index_getStr (v : Value) (k : String) : (v.index "body").getStr k = bodyStr v k := by
  unfold Value.index bodyStr
  cases v.get "body" <;> rfl

theorem index_getU64 (v : Value) (k : String) : (v.index "body").getU64 k = bodyU64 v k := by
  unfold Value.index bodyU64
  cases v.get "body" <;> rfl

theorem index_eqv_posInt {v : Value} {k : String} {n : UInt64} :
    Value.eqv (v.index k) (.number (.posInt n)) = true ↔ v.getU64 k = some n := by
  unfold Value.index Value.getU64
  cases v.get k with
  | none => simp [Value.eqv]
  | some w =>
    rw [Option.getD_some, Option.bind_some]
    constructor
    · intro h
      rw [eqv_asU64 h]
      rfl
    · intro h
      rw [Value.asU64_eq_some h]
      exact eqv_posInt.mpr rfl

theorem index_of_getU64 {v : Value} {k : String} {n : UInt64} (h : v.getU64 k = some n) :
    v.index k = .number (.posInt n) := by
  obtain ⟨w, hw, hn⟩ := Option.bind_eq_some_iff.mp h
  rw [Value.index, hw, Option.getD_some, Value.asU64_eq_some hn]

/-! ## What an assertion says -/

/-- The version of an assertion: the first, or the second with the hash of a
checkpoint as its authority. -/
def Version (a : Value) (schema : String) : Prop :=
  schema = "evd/continuity/v1" ∨ schema = "evd/continuity/v2" ∧
    ∃ hash, bodyStr a "authority_checkpoint_hash" = some hash ∧ lowerSha256 hash = true

/-- The assertion has the declared shape, is about the bundle's origin, and
says that `appended` leaves separate two trees of its log. -/
structure Declares (bundle a : Value) (schema first last : String) (m n appended : UInt64) : Prop where
  houter : ∃ members, a = .object members ∧ members.length = 3
  hinner : ∃ members, a.get "body" = some (.object members) ∧
    members.length = if schema = "evd/continuity/v2" then 8 else 7
  hschema : bodyStr a "schema" = some schema
  hversion : Version a schema
  horigin : ∃ origin, origin ≠ "" ∧ bodyStr a "origin" = some origin ∧ bundle.getStr "origin" = some origin
  hfirst : bodyStr a "from_hash" = some first ∧ first ≠ ""
  hlast : bodyStr a "to_hash" = some last ∧ last ≠ ""
  hdistinct : first ≠ last
  hstart : bodyU64 a "from_tree_size" = some m
  hstop : bodyU64 a "to_tree_size" = some n
  hcount : bodyU64 a "appended" = some appended
  hconsistent : n.toNat = m.toNat + appended.toNat ∧ n.toNat < 2 ^ 63

/-- A key of the log signed the body of the assertion. -/
def SignedByLog (X : Crates) (kl : KeyLog) (a : Value) : Prop :=
  ∃ kid key sig body canon, a.getStr "kid" = some kid ∧ kl.keys.lookup kid = some key ∧
    (a.getStr "sig").bind X.b64Decode = some sig ∧ a.get "body" = some body ∧
    canonicalChecked X body = some canon ∧ ed25519Verify X key canon sig = true

/-- The first checkpoint of the chain with this body hash. -/
structure FirstWith (X : Crates) (chain : List Value) (hash : String) (i : Nat) (cp : Value) : Prop where
  hhere : chain[i]? = some cp
  hhash : checkpointBodyHash X cp = some hash
  hearliest : ∀ j cp', j < i → chain[j]? = some cp' → checkpointBodyHash X cp' ≠ some hash

/-- An issuer signs for the target: the kid is the target's, and active at the
target's time and size. -/
def TargetIssuer (kl : KeyLog) (target : Value) (kid : String) : Prop :=
  ∃ ts size, target.getStr "kid" = some kid ∧ bodyStr target "ts" = some ts ∧
    bodyU64 target "tree_size" = some size ∧ nonIssuer kl kid = false ∧ keyActive kl kid ts size = true

/-- The interval is one of the chain, in order and with these sizes, and the
target's issuer answers for it. -/
structure Bound (X : Crates) (bundle : Value) (kl : KeyLog) (chain : List Value) (a : Value)
    (first last : String) (m n : UInt64) : Prop where
  hauthority : ∃ hash k cp, bodyStr a "authority_checkpoint_hash" = some hash ∧ FirstWith X chain hash k cp ∧
    Value.eqv cp (targetOf bundle) = true
  hissuer : ∃ kid, a.getStr "kid" = some kid ∧ TargetIssuer kl (targetOf bundle) kid
  hinterval : ∃ i j p q, i < j ∧ FirstWith X chain first i p ∧ FirstWith X chain last j q ∧
    bodyU64 p "tree_size" = some m ∧ bodyU64 q "tree_size" = some n

/-- An assertion that may cover an interval: it declares one, a key of the log
signed it, and in the second version it is bound to the target. -/
structure Admissible (X : Crates) (bundle : Value) (kl : KeyLog) (chain : List Value) (a : Value) : Prop where
  hsigned : SignedByLog X kl a
  hdeclares : ∃ schema first last m n appended, Declares bundle a schema first last m n appended ∧
    (schema = "evd/continuity/v2" → Bound X bundle kl chain a first last m n)

/-! ## Admission -/

theorem findIdx_iff {hash : String} {i : Nat} :
    (chain.findIdx? fun cp => checkpointBodyHash X cp == some hash) = some i ↔ ∃ cp, FirstWith X chain hash i cp := by
  rw [List.findIdx?_eq_some_iff_getElem]
  constructor
  · intro ⟨hi, hhash, hbefore⟩
    refine ⟨chain[i], List.getElem?_eq_getElem hi, eq_of_beq hhash, fun j cp' hj hcp' he => ?_⟩
    obtain ⟨hlen, rfl⟩ := List.getElem?_eq_some_iff.mp hcp'
    exact hbefore j hj (beq_iff_eq.mpr he)
  · intro ⟨cp, h⟩
    obtain ⟨hi, rfl⟩ := List.getElem?_eq_some_iff.mp h.hhere
    exact ⟨hi, beq_iff_eq.mpr h.hhash, fun j hj he =>
      h.hearliest j _ hj (List.getElem?_eq_getElem (Nat.lt_trans hj hi)) (eq_of_beq he)⟩

/-! ### Shapes -/

theorem asI64_of_asU64 {v : Value} {n : UInt64} (h : v.asU64 = some n) :
    v.asI64 = if n.toNat < 2 ^ 63 then some (n.toNat : Int) else none := by
  rw [Value.asU64_eq_some h]
  rfl

theorem getI64_of_getU64 {v : Value} {k : String} {n : UInt64} (h : v.getU64 k = some n) :
    v.getI64 k = if n.toNat < 2 ^ 63 then some (n.toNat : Int) else none := by
  obtain ⟨w, hw, hn⟩ := Option.bind_eq_some_iff.mp h
  rw [Value.getI64, hw, Option.bind_some, asI64_of_asU64 hn]

theorem version_iff {b : Value} {schema : String} (hb : a.get "body" = some b)
    (hschema : b.getStr "schema" = some schema) :
    (b.getStr "schema" == some "evd/continuity/v1" ||
      b.getStr "schema" == some "evd/continuity/v2" &&
        continuityAuthorityHash (b.get "authority_checkpoint_hash")) = true ↔ Version a schema := by
  rw [Version, bodyStr, hb, Option.bind_some, hschema, Bool.or_eq_true, Bool.and_eq_true, beq_iff_eq, beq_iff_eq,
    Option.some.injEq, Option.some.injEq, continuityAuthorityHash, Option.any_eq_true]
  rfl

/-- An assertion whose members read agrees with its own ends exactly when the
sizes differ by what was appended, in numbers that do not wrap. -/
theorem selfConsistent_iff {b : Value} {schema first last : String} {m n appended : UInt64}
    (hb : a.get "body" = some b) (hschema : b.getStr "schema" = some schema)
    (hm : b.getU64 "from_tree_size" = some m) (hn : b.getU64 "to_tree_size" = some n)
    (hk : b.getU64 "appended" = some appended) (hfirst : b.getStr "from_hash" = some first)
    (hlast : b.getStr "to_hash" = some last) :
    continuitySelfConsistent a = true ↔
      Version a schema ∧ (n.toNat = m.toNat + appended.toNat ∧ n.toNat < 2 ^ 63) ∧ first ≠ last := by
  unfold continuitySelfConsistent
  rw [hb]
  simp only [getI64_of_getU64 hm, getI64_of_getU64 hn, getI64_of_getU64 hk, hfirst, hlast]
  by_cases h : m.toNat < 2 ^ 63 ∧ n.toNat < 2 ^ 63 ∧ appended.toNat < 2 ^ 63
  · rw [if_pos h.1, if_pos h.2.1, if_pos h.2.2]
    dsimp only
    simp only [Bool.and_eq_true, version_iff hb hschema, decide_eq_true_eq, beq_iff_eq, bne_iff_ne, ne_eq]
    constructor
    · rintro ⟨⟨⟨⟨hversion, _⟩, hle⟩, hcount⟩, hne⟩
      exact ⟨hversion, ⟨by omega, h.2.1⟩, hne⟩
    · rintro ⟨hversion, ⟨hcount, _⟩, hne⟩
      exact ⟨⟨⟨⟨hversion, by omega⟩, by omega⟩, by omega⟩, hne⟩
  · constructor
    · intro hc
      split at hc
      · rename_i hm' hn' hk' _ _
        exfalso
        apply h
        refine ⟨?_, ?_, ?_⟩
        · by_contra hlt
          rw [if_neg hlt] at hm'
          cases hm'
        · by_contra hlt
          rw [if_neg hlt] at hn'
          cases hn'
        · by_contra hlt
          rw [if_neg hlt] at hk'
          cases hk'
      · cases hc
    · rintro ⟨_, ⟨hcount, hlt⟩, _⟩
      exact absurd ⟨by omega, hlt, by omega⟩ h

theorem selfConsistent_schema {b : Value} (hb : a.get "body" = some b) (h : continuitySelfConsistent a = true) :
    ∃ schema, b.getStr "schema" = some schema := by
  unfold continuitySelfConsistent at h
  rw [hb] at h
  dsimp only at h
  split at h
  · simp only [Bool.and_eq_true, Bool.or_eq_true, beq_iff_eq] at h
    rcases h.1.1.1.1 with hs | ⟨hs, _⟩
    · exact ⟨_, hs⟩
    · exact ⟨_, hs⟩
  · cases h

/-- A member that is present and a `u64`. -/
theorem u64_member {body : List (String × Value)} {k : String} :
    (body.lookup k).any Value.isU64 = true ↔ ∃ n, (Value.object body).getU64 k = some n := by
  rw [Option.any_eq_true]
  constructor
  · intro ⟨v, hv, hu⟩
    obtain ⟨n, hn⟩ := Option.isSome_iff_exists.mp hu
    exact ⟨n, Option.bind_eq_some_iff.mpr ⟨v, hv, hn⟩⟩
  · intro ⟨n, hn⟩
    obtain ⟨v, hv, hu⟩ := Option.bind_eq_some_iff.mp hn
    exact ⟨v, hv, Option.isSome_iff_exists.mpr ⟨n, hu⟩⟩

/-- A member that is present and a text with something in it. -/
theorem text_member {body : List (String × Value)} {k : String} :
    ((body.lookup k).bind Value.asStr).any (· != "") = true ↔
      ∃ t, (Value.object body).getStr k = some t ∧ t ≠ "" := by
  simp only [Option.any_eq_true, bne_iff_ne]
  rfl

theorem hasKey_of_bind {α : Type} {body : List (String × Value)} {k : String} {f : Value → Option α} {x : α}
    (h : ((Value.object body).get k).bind f = some x) : Value.hasKey body k = true := by
  obtain ⟨v, hv, _⟩ := Option.bind_eq_some_iff.mp h
  exact Option.isSome_iff_exists.mpr ⟨v, hv⟩

theorem origin_iff {body : List (String × Value)} {origin : String}
    (h : (Value.object body).getStr "origin" = some origin) :
    Value.eqvOpt (body.lookup "origin") (bundle.get "origin") = true ↔ bundle.getStr "origin" = some origin := by
  obtain ⟨v, hv, hs⟩ := Option.bind_eq_some_iff.mp h
  obtain rfl := Value.asStr_eq_some hs
  rw [show body.lookup "origin" = some (.string origin) from hv]
  cases hb : bundle.get "origin" with
  | none =>
    rw [Value.getStr, hb]
    constructor
    · intro hf
      cases hf
    · intro hf
      cases hf
  | some w =>
    rw [Value.getStr, hb, Option.bind_some, Value.eqvOpt, eqv_string]
    exact ⟨fun hw => by rw [hw]; rfl, fun hw => Value.asStr_eq_some hw⟩

/-- The wire checks admit what declares an interval under a log key: shape,
version, origin, two different hashes, sizes that add up, and the signature. -/
theorem continuityAdmissible_iff : continuityAdmissible X a kl (bundle.get "origin") = true ↔
    SignedByLog X kl a ∧ ∃ schema first last m n appended, Declares bundle a schema first last m n appended := by
  constructor
  · intro h
    unfold continuityAdmissible at h
    split at h
    case h_2 => cases h
    rename_i outer body houter hbody
    dsimp only at h
    split at h
    case h_2 => cases h
    rename_i key sig hkey hsig
    obtain ⟨inner, hinner, hobject⟩ := Option.bind_eq_some_iff.mp hbody
    obtain rfl := Value.asObject_eq_some hobject
    simp only [Bool.and_eq_true, beq_iff_eq, List.all_cons, List.all_nil, u64_member, text_member] at h
    obtain ⟨⟨⟨⟨⟨⟨⟨⟨_, houterLen⟩, hinnerLen⟩, _⟩, ⟨m, hm⟩, ⟨n, hn⟩, ⟨appended, hk⟩, _⟩, ⟨origin, ho, hone⟩,
      ⟨first, hf, hfne⟩, ⟨last, hl, hlne⟩, _⟩, horigin⟩, hself⟩, hsigned⟩ := h
    obtain ⟨canon, hcanon, hverified⟩ := (Option.any_eq_true _ _).mp hsigned
    obtain ⟨schema, hschema⟩ := selfConsistent_schema hinner hself
    obtain ⟨hversion, hconsistent, hdistinct⟩ := (selfConsistent_iff hinner hschema hm hn hk hf hl).mp hself
    obtain ⟨kid, hkid, hlookup⟩ := Option.bind_eq_some_iff.mp hkey
    have hread : ∀ k, bodyStr a k = (Value.object body).getStr k := fun k => by rw [bodyStr, hinner, Option.bind_some]
    have hnum : ∀ k, bodyU64 a k = (Value.object body).getU64 k := fun k => by rw [bodyU64, hinner, Option.bind_some]
    have hlen : body.length = if schema = "evd/continuity/v2" then 8 else 7 := by
      rw [hinnerLen]
      rw [show (body.lookup "schema").bind Value.asStr = some schema from hschema]
      simp only [Option.some.injEq]
    refine ⟨⟨kid, key, sig, .object body, canon, hkid, hlookup, hsig, hinner, ?_, hverified⟩, schema, first, last, m, n,
      appended, ⟨outer, Value.asObject_eq_some houter, houterLen⟩, ⟨body, hinner, hlen⟩, (hread _).trans hschema, hversion,
      ⟨origin, hone, (hread _).trans ho, (origin_iff ho).mp horigin⟩, ⟨(hread _).trans hf, hfne⟩,
      ⟨(hread _).trans hl, hlne⟩, hdistinct, (hnum _).trans hm, (hnum _).trans hn, (hnum _).trans hk, hconsistent⟩
    rw [← hcanon, Value.index, hinner, Option.getD_some]
  · intro ⟨⟨kid, key, sig, inner, canon, hkid, hlookup, hsig, hinner, hcanon, hverified⟩, schema, first, last, m, n,
      appended, h⟩
    obtain ⟨outer, rfl, houterLen⟩ := h.houter
    obtain ⟨body, hbody, hinnerLen⟩ := h.hinner
    obtain rfl := Option.some.inj (hinner.symm.trans hbody)
    obtain ⟨origin, hone, ho, hsame⟩ := h.horigin
    have hread : ∀ k, bodyStr (.object outer) k = (Value.object body).getStr k := fun k => by
      rw [bodyStr, hinner, Option.bind_some]
    have hnum : ∀ k, bodyU64 (.object outer) k = (Value.object body).getU64 k := fun k => by
      rw [bodyU64, hinner, Option.bind_some]
    have hschema := (hread _).symm.trans h.hschema
    have hm := (hnum _).symm.trans h.hstart
    have hn := (hnum _).symm.trans h.hstop
    have hk := (hnum _).symm.trans h.hcount
    have hf := (hread _).symm.trans h.hfirst.1
    have hl := (hread _).symm.trans h.hlast.1
    have ho := (hread _).symm.trans ho
    have hself : continuitySelfConsistent (.object outer) = true :=
      (selfConsistent_iff hinner hschema hm hn hk hf hl).mpr ⟨h.hversion, h.hconsistent, h.hdistinct⟩
    have hbind : ((Value.object outer).get "body").bind Value.asObject = some body := by
      rw [hinner]
      rfl
    have hauthority : (!((body.lookup "schema").bind Value.asStr == some "evd/continuity/v2") ||
        continuityAuthorityHash (body.lookup "authority_checkpoint_hash")) = true := by
      rw [show (body.lookup "schema").bind Value.asStr = some schema from hschema]
      rcases h.hversion with rfl | ⟨_, hash, hhash, hlower⟩
      · rfl
      · have hauth := (hread _).symm.trans hhash
        rw [continuityAuthorityHash,
          show (body.lookup "authority_checkpoint_hash").bind Value.asStr = some hash from hauth, Option.any_some, hlower,
          Bool.or_true]
    unfold continuityAdmissible
    simp only [Value.asObject] at hbind ⊢
    simp only [hbind, hkid, hsig, Option.bind_some, hlookup, hauthority, Bool.true_and]
    simp only [Bool.and_eq_true, beq_iff_eq, List.all_cons, List.all_nil, u64_member, text_member, continuityMembers]
    refine ⟨⟨⟨⟨⟨⟨⟨houterLen, ?_⟩, ?_⟩, ⟨m, hm⟩, ⟨n, hn⟩, ⟨appended, hk⟩, trivial⟩, ⟨origin, ho, hone⟩, ⟨first, hf, h.hfirst.2⟩,
      ⟨last, hl, h.hlast.2⟩, trivial⟩, (origin_iff ho).mpr hsame⟩, hself⟩, (Option.any_eq_true _ _).mpr ⟨canon, ?_, hverified⟩⟩
    · rw [hinnerLen, show (body.lookup "schema").bind Value.asStr = some schema from hschema]
      simp only [Option.some.injEq]
    · exact ⟨hasKey_of_bind hschema, hasKey_of_bind ho, hasKey_of_bind hf, hasKey_of_bind hl, hasKey_of_bind hm,
        hasKey_of_bind hn, hasKey_of_bind hk, trivial⟩
    · rw [Value.index, hinner, Option.getD_some, hcanon]

theorem FirstWith.getD {hash : String} {i : Nat} {cp : Value} (h : FirstWith X chain hash i cp) :
    chain.getD i .null = cp := by
  rw [List.getD_eq_getElem?_getD, h.hhere, Option.getD_some]

/-- The binding of the second version: the named checkpoint is the target, an
issuer active there signed, and the interval lies in the chain in order. The
first version has none. -/
theorem continuityAuthority_iff {schema first last : String} {m n appended : UInt64}
    (h : Declares bundle a schema first last m n appended) : continuityAuthority X a bundle chain kl = true ↔
      (schema = "evd/continuity/v2" → Bound X bundle kl chain a first last m n) := by
  unfold continuityAuthority
  dsimp only
  simp only [index_getStr, h.hschema, h.hfirst.1, h.hlast.1,
    index_of_getU64 ((index_getU64 a "from_tree_size").trans h.hstart),
    index_of_getU64 ((index_getU64 a "to_tree_size").trans h.hstop)]
  rcases h.hversion with rfl | ⟨rfl, hash, hhash, _⟩
  · rw [if_pos (beq_self_eq_true _)]
    exact ⟨fun _ hv => absurd hv (by decide), fun _ => rfl⟩
  rw [if_neg (by decide), hhash]
  constructor
  · intro hbound _
    split at hbound
    case h_2 => cases hbound
    rename_i hash' kid first' last' hhash' hkid hfirst' hlast'
    cases hhash'
    cases hfirst'
    cases hlast'
    split at hbound
    case h_2 => cases hbound
    rename_i k i j hk hi hj
    obtain ⟨cp, hcp⟩ := findIdx_iff.mp hk
    obtain ⟨p, hp⟩ := findIdx_iff.mp hi
    obtain ⟨q, hq⟩ := findIdx_iff.mp hj
    rw [hcp.getD, hp.getD, hq.getD] at hbound
    split at hbound
    case h_2 => cases hbound
    rename_i ts size hts hsize
    simp only [Bool.and_eq_true, Bool.not_eq_true', decide_eq_true_eq, beq_iff_eq, index_eqv_posInt,
      index_getU64] at hbound hsize
    obtain ⟨⟨⟨⟨⟨⟨htarget, hsigner⟩, hissuer⟩, hactive⟩, horder⟩, hstart⟩, hstop⟩ := hbound
    refine ⟨⟨hash, k, cp, hhash, hcp, htarget⟩, ⟨kid, hkid, ts, size, ?_, ?_, ?_, hissuer, hactive⟩,
      i, j, p, q, horder, hp, hq, hstart, hstop⟩
    · rw [targetOf, ← eqv_getStr htarget, hsigner]
    · rw [targetOf, ← eqv_bodyStr htarget, hts]
    · rw [targetOf, ← eqv_bodyU64 htarget, hsize]
  · intro hbound
    obtain ⟨⟨hash', k, cp, hhash', hcp, htarget⟩, ⟨kid, hkid, ts, size, hsigner, hts, hsize, hissuer, hactive⟩,
      i, j, p, q, horder, hp, hq, hstart, hstop⟩ := hbound rfl
    obtain rfl := Option.some.inj (hhash.symm.trans hhash')
    rw [hkid]
    dsimp only
    rw [findIdx_iff.mpr ⟨cp, hcp⟩, findIdx_iff.mpr ⟨p, hp⟩, findIdx_iff.mpr ⟨q, hq⟩]
    dsimp only
    rw [hcp.getD, hp.getD, hq.getD, eqv_bodyStr htarget, index_getU64, eqv_bodyU64 htarget, eqv_getStr htarget]
    rw [hts, hsize]
    dsimp only
    simp only [Bool.and_eq_true, Bool.not_eq_true', decide_eq_true_eq, beq_iff_eq, index_eqv_posInt, index_getU64]
    exact ⟨⟨⟨⟨⟨⟨htarget, hsigner⟩, hissuer⟩, hactive⟩, horder⟩, hstart⟩, hstop⟩

/-- What the two admission checks ask of one assertion, together. -/
theorem admissible_iff : (continuityAdmissible X a kl (bundle.get "origin") && continuityAuthority X a bundle chain kl) = true ↔
    Admissible X bundle kl chain a := by
  rw [Bool.and_eq_true, continuityAdmissible_iff]
  constructor
  · intro ⟨⟨hsigned, schema, first, last, m, n, appended, h⟩, hbound⟩
    exact ⟨hsigned, schema, first, last, m, n, appended, h, (continuityAuthority_iff h).mp hbound⟩
  · intro ⟨hsigned, schema, first, last, m, n, appended, h, hbound⟩
    exact ⟨⟨hsigned, schema, first, last, m, n, appended, h⟩, (continuityAuthority_iff h).mpr hbound⟩

/-! ## Gaps -/

/-- The second checkpoint is linked to the first by its `prev_hash`. -/
def Linked (X : Crates) (p q : Value) : Prop :=
  ∃ hash, checkpointBodyHash X p = some hash ∧ bodyStr q "prev_hash" = some hash

/-- The assertion is about exactly the interval between the two. -/
def Names (X : Crates) (a p q : Value) : Prop :=
  ∃ first last, checkpointBodyHash X p = some first ∧ checkpointBodyHash X q = some last ∧
    bodyStr a "from_hash" = some first ∧ bodyStr a "to_hash" = some last

theorem coveredIntervals_names {first last : String} :
    ((coveredIntervals items).any fun c => c.1 == first && c.2 == last) = true ↔
      ∃ a ∈ items, continuitySelfConsistent a = true ∧ bodyStr a "from_hash" = some first ∧
        bodyStr a "to_hash" = some last := by
  simp only [coveredIntervals, List.any_eq_true, List.mem_filterMap, List.mem_filter, Option.bind_eq_bind,
    Option.bind_eq_some_iff, Option.pure_def, Option.some.injEq, Bool.and_eq_true, beq_iff_eq, bodyStr]
  constructor
  · rintro ⟨c, ⟨a, ⟨ha, hself⟩, b, hb, first', hfirst, last', hlast, hc⟩, hf, hl⟩
    subst hc
    obtain rfl : first' = first := hf
    obtain rfl : last' = last := hl
    exact ⟨a, ha, hself, ⟨b, hb, hfirst⟩, b, hb, hlast⟩
  · rintro ⟨a, ha, hself, ⟨b, hb, hfirst⟩, b', hb', hlast⟩
    obtain rfl := Option.some.inj (hb.symm.trans hb')
    exact ⟨(first, last), ⟨a, ⟨ha, hself⟩, b, hb, first, hfirst, last, hlast, rfl⟩, rfl, rfl⟩

/-- More assertions cover what fewer do. -/
theorem isGap_mono (h : ∀ a ∈ items, a ∈ items') {p q : Value}
    (hgap : isGap X (coveredIntervals items') p q = true) : isGap X (coveredIntervals items) p q = true := by
  unfold isGap at hgap ⊢
  split
  · split
    · rename_i hp hq hlinked
      simp only [hp, hq, hlinked, if_true] at hgap
      cases hgap
    · rename_i hp hq hlinked
      simp only [hp, hq] at hgap
      rw [if_neg hlinked, Bool.not_eq_true'] at hgap
      rw [Bool.not_eq_true', ← Bool.not_eq_true, coveredIntervals_names]
      intro ⟨a, ha, hnames⟩
      rw [coveredIntervals_names.mpr ⟨a, h a ha, hnames⟩] at hgap
      cases hgap
  · rfl

theorem continuityGaps_mono (h : ∀ a ∈ items, a ∈ items') :
    continuityGaps X chain items' ≤ continuityGaps X chain items :=
  List.countP_mono_left fun _ _ hgap => isGap_mono h hgap

theorem continuityGaps_congr (h : ∀ a, a ∈ items' ↔ a ∈ items) :
    continuityGaps X chain items' = continuityGaps X chain items :=
  Nat.le_antisymm (continuityGaps_mono fun a => (h a).mpr) (continuityGaps_mono fun a => (h a).mp)

/-- What leaves no gap between two checkpoints: the second is linked to the
first by its `prev_hash`, or an assertion names the interval. -/
theorem isGap_iff (hall : ∀ a ∈ items, continuitySelfConsistent a = true) {p q : Value} {first last : String}
    (hp : checkpointBodyHash X p = some first) (hq : checkpointBodyHash X q = some last) :
    isGap X (coveredIntervals items) p q = false ↔ Linked X p q ∨ ∃ a ∈ items, Names X a p q := by
  unfold isGap
  rw [hp, hq]
  dsimp only
  split
  · rename_i hlinked
    exact ⟨fun _ => .inl ⟨first, hp, eq_of_beq hlinked⟩, fun _ => rfl⟩
  · rename_i hlinked
    rw [Bool.not_eq_false', coveredIntervals_names]
    constructor
    · intro ⟨a, ha, _, hf, hl⟩
      exact .inr ⟨a, ha, first, last, hp, hq, hf, hl⟩
    · rintro (⟨hash, hhash, hprev⟩ | ⟨a, ha, first', last', hp', hq', hf, hl⟩)
      · rw [hp] at hhash
        cases hhash
        exact absurd (beq_iff_eq.mpr hprev) hlinked
      · rw [hp] at hp'
        rw [hq] at hq'
        cases hp'
        cases hq'
        exact ⟨a, ha, hall a ha, hf, hl⟩

/-- An assertion is self-consistent as it is admissible. -/
theorem Admissible.selfConsistent (h : Admissible X bundle kl chain a) : continuitySelfConsistent a = true := by
  obtain ⟨schema, first, last, m, n, appended, hd, _⟩ := h.hdeclares
  obtain ⟨body, hbody, _⟩ := hd.hinner
  have hread : ∀ k, bodyStr a k = (Value.object body).getStr k := fun k => by rw [bodyStr, hbody, Option.bind_some]
  have hnum : ∀ k, bodyU64 a k = (Value.object body).getU64 k := fun k => by rw [bodyU64, hbody, Option.bind_some]
  exact (selfConsistent_iff hbody ((hread _).symm.trans hd.hschema) ((hnum _).symm.trans hd.hstart)
    ((hnum _).symm.trans hd.hstop) ((hnum _).symm.trans hd.hcount) ((hread _).symm.trans hd.hfirst.1)
    ((hread _).symm.trans hd.hlast.1)).mpr ⟨hd.hversion, hd.hconsistent, hd.hdistinct⟩

/-! ## The cover of a bundle -/

/-- The assertion is admissible in the bundle. -/
def AdmissibleIn (X : Crates) (bundle a : Value) : Prop :=
  Admissible X bundle (replayKeyLog X (entriesOf bundle)) (chainOf bundle) a

/-- Every two neighbours of the chain are linked, or an assertion names them.
Assertions over longer intervals tile nothing. -/
def Tiles (X : Crates) (bundle : Value) (items : List Value) : Prop :=
  ∀ pair ∈ (chainOf bundle).zip (chainOf bundle).tail,
    Linked X pair.1 pair.2 ∨ ∃ a ∈ items, Names X a pair.1 pair.2

/-- What is reported of the assertions: present, ok and the gaps. -/
def cover (X : Crates) (bundle : Value) (trust : Option Value) : Bool × Bool × Nat :=
  ((verifyBundleFacts X bundle trust).continuityPresent, (verifyBundleFacts X bundle trust).continuityOk,
    (verifyBundleFacts X bundle trust).continuityGaps)

theorem getSome_of_getArray {k : String} (h : bundle.getArray k = some items) :
    bundle.getSome k = some (.array items) := by
  obtain ⟨v, hv, hitems⟩ := Option.bind_eq_some_iff.mp h
  cases v with
  | array xs =>
    cases hitems
    rw [Value.getSome, hv]
    rfl
  | _ => cases hitems

theorem assess_admissible (hitems : bundle.getArray "continuity" = some items)
    (hall : ∀ a ∈ items, Admissible X bundle kl chain a) : assessContinuity X bundle chain kl =
      (!items.isEmpty, items.isEmpty || continuityGaps X chain items == 0, continuityGaps X chain items) := by
  have hcheck : (items.all fun item => continuityAdmissible X item kl (bundle.get "origin") &&
      continuityAuthority X item bundle chain kl) = true :=
    List.all_eq_true.mpr fun a ha => admissible_iff.mpr (hall a ha)
  rw [assessContinuity, getSome_of_getArray hitems]
  simp only [Value.asArray, hcheck, Bool.not_true, Bool.false_eq_true, if_false]

theorem assess_inadmissible (hitems : bundle.getArray "continuity" = some items)
    (hbad : ∃ a ∈ items, ¬ Admissible X bundle kl chain a) :
    assessContinuity X bundle chain kl = (!items.isEmpty, false, 0) := by
  have hcheck : (items.all fun item => continuityAdmissible X item kl (bundle.get "origin") &&
      continuityAuthority X item bundle chain kl) = false := by
    obtain ⟨a, ha, hnot⟩ := hbad
    refine List.all_eq_false.mpr ⟨a, ha, fun hadmitted => hnot (admissible_iff.mp hadmitted)⟩
  rw [assessContinuity, getSome_of_getArray hitems]
  simp only [Value.asArray, hcheck, Bool.not_false, if_true]

/-- A verified bundle reports the assessment of its own parts, with its own key
log and chain. -/
theorem cover_eq {trust : Option Value} (h : (verifyBundleFacts X bundle trust).ok = true) :
    cover X bundle trust = assessContinuity X bundle (chainOf bundle) (replayKeyLog X (entriesOf bundle)) := by
  obtain ⟨entries, kl, target, chainEntries, chain, root, sparse, haccepted, hreported⟩ := verified_facts h
  rw [haccepted.entries_eq, haccepted.chain_eq, haccepted.hreplay]
  exact hreported.continuity

/-- The checkpoints of a verified chain have body hashes, so that intervals
between them can be named at all. -/
theorem chain_hashed {trust : Option Value} (h : (verifyBundleFacts X bundle trust).ok = true) :
    ∀ cp ∈ chainOf bundle, ∃ hash, checkpointBodyHash X cp = some hash := by
  obtain ⟨entries, kl, target, chainEntries, chain, root, sparse, haccepted, _⟩ := verified_facts h
  intro cp hcp
  obtain ⟨body, canon, hbody, hcanon⟩ := haccepted.chain_canonical cp (haccepted.chain_eq ▸ hcp)
  refine ⟨hex (X.sha256 canon).val, ?_⟩
  rw [checkpointBodyHash, hbody, Option.bind_eq_bind, Option.bind_some, hcanon]
  rfl

/-- No gap is left exactly when the assertions tile the chain; the count is that
of the neighbours with a gap. -/
theorem gaps_zero_iff {trust : Option Value} (h : (verifyBundleFacts X bundle trust).ok = true)
    (hall : ∀ a ∈ items, AdmissibleIn X bundle a) :
    continuityGaps X (chainOf bundle) items = 0 ↔ Tiles X bundle items := by
  rw [continuityGaps, List.countP_eq_zero]
  refine forall₂_congr fun pair hpair => ?_
  obtain ⟨first, hp⟩ := chain_hashed h pair.1 (List.of_mem_zip hpair).1
  obtain ⟨last, hq⟩ := chain_hashed h pair.2 (List.mem_of_mem_tail (List.of_mem_zip hpair).2)
  rw [Bool.not_eq_true]
  exact isGap_iff (fun a ha => (hall a ha).selfConsistent) hp hq

/-! ## Other assertions for the same bundle -/

/-- Two bundles that differ in the array under `continuity` only. -/
inductive Reasserted (items items' : List Value) : Value → Value → Prop where
  | mk (before after : List (String × Value)) (hfirst : ∀ p ∈ before, p.1 ≠ "continuity") :
      Reasserted items items' (.object (before ++ ("continuity", .array items) :: after))
        (.object (before ++ ("continuity", .array items') :: after))

namespace Reasserted
variable {b b' : Value}

theorem get (h : Reasserted items items' b b') {k : String} (hk : k ≠ "continuity") : b'.get k = b.get k := by
  obtain ⟨before, after, _⟩ := h
  have hne : (k == "continuity") = false := beq_false_of_ne hk
  simp only [Value.get, List.lookup_append, List.lookup_cons, hne]

theorem getArray (h : Reasserted items items' b b') {k : String} (hk : k ≠ "continuity") :
    b'.getArray k = b.getArray k := by
  rw [Value.getArray, Value.getArray, h.get hk]

theorem index (h : Reasserted items items' b b') {k : String} (hk : k ≠ "continuity") : b'.index k = b.index k := by
  rw [Value.index, Value.index, h.get hk]

theorem carried (h : Reasserted items items' b b') :
    b.getArray "continuity" = some items ∧ b'.getArray "continuity" = some items' := by
  obtain ⟨before, after, hfirst⟩ := h
  have hnone : before.lookup "continuity" = none := by
    rw [List.lookup_eq_none_iff]
    intro p hp
    exact bne_iff_ne.mpr fun he => hfirst p hp he.symm
  constructor <;> simp [Value.getArray, Value.get, List.lookup_append, hnone, Value.asArray]

theorem entriesOf (h : Reasserted items items' b b') : entriesOf b' = entriesOf b := by
  rw [L4.Bundle.entriesOf, L4.Bundle.entriesOf, h.getArray (by decide)]

theorem chainOf (h : Reasserted items items' b b') : chainOf b' = chainOf b := by
  rw [L4.Bundle.chainOf, L4.Bundle.chainOf, linksOf, linksOf, presentedChain_agree (h.get (by decide))]

theorem withinCaps (h : Reasserted items items' b b') (hset : ∀ a, a ∈ items' ↔ a ∈ items) :
    withinCaps X b' = withinCaps X b := by
  have hnumbers : numbersWithinProfile X b' = numbersWithinProfile X b := by
    obtain ⟨before, after, _⟩ := h
    have hall : ∀ limit, (items'.all fun x => numbersMatch X false x limit) =
        items.all fun x => numbersMatch X false x limit := by
      intro limit
      rw [Bool.eq_iff_iff, List.all_eq_true, List.all_eq_true]
      exact forall_congr' fun a => imp_congr_left (hset a)
    simp only [numbersWithinProfile, numbersMatch, numbersMatchMembers_append, numbersMatchMembers,
      numbersMatchItems_eq, hall]
  rw [L4.Bundle.withinCaps, L4.Bundle.withinCaps, h.getArray (by decide), h.getArray (by decide), hnumbers]

/-- The assertions do not decide whether a bundle is accepted: only the
assessment reads them. -/
theorem ok (h : Reasserted items items' b b') (hset : ∀ a, a ∈ items' ↔ a ∈ items) (trust : Option Value) :
    (verifyBundleFacts X b' trust).ok = (verifyBundleFacts X b trust).ok := by
  have horigin := h.get (k := "origin") (by decide)
  have hjwks : ∀ kl, checkJwksMatchLog X b' kl = checkJwksMatchLog X b kl := by
    intro kl
    simp only [checkJwksMatchLog, h.get (k := "jwks") (by decide)]
  have hadmitted : admitted X b' = admitted X b := by
    simp only [admitted, h.withinCaps hset, h.getArray (k := "entries") (by decide),
      getStr_agree (h.get (k := "schema") (by decide)), hjwks]
  have hchecks : ∀ es kl, (checkCheckpointsAndEntries X b' es kl trust {}).1 =
      (checkCheckpointsAndEntries X b es kl trust {}).1 := by
    intro es kl
    simp only [checkCheckpointsAndEntries, h.get (k := "target_checkpoint") (by decide),
      presentedChain_agree (h.get (by decide)), checkEntrySet_agree (X := X) horigin (h.get (by decide)),
      checkChainAndLineage_agree (X := X) horigin (h.get (by decide)),
      checkAttestationRecords_agree (X := X) (h.get (by decide)) (h.get (by decide))]
    split
    · split
      · rfl
      split
      · rfl
      split
      · rfl
      split
      · rfl
      split <;> rfl
    · rfl
  simp only [verifyBundleFacts, hadmitted]
  split
  · rfl
  · rw [hchecks]
    split <;> rfl

theorem admissible (h : Reasserted items items' b b') {a : Value} :
    AdmissibleIn X b' a ↔ AdmissibleIn X b a := by
  have hauthority : ∀ chain kl, continuityAuthority X a b' chain kl = continuityAuthority X a b chain kl := by
    intro chain kl
    simp only [continuityAuthority, h.index (k := "target_checkpoint") (by decide)]
  rw [AdmissibleIn, AdmissibleIn, ← admissible_iff, ← admissible_iff, h.entriesOf, h.chainOf, hauthority,
    h.get (by decide)]

end Reasserted

/-! ## Main result -/

/-- What is reported of the assertions, read off them, where all are
admissible. -/
theorem cover_admissible {trust : Option Value} (h : (verifyBundleFacts X bundle trust).ok = true)
    (hitems : bundle.getArray "continuity" = some items) (hall : ∀ a ∈ items, AdmissibleIn X bundle a) :
    cover X bundle trust = (!items.isEmpty, items.isEmpty || continuityGaps X (chainOf bundle) items == 0,
      continuityGaps X (chainOf bundle) items) :=
  (cover_eq h).trans (assess_admissible hitems hall)

/-- One assertion that is not admissible: the cover is not ok, and no gap is
counted. -/
theorem cover_inadmissible {trust : Option Value} (h : (verifyBundleFacts X bundle trust).ok = true)
    (hitems : bundle.getArray "continuity" = some items) (hbad : ∃ a ∈ items, ¬ AdmissibleIn X bundle a) :
    cover X bundle trust = (!items.isEmpty, false, 0) :=
  (cover_eq h).trans (assess_inadmissible hitems hbad)

theorem checks_rejected {es : List Value} {trust : Option Value} {facts : BundleFacts}
    (h : (checkCheckpointsAndEntries X bundle es kl trust facts).1 = false) :
    (checkCheckpointsAndEntries X bundle es kl trust facts).2.continuityGaps = facts.continuityGaps := by
  unfold checkCheckpointsAndEntries at h ⊢
  split at h
  case h_2 => rfl
  dsimp only at h ⊢
  split at h
  · rename_i hempty
    rw [if_pos hempty]
  rename_i hne
  rw [if_neg hne]
  split at h
  · rename_i hset
    rw [if_pos hset]
    rfl
  rename_i hset
  rw [if_neg hset]
  split at h
  · rename_i hlinks
    rw [if_pos hlinks]
    rfl
  rename_i hlinks
  rw [if_neg hlinks]
  split at h
  · rfl
  split at h
  · rename_i hrecords
    rw [if_pos hrecords]
    rfl
  · cases h

/-- No gap is reported of a bundle that is not accepted. -/
theorem gaps_rejected {trust : Option Value} (h : (verifyBundleFacts X bundle trust).ok = false) :
    (verifyBundleFacts X bundle trust).continuityGaps = 0 := by
  unfold verifyBundleFacts at h ⊢
  split
  · rfl
  · rename_i entries kl hadmitted
    rw [hadmitted] at h
    dsimp only at h ⊢
    split
    · rename_i hr
      rw [if_pos hr] at h
      cases h
    · rename_i hr
      exact checks_rejected (Bool.eq_false_iff.mpr hr)

/-- The interval that an assertion of the second version is about: it lies
between two checkpoints of the chain, and the target's issuer signed for it. -/
structure Retained (X : Crates) (bundle a : Value) : Prop where
  hinterval : ∃ (i j : Nat) (p q : Value) (first last : String) (m n appended : UInt64),
    i < j ∧ (chainOf bundle)[i]? = some p ∧ (chainOf bundle)[j]? = some q ∧
    checkpointBodyHash X p = some first ∧ checkpointBodyHash X q = some last ∧
    bodyStr a "from_hash" = some first ∧ bodyStr a "to_hash" = some last ∧
    bodyU64 p "tree_size" = some m ∧ bodyU64 q "tree_size" = some n ∧
    bodyU64 a "appended" = some appended ∧ n.toNat = m.toNat + appended.toNat
  hsigned : SignedByLog X (replayKeyLog X (entriesOf bundle)) a
  hissuer : ∃ kid, a.getStr "kid" = some kid ∧ TargetIssuer (replayKeyLog X (entriesOf bundle)) (targetOf bundle) kid

theorem retained_of_admissible (h : AdmissibleIn X bundle a) (hv : bodyStr a "schema" = some "evd/continuity/v2") :
    Retained X bundle a := by
  obtain ⟨hsigned, schema, first, last, m, n, appended, hd, hbound⟩ := h
  obtain rfl : schema = "evd/continuity/v2" := Option.some.inj (hd.hschema.symm.trans hv)
  obtain ⟨_, hissuer, i, j, p, q, horder, hp, hq, hm, hn⟩ := hbound rfl
  exact ⟨⟨i, j, p, q, first, last, m, n, appended, horder, hp.hhere, hq.hhere, hp.hhash, hq.hhash, hd.hfirst.1, hd.hlast.1,
    hm, hn, hd.hcount, hd.hconsistent.1⟩, hsigned, hissuer⟩

/-- **Continuity cover.** In a verified bundle with assertions they are present
and ok exactly when there are some, all are admissible and they tile the chain;
one inadmissible assertion spoils the cover. Their order and number do not
matter, one more never leaves more gaps, and those of the second version are
about intervals of the chain, under the target's issuer. -/
theorem continuity_cover (X : Crates) (bundle : Value) (trust : Option Value) (items : List Value)
    (h : (verifyBundleFacts X bundle trust).ok = true) (hitems : bundle.getArray "continuity" = some items) :
    ((verifyBundleFacts X bundle trust).continuityPresent = true ∧ (verifyBundleFacts X bundle trust).continuityOk = true ↔
      items ≠ [] ∧ (∀ a ∈ items, AdmissibleIn X bundle a) ∧ Tiles X bundle items) ∧
    ((∃ a ∈ items, ¬ AdmissibleIn X bundle a) →
      (verifyBundleFacts X bundle trust).continuityOk = false ∧ (verifyBundleFacts X bundle trust).continuityGaps = 0) ∧
    (∀ items' b', Reasserted items items' bundle b' → (∀ a, a ∈ items' ↔ a ∈ items) →
      (verifyBundleFacts X b' trust).ok = true ∧ cover X b' trust = cover X bundle trust) ∧
    (∀ items' b' a, Reasserted items items' bundle b' → AdmissibleIn X bundle a →
      (∀ x, x ∈ items' ↔ x = a ∨ x ∈ items) →
      (verifyBundleFacts X b' trust).continuityGaps ≤ (verifyBundleFacts X bundle trust).continuityGaps) ∧
    ((∀ a ∈ items, AdmissibleIn X bundle a) →
      ∀ a ∈ items, bodyStr a "schema" = some "evd/continuity/v2" → Retained X bundle a) := by
  refine ⟨?_, fun hbad => ?_, fun items' b' hre hset => ?_, fun items' b' a hre ha hset => ?_,
    fun hall a ha => retained_of_admissible (hall a ha)⟩
  · by_cases hall : ∀ a ∈ items, AdmissibleIn X bundle a
    · have hcover := cover_admissible h hitems hall
      simp only [cover, Prod.mk.injEq] at hcover
      rw [hcover.1, hcover.2.1, ← gaps_zero_iff h hall]
      cases items with
      | nil => simp
      | cons a items =>
        constructor
        · intro ⟨_, hgaps⟩
          exact ⟨List.cons_ne_nil _ _, hall, by simpa using hgaps⟩
        · intro ⟨_, _, hgaps⟩
          exact ⟨rfl, by rw [hgaps]; rfl⟩
    · have hbad : ∃ a ∈ items, ¬ AdmissibleIn X bundle a := by
        simpa only [not_forall, exists_prop] using hall
      have hcover := cover_inadmissible h hitems hbad
      simp only [cover, Prod.mk.injEq] at hcover
      rw [hcover.2.1]
      constructor
      · intro ⟨_, hok⟩
        cases hok
      · intro ⟨_, hok, _⟩
        exact absurd hok hall
  · have hcover := cover_inadmissible h hitems hbad
    simp only [cover, Prod.mk.injEq] at hcover
    exact hcover.2
  · have hok : (verifyBundleFacts X b' trust).ok = true := (hre.ok hset trust).trans h
    have hempty : items'.isEmpty = items.isEmpty := by
      rw [Bool.eq_iff_iff, List.isEmpty_iff, List.isEmpty_iff, List.eq_nil_iff_forall_not_mem,
        List.eq_nil_iff_forall_not_mem]
      exact forall_congr' fun a => not_congr (hset a)
    refine ⟨hok, ?_⟩
    by_cases hall : ∀ a ∈ items, AdmissibleIn X bundle a
    · rw [cover_admissible h hitems hall, cover_admissible hok hre.carried.2 fun a ha =>
        hre.admissible.mpr (hall a ((hset a).mp ha)), hre.chainOf, continuityGaps_congr hset, hempty]
    · have hbad : ∃ a ∈ items, ¬ AdmissibleIn X bundle a := by
        simpa only [not_forall, exists_prop] using hall
      obtain ⟨a, ha, hnot⟩ := hbad
      rw [cover_inadmissible h hitems ⟨a, ha, hnot⟩, cover_inadmissible hok hre.carried.2
        ⟨a, (hset a).mpr ha, fun hadm => hnot (hre.admissible.mp hadm)⟩, hempty]
  · cases hok : (verifyBundleFacts X b' trust).ok with
    | false =>
      rw [gaps_rejected hok]
      exact Nat.zero_le _
    | true =>
      by_cases hall : ∀ x ∈ items', AdmissibleIn X b' x
      · have hcover' := cover_admissible hok hre.carried.2 hall
        have hcover := cover_admissible h hitems fun x hx => hre.admissible.mp (hall x ((hset x).mpr (Or.inr hx)))
        simp only [cover, Prod.mk.injEq] at hcover hcover'
        rw [hcover.2.2, hcover'.2.2, hre.chainOf]
        exact continuityGaps_mono fun x hx => (hset x).mpr (Or.inr hx)
      · have hbad : ∃ x ∈ items', ¬ AdmissibleIn X b' x := by
          simpa only [not_forall, exists_prop] using hall
        have hcover' := cover_inadmissible hok hre.carried.2 hbad
        simp only [cover, Prod.mk.injEq] at hcover'
        rw [hcover'.2.2]
        exact Nat.zero_le _

section
open SwarrmVerify.L4.Rewritten

/-- The assertion of the rewritten log is admissible and tiles its chain. -/
theorem rewritten_tiled : assertions ≠ [] ∧ (∀ a ∈ assertions, AdmissibleIn crates rewritten a) ∧
    Tiles crates rewritten assertions := by
  obtain ⟨hok, _, hpresent, hcover, _⟩ := rewritten_checked
  exact (continuity_cover crates rewritten trust assertions hok rfl).1.mp ⟨hpresent, hcover⟩

end

end SwarrmVerify.L5.Tiling
