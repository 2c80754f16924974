import Mathlib.Data.Set.List
import SwarrmVerify.L1Encoding.CborCodec
import SwarrmVerify.L1Encoding.Reference
import SwarrmVerify.L4Handshake.State

/-!
# The authority map

An authority keeps the state of its objects as values of a map, and commits to
them by the root of a Merkle tree over their canonical bytes. A membership proof
brings a value, its position and the size of the tree, and the verifier knows
only the root. A prover may lie about the size and the position; what it cannot
do is show a value that is not in the map.

**Hypotheses.** The map is any list of values whose canonical bytes make the
tree of the root; where two proofs are compared it has one value for each key.
What is hashed by the proof and by the tree does not collide. Nothing is
assumed of the position, of the size or of the path.

Two values may have the same bytes and differ in the order of their members, so
what is shown is a document up to that order (`plain_of_canonical`), which no
reader of members can see.

**Results.**
* `mem_of_includes`: a value that is in the tree at a position of whatever
  shape is in the map.
* `authority_map_sound`: an accepted proof shows the value of its object, so
  two proofs agree on an object, and a counter has one version.
* `counterProof_shows`: a counter and a superseded object.
-/
namespace SwarrmVerify.L5.AuthorityMap
open Panics SwarrmVerify.L1.CborWire SwarrmVerify.L2.Merkle SwarrmVerify.L4.Handshake
open SwarrmVerify.L1.Reference (blank)

/-! ## Documents and canonical bytes -/

/-- Arranging a value changes only the inside of arrays and maps. -/
theorem arrange_bytes {x : C} {b : Bytes} (h : arrange cwtProfile x = .bytes b) : x = .bytes b := by
  cases x <;> first | exact h | (rw [arrange] at h; cases h)

theorem arrange_text {x : C} {s : String} (h : arrange cwtProfile x = .text s) : x = .text s := by
  cases x <;> first | exact h | (rw [arrange] at h; cases h)

theorem uint_arrange (x : C) : uint (arrange cwtProfile x) = uint x := by
  cases x with
  | array xs => rfl
  | map m => rfl
  | _ => rfl

/-- The members of two maps that are equal once arranged. -/
theorem perm_of_arrange {m n : List (C × C)} (h : arrange cwtProfile (.map m) = arrange cwtProfile (.map n)) :
    (m.map (arrangeMember cwtProfile)).Perm (n.map (arrangeMember cwtProfile)) := by
  rw [arrange_map, arrange_map, Cbor.Value.map.injEq] at h
  calc m.map (arrangeMember cwtProfile)
      _ |>.Perm ((m.insertionSort (memberLe cwtProfile)).map (arrangeMember cwtProfile)) :=
        (List.perm_insertionSort _ _).symm.map _
      _ = (n.insertionSort (memberLe cwtProfile)).map (arrangeMember cwtProfile) := h
      _ |>.Perm (n.map (arrangeMember cwtProfile)) := (List.perm_insertionSort _ _).map _

/-- Documents with the same canonical bytes have the same members. -/
theorem plain_of_canonical {v w : C} {b : Bytes} {doc : Doc} (hb : b.length < 2 ^ 64) (hv : canonical v = some b)
    (hw : canonical w = some b) (h : plain v = some doc) :
    ∃ doc', plain w = some doc' ∧ ∀ k x, doc.lookup k = some x →
      ∃ x', doc'.lookup k = some x' ∧ arrange cwtProfile x' = arrange cwtProfile x := by
  obtain ⟨rfl, hnodup⟩ := plain_eq_some.mp h
  have harranged := arrange_unique hb hv hw
  cases w with
  | map n =>
    have hperm := perm_of_arrange harranged
    -- the keys of the second map are those of the first, so they are texts
    have htext : n ∈ Set.range (List.map entry) := by
      rw [Set.range_list_map]
      intro q hq
      have hin := hperm.mem_iff.mpr (List.mem_map_of_mem hq)
      rw [List.map_map] at hin
      obtain ⟨e, -, he⟩ := List.mem_map.mp hin
      obtain ⟨hk, -⟩ := Prod.mk.inj he
      exact ⟨(e.1, q.2), Prod.ext hk rfl⟩
    obtain ⟨doc', rfl⟩ := htext
    have hkeys : ((doc.map Prod.fst).map (Cbor.Value.text : String → C)).Perm
        ((doc'.map Prod.fst).map (Cbor.Value.text : String → C)) := by
      have := hperm.map Prod.fst
      rw [List.map_map, List.map_map, List.map_map, List.map_map] at this
      rw [List.map_map, List.map_map]
      exact this
    have hinj : Function.Injective (Cbor.Value.text : String → C) := fun _ _ hst => Cbor.Value.text.inj hst
    have hnodup' : (doc'.map Prod.fst).Nodup := (List.nodup_map_iff hinj).mp (hkeys.nodup (hnodup.map hinj))
    refine ⟨doc', plain_eq_some.mpr ⟨rfl, hnodup'⟩, ?_⟩
    intro k x hx
    rw [lookup_eq_some_iff_mem hnodup] at hx
    have hin := hperm.mem_iff.mp (List.mem_map_of_mem (List.mem_map_of_mem hx))
    rw [List.map_map] at hin
    obtain ⟨e, he, heq⟩ := List.mem_map.mp hin
    obtain ⟨hk, hx'⟩ := Prod.mk.inj heq
    cases hk
    exact ⟨e.2, (lookup_eq_some_iff_mem hnodup').mpr he, hx'⟩
  | _ =>
    rw [arrange_map] at harranged
    simp [arrange] at harranged

/-! ## The map -/

/-- A value of an authority's map with its canonical bytes. -/
structure MapValue where
  value : C
  bytes : Slice
  encodes : canonical value = some bytes.val

/-- A member of a document. -/
def field (v : C) (name : String) : Option C := (plain v).bind (List.lookup name)

namespace MapValue

def key (m : MapValue) : Option Bytes := (field m.value "key").bind L4.Handshake.bytes

def state (m : MapValue) : Option String := (field m.value "state").bind text

def version (m : MapValue) : Option Nat := (field m.value "version").bind uint

def digest (m : MapValue) : Option Bytes := (field m.value "object_digest").bind L4.Handshake.bytes

end MapValue

def leaves (X : Crates) (M : List MapValue) : List Digest := M.map fun m => X.sha256 (leafBytes m.bytes.val)

/-- What the authority signs of its map. -/
def authorityRoot (X : Crates) (M : List MapValue) : Bytes := (treeHash X (leaves X M)).val

/-- No two values of the map are about one object. -/
def DistinctKeys (M : List MapValue) : Prop := M.Pairwise fun m n => ∀ k, m.key = some k → n.key ≠ some k

/-- The value that a membership proof brings, with its position. -/
def brought (proof : C) : Option Position :=
  (plain proof).bind fun doc =>
    match position doc with
    | .ok p => p
    | .error _ => none

/-- The version of the value that a membership proof brings. -/
def shownVersion (proof : C) : Option Nat :=
  (brought proof).bind fun p => (field p.value "version").bind uint

/-- What is hashed to make the root of a map. -/
def mapInputs (X : Crates) (M : List MapValue) : List Bytes :=
  [] :: M.map (fun m => leafBytes m.bytes.val) ++ treeInputs X (leaves X M)

/-- What is hashed to check a membership proof. -/
def proofInputs (X : Crates) (proof : C) : List Bytes :=
  match brought proof with
  | none => []
  | some p =>
    match siblings p.path, canonical p.value with
    | some path, some value => leafBytes value ::
      inclusionInputs X (X.sha256 (leafBytes value)).val (UInt64.ofNat p.index) (UInt64.ofNat p.size) path
    | _, _ => []

/-! ## Membership -/

section Membership

variable {X : Crates} {M : List MapValue} {proof : C} {key digest : Bytes} {state : String} {version : Option Nat}

/-- A value that is in the tree at a position of whatever shape is in the map. -/
theorem mem_of_includes {p : Position} (hp : brought proof = some p)
    (hc : CollisionFree X (mapInputs X M ++ proofInputs X proof)) (h : includes X p (authorityRoot X M) = true) :
    ∃ m ∈ M, canonical p.value = some m.bytes.val := by
  unfold includes at h
  split at h
  · rename_i path value hpath hvalue
    have hleaves : leaves X M = (M.map fun m => m.bytes.val).map fun x => X.sha256 (0 :: x) := by
      rw [leaves, List.map_map]
      rfl
    simp only [proofInputs, hp, hpath, hvalue] at hc
    have hmem : value ∈ M.map fun m => m.bytes.val := by
      refine inclusion_member X _ value _ _ path (hc.mono ?_) (by rw [← hleaves]; exact h)
      rw [← hleaves, List.map_map]
      intro b hb
      simp only [List.cons_append, List.mem_cons, List.mem_append] at hb
      rcases hb with rfl | rfl | hb | hb | hb
      · simp [mapInputs]
      · simp [leafBytes]
      · exact List.mem_append_left _ (by simp only [mapInputs, List.cons_append]; exact .tail _ (List.mem_append_left _ hb))
      · exact List.mem_append_right _ (.tail _ hb)
      · exact List.mem_append_left _ (List.mem_append_right _ hb)
    obtain ⟨m, hm, rfl⟩ := List.mem_map.mp hmem
    exact ⟨m, hm, hvalue⟩
  · cases h

/-- What an accepted membership proof shows of a value of the map. -/
structure Shows (m : MapValue) (proof : C) (key digest : Bytes) (state : String) : Prop where
  value : ∃ p, brought proof = some p ∧ canonical p.value = some m.bytes.val
  key : m.key = some key
  state : m.state = some state
  digest : m.digest = some digest
  version : m.version = shownVersion proof

theorem verifyState_shows (hc : CollisionFree X (mapInputs X M ++ proofInputs X proof))
    (h : verifyState X proof (authorityRoot X M) key digest state version = .ok true) :
    ∃ m ∈ M, Shows m proof key digest state ∧ ∀ n, version = some n → m.version = some n := by
  obtain ⟨doc, p, value, hplain, hposition, hshown⟩ := verifyState_spec h
  have hp : brought proof = some p := by
    rw [brought, hplain, Option.bind_some, hposition]
  obtain ⟨m, hm, hbytes⟩ := mem_of_includes hp hc hshown.included
  obtain ⟨doc', hdoc', hmembers⟩ :=
    plain_of_canonical (lt_trans m.bytes.property (by decide)) hbytes m.encodes hshown.doc
  have hfield : ∀ k x, value.lookup k = some x →
      ∃ x', field m.value k = some x' ∧ arrange cwtProfile x' = arrange cwtProfile x := by
    intro k x hx
    obtain ⟨x', hx', heq⟩ := hmembers k x hx
    exact ⟨x', by rw [field, hdoc', Option.bind_some, hx'], heq⟩
  obtain ⟨n, hn, -, hexpected⟩ := hshown.version
  obtain ⟨x, hx, hxn⟩ := Option.bind_eq_some_iff.mp hn
  have hversion : m.version = some n := by
    obtain ⟨x', hx', heq⟩ := hfield _ _ hx
    rw [MapValue.version, hx', Option.bind_some, ← uint_arrange, heq, uint_arrange, hxn]
  refine ⟨m, hm, ⟨⟨p, hp, hbytes⟩, ?_, ?_, ?_, ?_⟩, fun k hk => by rw [hversion, hexpected k hk]⟩
  · obtain ⟨x', hx', heq⟩ := hfield _ _ hshown.key
    rw [MapValue.key, hx', arrange_bytes heq]
    rfl
  · obtain ⟨x', hx', heq⟩ := hfield _ _ hshown.state
    rw [MapValue.state, hx', arrange_text heq]
    rfl
  · obtain ⟨x', hx', heq⟩ := hfield _ _ hshown.digest
    rw [MapValue.digest, hx', arrange_bytes heq]
    rfl
  · rw [hversion, shownVersion, hp, Option.bind_some, field, hshown.doc, Option.bind_some, hx, Option.bind_some, hxn]

/-- A key has one value in the map. -/
theorem eq_of_key (hd : DistinctKeys M) {m n : MapValue} (hm : m ∈ M) (hn : n ∈ M) (hk : m.key = some key)
    (hk' : n.key = some key) : m = n := by
  by_contra hne
  have hsymm : Std.Symm fun m n : MapValue => ∀ k, m.key = some k → n.key ≠ some k :=
    ⟨fun m n h k hn hm => h k hm hn⟩
  exact hd.forall hm hn hne key hk hk'

end Membership

/-- **Authority-map membership.** Whatever position, size and path a proof
brings, an accepted one shows a value of the map. Where the map has one value
for each key, two accepted proofs for a key show the same state, version and
digest, and a counter is accepted at its only version. -/
theorem authority_map_sound (X : Crates) (M : List MapValue) :
    (∀ (proof : C) (key digest : Bytes) (state : String) (version : Option Nat),
      CollisionFree X (mapInputs X M ++ proofInputs X proof) →
      verifyState X proof (authorityRoot X M) key digest state version = .ok true →
      ∃ m ∈ M, (∃ p, brought proof = some p ∧ canonical p.value = some m.bytes.val) ∧ m.key = some key ∧
        m.state = some state ∧ m.digest = some digest ∧ ∀ n, version = some n → m.version = some n) ∧
    (DistinctKeys M → ∀ (proof proof' : C) (key digest digest' : Bytes) (state state' : String)
      (version version' : Option Nat),
      CollisionFree X (mapInputs X M ++ proofInputs X proof) →
      CollisionFree X (mapInputs X M ++ proofInputs X proof') →
      verifyState X proof (authorityRoot X M) key digest state version = .ok true →
      verifyState X proof' (authorityRoot X M) key digest' state' version' = .ok true →
      state = state' ∧ digest = digest' ∧ shownVersion proof = shownVersion proof' ∧
        ∀ n n', version = some n → version' = some n' → n = n') ∧
    (DistinctKeys M → ∀ (proof : C) (bindingId : Bytes) (minimumVersion : Nat),
      CollisionFree X (mapInputs X M ++ proofInputs X proof) →
      verifyCounterHead X proof (authorityRoot X M) bindingId minimumVersion = .ok true →
      ∃ m ∈ M, ∃ n, (∀ m' ∈ M, m'.key = some (stateKey X "admin_counter" bindingId) ↔ m' = m) ∧
        m.state = some "ACTIVE" ∧ m.version = some n ∧ shownVersion proof = some n ∧ minimumVersion ≤ n) := by
  refine ⟨?_, ?_, ?_⟩
  · intro proof key digest state version hc h
    obtain ⟨m, hm, hshows, hversion⟩ := verifyState_shows hc h
    exact ⟨m, hm, hshows.value, hshows.key, hshows.state, hshows.digest, hversion⟩
  · intro hd proof proof' key digest digest' state state' version version' hc hc' h h'
    obtain ⟨m, hm, hshows, hversion⟩ := verifyState_shows hc h
    obtain ⟨m', hm', hshows', hversion'⟩ := verifyState_shows hc' h'
    have heq := eq_of_key hd hm hm' hshows.key hshows'.key
    subst heq
    refine ⟨?_, ?_, hshows.version.symm.trans hshows'.version, ?_⟩
    · exact Option.some.inj (hshows.state.symm.trans hshows'.state)
    · exact Option.some.inj (hshows.digest.symm.trans hshows'.digest)
    · intro n n' hn hn'
      exact Option.some.inj ((hversion n hn).symm.trans (hversion' n' hn'))
  · intro hd proof bindingId minimumVersion hc h
    obtain ⟨n, digest, hle, hstate⟩ := verifyCounterHead_spec h
    obtain ⟨m, hm, hshows, hversion⟩ := verifyState_shows hc hstate
    refine ⟨m, hm, n, ?_, hshows.state, hversion n rfl, ?_, hle⟩
    · intro m' hm'
      constructor
      · intro hk
        exact eq_of_key hd hm' hm hk hshows.key
      · intro heq
        rw [heq, hshows.key]
    · rw [← hshows.version, hversion n rfl]

/-! ## A counter and a superseded object -/

def stateValue (key : Bytes) (state : String) (version : Int) (digest : Bytes) : C :=
  .map [(.text "key", .bytes key), (.text "state", .text state), (.text "version", .integer version),
    (.text "object_digest", .bytes digest)]

def counterValue : C := stateValue (stateKey blank "admin_counter" [7]) "ACTIVE" 3 (List.replicate 32 1)

def supersededValue : C := stateValue (List.replicate 32 9) "SUPERSEDED" 2 (List.replicate 32 2)

/-- The map value of a value with short canonical bytes. -/
def mapValue (v : C) (h : ((canonical v).getD []).length < 2 ^ 63) (he : (canonical v).isSome = true) : MapValue :=
  ⟨v, ⟨(canonical v).getD [], h⟩, (Option.some_get he).symm.trans (by rw [Option.get_eq_getD])⟩

def twoValues : List MapValue :=
  [mapValue counterValue (by decide +kernel) (by decide +kernel),
    mapValue supersededValue (by decide +kernel) (by decide +kernel)]

/-- The counter as the left of two leaves. -/
def counterProof : C :=
  .map [(.text "schema", .text membershipSchema),
    (.text "key", .bytes (stateKey blank "admin_counter" [7])), (.text "value", counterValue),
    (.text "index", .integer 0), (.text "tree_size", .integer 2),
    (.text "path", .array ((leaves blank twoValues).drop 1 |>.map fun d => .bytes d.val))]

/-- The counter is accepted from version 2 on, at its version 3. -/
theorem counterProof_shows :
    verifyCounterHead blank counterProof (authorityRoot blank twoValues) [7] 2 = .ok true ∧
      ∃ m ∈ twoValues, ∃ n,
        (∀ m' ∈ twoValues, m'.key = some (stateKey blank "admin_counter" [7]) ↔ m' = m) ∧
          m.state = some "ACTIVE" ∧ m.version = some n ∧ shownVersion counterProof = some n ∧ 2 ≤ n := by
  have haccepted : verifyCounterHead blank counterProof (authorityRoot blank twoValues) [7] 2 = .ok true := by
    decide +kernel
  refine ⟨haccepted, (authority_map_sound blank twoValues).2.2 ?_ counterProof [7] 2 ?_ haccepted⟩
  · refine List.pairwise_pair.mpr ?_
    intro k hk hk'
    rw [← hk] at hk'
    revert hk'
    decide +kernel
  · decide +kernel

end SwarrmVerify.L5.AuthorityMap
