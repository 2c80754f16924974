import SwarrmVerify.L1Encoding.CborCodec
import SwarrmVerify.L1Encoding.ScanRun

/-!
# The emitter as a normal form

What the emitter of `cbor_wire.rs` writes is one item that ends where it ends:
no emitted string is the beginning of another. It holds shortest heads and
increasing keys only, and two values have it in common exactly up to the order
of the members of their maps. This is what lets a signature over the bytes
stand for a signature over the value, and lets two emitted strings be joined
without a length between them.

`Reordered` is equality up to the order of members, at every level: the least
congruence that permutes them. `Normal` describes the deterministic items of
RFC 8949 byte for byte, with no reference to the emitter. Both are stated for
either profile and for any limit of depth, since neither bears on the bytes but
only on whether there are any.

**Results.**
* `writeValue_reordered`: the order of members does not show.
* `item_prefix_free`, `emitted_prefix_free`: whatever follows an item, it is
  the only one at its place.
* `writeValue_repeated`: a value with a map that repeats a key, or the bytes of
  one, is refused, wherever in the value the map stands.
* `writeValue_normal`: what is emitted is in normal form.
* `readHeadRun_writeHead`: a written head is read back wherever it stands.
* `canonical_normal_form`: all of these in one.
-/
namespace SwarrmVerify.L1.NormalForm
open Cbor CborWire ScanRun

/-! ## Up to the order of members -/

/-- The congruence that reorders the members of maps, at any depth, in items,
keys and values alike. -/
inductive Reordered : Cbor.Value → Cbor.Value → Prop where
  | refl (v : Cbor.Value) : Reordered v v
  | symm {v w : Cbor.Value} (h : Reordered v w) : Reordered w v
  | trans {u v w : Cbor.Value} (h : Reordered u v) (h' : Reordered v w) : Reordered u w
  | item {x y : Cbor.Value} (l r : List Cbor.Value) (h : Reordered x y) :
      Reordered (.array (l ++ x :: r)) (.array (l ++ y :: r))
  | key {j k : Cbor.Value} (x : Cbor.Value) (l r : List (Cbor.Value × Cbor.Value)) (h : Reordered j k) :
      Reordered (.map (l ++ (j, x) :: r)) (.map (l ++ (k, x) :: r))
  | value {x y : Cbor.Value} (k : Cbor.Value) (l r : List (Cbor.Value × Cbor.Value)) (h : Reordered x y) :
      Reordered (.map (l ++ (k, x) :: r)) (.map (l ++ (k, y) :: r))
  | members {m n : List (Cbor.Value × Cbor.Value)} (h : m.Perm n) : Reordered (.map m) (.map n)

theorem reordered_items {f : Cbor.Value → Cbor.Value} {xs : List Cbor.Value} (h : ∀ x ∈ xs, Reordered x (f x))
    (l : List Cbor.Value) : Reordered (.array (l ++ xs)) (.array (l ++ xs.map f)) := by
  induction xs generalizing l with
  | nil => exact .refl _
  | cons x xs ih =>
    rw [List.forall_mem_cons] at h
    have hrest := ih h.2 (l ++ [f x])
    rw [List.append_assoc, List.append_assoc] at hrest
    exact .trans (.item l xs h.1) hrest

theorem reordered_members {f : Cbor.Value → Cbor.Value} {m : List (Cbor.Value × Cbor.Value)}
    (h : ∀ q ∈ m, Reordered q.2 (f q.2)) (l : List (Cbor.Value × Cbor.Value)) :
    Reordered (.map (l ++ m)) (.map (l ++ m.map fun q => (q.1, f q.2))) := by
  induction m generalizing l with
  | nil => exact .refl _
  | cons q m ih =>
    rw [List.forall_mem_cons] at h
    have hrest := ih h.2 (l ++ [(q.1, f q.2)])
    rw [List.append_assoc, List.append_assoc] at hrest
    exact .trans (.value q.1 l m h.1) hrest

section Emitter

variable {p : Profile}

/-- Arranging a value reorders it, so every value is equal to its arranged form
up to order. -/
theorem reordered_arrange (v : Cbor.Value) : Reordered v (arrange p v) := by
  match v with
  | .null | .bool _ | .integer _ | .text _ | .bytes _ | .float _ | .tag _ _ => exact .refl _
  | .array xs =>
    rw [arrange, arrangeItems_eq]
    exact reordered_items (fun x hx => reordered_arrange x) []
  | .map m =>
    rw [arrange_map]
    refine .trans (.members (List.perm_insertionSort (memberLe p) m).symm) ?_
    exact reordered_members (fun q hq => reordered_arrange q.2) []
termination_by sizeOf v
decreasing_by
  · have := List.sizeOf_lt_of_mem hx
    simp only [Cbor.Value.array.sizeOf_spec]
    omega
  · have := List.sizeOf_lt_of_mem ((List.mem_insertionSort (memberLe p)).mp hq)
    have hq' : sizeOf q = 1 + sizeOf q.1 + sizeOf q.2 := by cases q; rfl
    simp only [Cbor.Value.map.sizeOf_spec]
    omega

theorem writeItems_congr {x y : Cbor.Value} (h : ∀ limit, writeValue p x limit = writeValue p y limit)
    (l r : List Cbor.Value) (limit : Int) : writeItems p (l ++ x :: r) limit = writeItems p (l ++ y :: r) limit := by
  induction l with
  | nil => simp only [List.nil_append, writeItems, h]
  | cons z l ih => simp only [List.cons_append, writeItems, ih]

theorem writePairs_congr {j k x y : Cbor.Value} (hk : writeKey p j = writeKey p k)
    (h : ∀ limit, writeValue p x limit = writeValue p y limit) (l r : List (Cbor.Value × Cbor.Value)) (limit : Int) :
    writePairs p (l ++ (j, x) :: r) limit = writePairs p (l ++ (k, y) :: r) limit := by
  induction l with
  | nil => simp only [List.nil_append, writePairs, hk, h]
  | cons z l ih => simp only [List.cons_append, writePairs, ih]

/-- A key that is a container is refused in any order. -/
theorem writeKey_reordered {j k : Cbor.Value} (h : Reordered j k) : writeKey p j = writeKey p k := by
  induction h with
  | refl => rfl
  | symm _ ih => exact ih.symm
  | trans _ _ ih ih' => exact ih.trans ih'
  | item => rfl
  | key => rfl
  | value => rfl
  | members => rfl

/-- Sorted pairs repeat no key exactly if the pairs do not: equal keys become
neighbours. -/
theorem repeats_sorted (l : List (Bytes × Bytes)) :
    repeats (l.insertionSort pairLe) = false ↔ (l.map Prod.fst).Nodup := by
  have hperm := (List.perm_insertionSort pairLe l).map Prod.fst
  constructor
  · intro h
    have hstrict := strict_of_repeats (pairwise_sorted l) h
    have hkeys : ((l.insertionSort pairLe).map Prod.fst).Pairwise fun a b => byteOrder a < byteOrder b :=
      List.pairwise_map.mpr hstrict
    refine hperm.nodup_iff.mp (hkeys.imp ?_)
    intro a b hlt he
    exact absurd (congrArg byteOrder he) hlt.ne
  · intro h
    exact repeats_of_nodup (hperm.nodup_iff.mpr h)

theorem joinPairs_perm {l l' : List (Bytes × Bytes)} (h : l.Perm l') : joinPairs l = joinPairs l' := by
  have hsorted : (l.insertionSort pairLe).Perm (l'.insertionSort pairLe) :=
    (List.perm_insertionSort pairLe l).trans (h.trans (List.perm_insertionSort pairLe l').symm)
  unfold joinPairs
  cases hrep : repeats (l.insertionSort pairLe) with
  | true =>
    have hrep' : repeats (l'.insertionSort pairLe) = true := by
      rw [← Bool.not_eq_false, repeats_sorted] at hrep ⊢
      rwa [← (h.map Prod.fst).nodup_iff]
    simp only [hrep, hrep', if_true]
  | false =>
    have hrep' : repeats (l'.insertionSort pairLe) = false := by
      rw [repeats_sorted] at hrep ⊢
      rwa [← (h.map Prod.fst).nodup_iff]
    have heq : l.insertionSort pairLe = l'.insertionSort pairLe := by
      refine hsorted.eq_of_pairwise (fun a b _ _ hab hba => ?_) (strict_of_repeats (pairwise_sorted l) hrep)
        (strict_of_repeats (pairwise_sorted l') hrep')
      exact absurd hab (lt_asymm hba)
    simp only [heq]

theorem writePairs_perm {m n : List (Cbor.Value × Cbor.Value)} (h : m.Perm n) (limit : Int) :
    (writePairs p m limit).bind joinPairs = (writePairs p n limit).bind joinPairs := by
  have hsome : ∀ {m n : List (Cbor.Value × Cbor.Value)} {pairs}, m.Perm n → writePairs p m limit = some pairs →
      writePairs p n limit = some (n.map (pairBytes p limit)) ∧ pairs.Perm (n.map (pairBytes p limit)) := by
    intro m n pairs hperm hm
    obtain ⟨hall, rfl⟩ := writePairs_eq_some.mp hm
    exact ⟨writePairs_eq_some.mpr ⟨fun q hq => hall q (hperm.mem_iff.mpr hq), rfl⟩, hperm.map _⟩
  cases hm : writePairs p m limit with
  | some pairs =>
    obtain ⟨hn, hperm⟩ := hsome h hm
    rw [hn, Option.bind_some, Option.bind_some, joinPairs_perm hperm]
  | none =>
    cases hn : writePairs p n limit with
    | none => rfl
    | some pairs =>
      obtain ⟨hm', -⟩ := hsome h.symm hn
      rw [hm] at hm'
      cases hm'

/-- The order of members does not show. By induction on the congruence; a
permutation of members is sorted to the same pairs. -/
theorem writeValue_reordered {v w : Cbor.Value} (h : Reordered v w) :
    ∀ limit, writeValue p v limit = writeValue p w limit := by
  induction h with
  | refl => exact fun _ => rfl
  | symm _ ih => exact fun limit => (ih limit).symm
  | trans _ _ ih ih' => exact fun limit => (ih limit).trans (ih' limit)
  | item l r _ ih =>
    intro limit
    simp only [writeValue, writeItems_congr ih l r, List.length_append, List.length_cons]
  | key x l r h _ =>
    intro limit
    simp only [writeValue, writePairs_congr (writeKey_reordered h) (fun _ => rfl) l r]
  | value k l r _ ih =>
    intro limit
    simp only [writeValue, writePairs_congr rfl ih l r]
  | members h =>
    intro limit
    simp only [writeValue, writePairs_perm h]

/-! ## One item, and no more -/

/-- Whatever follows an item, it is the only one at its place: a head tells its
argument, and a container its number of members. -/
theorem item_prefix_free {v w : Cbor.Value} {b r : Bytes} (h : Item v b) (h' : Item w (b ++ r)) : v = w ∧ r = [] := by
  have hfront := readItem_item (b ++ r).length v b r h (by simp)
  have hwhole := readItem_item (b ++ r).length w (b ++ r) [] h' le_rfl
  rw [List.append_nil, hfront] at hwhole
  cases hwhole
  exact ⟨rfl, rfl⟩

theorem emitted_prefix_free {limit : Int} {v w : Cbor.Value} {b c : Slice} (hb : writeValue p v limit = some b.val)
    (hc : writeValue p w limit = some c.val) (hstart : b.val <+: c.val) : b = c ∧ Reordered v w := by
  obtain ⟨r, hr⟩ := hstart
  have hfits : ∀ d : Slice, d.val.length < 2 ^ 64 := fun d => lt_trans d.property (by decide)
  have hv := (writeValue_item v limit _ hb (hfits b)).item
  have hw := (writeValue_item w limit _ hc (hfits c)).item
  rw [← hr] at hw
  obtain ⟨harrange, rfl⟩ := item_prefix_free hv hw
  rw [List.append_nil] at hr
  refine ⟨Subtype.ext hr, .trans (reordered_arrange (p := p) v) ?_⟩
  rw [harrange]
  exact (reordered_arrange w).symm

/-! ## Repeated keys -/

/-- The values of which a value consists: itself, its items, and the keys and
values of its members. -/
inductive Within (w : Cbor.Value) : Cbor.Value → Prop where
  | refl : Within w w
  | item {x : Cbor.Value} {xs : List Cbor.Value} (h : Within w x) (hx : x ∈ xs) : Within w (.array xs)
  | key {q : Cbor.Value × Cbor.Value} {m : List (Cbor.Value × Cbor.Value)} (h : Within w q.1) (hq : q ∈ m) :
      Within w (.map m)
  | value {q : Cbor.Value × Cbor.Value} {m : List (Cbor.Value × Cbor.Value)} (h : Within w q.2) (hq : q ∈ m) :
      Within w (.map m)
  | tag {x : Cbor.Value} (t : UInt64) (h : Within w x) : Within w (.tag t x)

/-- What holds a value that is refused is refused, since every part is written
on the way. -/
theorem writeValue_within {v w : Cbor.Value} (h : Within w v) (hw : ∀ limit, writeValue p w limit = none)
    (hkey : writeKey p w = none) : (∀ limit, writeValue p v limit = none) ∧ writeKey p v = none := by
  induction h with
  | refl => exact ⟨hw, hkey⟩
  | item _ hx ih =>
    refine ⟨fun limit => ?_, rfl⟩
    rw [Option.eq_none_iff_forall_ne_some]
    intro b hb
    obtain ⟨bx, hbx, -⟩ := writeValue_item_inside hb _ hx
    rw [ih.1] at hbx
    cases hbx
  | key _ hq ih =>
    refine ⟨fun limit => ?_, rfl⟩
    rw [Option.eq_none_iff_forall_ne_some]
    intro b hb
    have hsome := ((writeValue_members hb).2 _ hq).1
    rw [ih.2] at hsome
    cases hsome
  | value _ hq ih =>
    refine ⟨fun limit => ?_, rfl⟩
    rw [Option.eq_none_iff_forall_ne_some]
    intro b hb
    have hsome := ((writeValue_members hb).2 _ hq).2
    rw [ih.1] at hsome
    cases hsome
  | tag => exact ⟨fun _ => by rw [writeValue], rfl⟩

theorem writeValue_repeated {m : List (Cbor.Value × Cbor.Value)} {i j : Nat} {q r : Cbor.Value × Cbor.Value}
    (hij : i < j) (hq : m[i]? = some q) (hr : m[j]? = some r) (hkeys : writeKey p q.1 = writeKey p r.1) (limit : Int) :
    writeValue p (.map m) limit = none := by
  rw [Option.eq_none_iff_forall_ne_some]
  intro b h
  simp only [writeValue] at h
  split at h
  · cases h
  obtain ⟨pairs, hpairs, hjoin⟩ := Option.bind_eq_some_iff.mp h
  obtain ⟨-, rfl⟩ := writePairs_eq_some.mp hpairs
  rw [joinPairs] at hjoin
  split at hjoin
  · cases hjoin
  rename_i hrep
  have hnodup := (repeats_sorted _).mp (Bool.not_eq_true _ ▸ hrep)
  rw [List.map_map, List.nodup_iff_getElem?_ne_getElem?] at hnodup
  obtain ⟨hj, -⟩ := List.getElem?_eq_some_iff.mp hr
  refine hnodup i j hij (by simpa using hj) ?_
  simp only [List.getElem?_map, hq, hr, Option.map_some, Function.comp_apply, pairBytes, keyBytes, hkeys]

end Emitter

/-! ## Deterministic items -/

/-- The shortest head of a major type and argument: no wider form that would
hold the argument is used. -/
def Shortest (major : UInt8) (n : Nat) (hd : Bytes) : Prop :=
  Head major n hd ∧ ∀ hd', Head major n hd' → hd.length ≤ hd'.length

/-- Items with shortest heads and strictly increasing keys, at every level.
Nothing in it refers to a value or to the emitter. -/
inductive Normal : Bytes → Prop where
  | simple {b : UInt8} (h : b = 0xf4 ∨ b = 0xf5 ∨ b = 0xf6) : Normal [b]
  | int {m : UInt8} {n : Nat} {hd : Bytes} (hm : m = 0 ∨ m = 1) (h : Shortest m n hd) : Normal hd
  | string {m : UInt8} {s hd : Bytes} (hm : m = 2 ∨ m = 3) (h : Shortest m s.length hd) : Normal (hd ++ s)
  | array {bs : List Bytes} {hd : Bytes} (h : Shortest 4 bs.length hd) (hs : ∀ b ∈ bs, Normal b) :
      Normal (hd ++ bs.flatten)
  | map {pairs : List (Bytes × Bytes)} {hd : Bytes} (h : Shortest 5 pairs.length hd)
      (hk : ∀ q ∈ pairs, Normal q.1) (hx : ∀ q ∈ pairs, Normal q.2)
      (hsorted : pairs.Pairwise fun q r => byteOrder q.1 < byteOrder r.1) :
      Normal (hd ++ pairs.flatMap fun q => q.1 ++ q.2)

theorem length_writeHead (major : UInt8) (arg : Nat) : (writeHead major arg).length =
    if arg ≤ 23 then 1 else if arg ≤ 0xff then 2 else if arg ≤ 0xffff then 3 else if arg ≤ 0xffffffff then 5
    else 9 := by
  unfold writeHead
  split
  · rfl
  split
  · rfl
  split
  · rfl
  split
  · rfl
  · rfl

/-- The emitter chooses the first width that holds the argument. -/
theorem writeHead_shortest (major : UInt8) {arg : Nat} (h : arg < 2 ^ 64) :
    Shortest major arg (writeHead major arg) := by
  refine ⟨writeHead_head major h, ?_⟩
  intro hd' hhead
  rw [length_writeHead]
  cases hhead with
  | short hn => rw [if_pos (by omega)]; simp
  | long w hw hn =>
    rw [List.length_cons, Sha256.bytesBE_length]
    -- the width bounds the argument
    obtain rfl | rfl | rfl | rfl : w = 0 ∨ w = 1 ∨ w = 2 ∨ w = 3 := by omega
    all_goals
      norm_num at hn ⊢
      split_ifs <;> omega

theorem writeInt_normal {i : Int} {b : Bytes} (h : writeInt i = some b) : Normal b := by
  unfold writeInt at h
  split at h
  · cases h
  rename_i hrange
  simp only [Bool.or_eq_true, decide_eq_true_eq, not_or, not_lt] at hrange
  split at h
  · cases h
    exact .int (.inl rfl) (writeHead_shortest 0 (by omega))
  · cases h
    exact .int (.inr rfl) (writeHead_shortest 1 (by omega))

theorem writeText_normal {s : String} (h : (writeText s).length < 2 ^ 64) : Normal (writeText s) := by
  simp only [writeText, List.length_append] at h
  exact .string (.inr rfl) (writeHead_shortest 3 (by omega))

section Emitter

variable {p : Profile}

theorem writeKey_normal {k : Cbor.Value} {b : Bytes} (h : writeKey p k = some b) (hb : b.length < 2 ^ 64) :
    Normal b := by
  cases k with
  | integer i =>
    simp only [writeKey] at h
    split at h
    · exact writeInt_normal h
    · cases h
  | text s =>
    simp only [writeKey, Option.some.injEq] at h
    subst h
    exact writeText_normal hb
  | _ => cases h

/-- Whatever is emitted for `v` is so. -/
def Normalises (p : Profile) (v : Cbor.Value) : Prop :=
  ∀ limit b, writeValue p v limit = some b → b.length < 2 ^ 64 → Normal b

theorem writeItems_normal {xs : List Cbor.Value} (hx : ∀ x ∈ xs, Normalises p x) {limit : Int} :
    ∀ {body}, writeItems p xs limit = some body → body.length < 2 ^ 64 →
      ∃ bs : List Bytes, body = bs.flatten ∧ bs.length = xs.length ∧ ∀ b ∈ bs, Normal b := by
  induction xs with
  | nil =>
    intro body h _
    cases h
    exact ⟨[], rfl, rfl, by simp⟩
  | cons x xs ih =>
    intro body h hlen
    simp only [writeItems, Option.bind_eq_bind, Option.bind_eq_some_iff, Option.pure_def, Option.some.injEq] at h
    obtain ⟨b, hb, rest, hrest, rfl⟩ := h
    rw [List.length_append] at hlen
    rw [List.forall_mem_cons] at hx
    obtain ⟨bs, rfl, hcount, hbs⟩ := ih hx.2 hrest (by omega)
    refine ⟨b :: bs, rfl, by simp only [List.length_cons, hcount], ?_⟩
    rw [List.forall_mem_cons]
    exact ⟨hx.1 limit b hb (by omega), hbs⟩

/-- An item of a container is as long as the container counts. -/
theorem items_le {v : Cbor.Value} {xs : List Cbor.Value} {b : Bytes} (h : Item v b) (hv : v = .array xs) :
    xs.length ≤ b.length := by
  subst hv
  cases h with
  | array _ hs =>
    rw [List.length_append]
    exact le_trans hs.length_le (Nat.le_add_left _ _)

theorem members_le {v : Cbor.Value} {m : List (Cbor.Value × Cbor.Value)} {b : Bytes} (h : Item v b) (hv : v = .map m) :
    m.length ≤ b.length := by
  subst hv
  cases h with
  | map _ hs =>
    have := hs.length_le
    rw [List.length_append]
    omega

theorem length_le_flatMap {pairs : List (Bytes × Bytes)} {q : Bytes × Bytes} (hq : q ∈ pairs) :
    q.1.length + q.2.length ≤ (pairs.flatMap fun q => q.1 ++ q.2).length := by
  obtain ⟨l, r, rfl⟩ := List.append_of_mem hq
  simp only [List.flatMap_append, List.flatMap_cons, List.length_append]
  omega

/-- The sorted pairs of a map without repeated keys are strictly increasing as
byte strings. -/
theorem map_normal {m : List (Cbor.Value × Cbor.Value)} (hx : ∀ q ∈ m, Normalises p q.2) :
    Normalises p (.map m) := by
  intro limit b h hlen
  have hcount := lt_of_le_of_lt (members_le (writeValue_item (.map m) limit b h hlen).item (arrange_map m)) hlen
  simp only [writeValue] at h
  split at h
  · cases h
  obtain ⟨pairs, hpairs, hjoin⟩ := Option.bind_eq_some_iff.mp h
  obtain ⟨hall, rfl⟩ := writePairs_eq_some.mp hpairs
  rw [joinPairs] at hjoin
  split at hjoin
  · cases hjoin
  rename_i hrep
  have hmem : ∀ q ∈ (m.map (pairBytes p (limit - 1))).insertionSort pairLe, ∃ r ∈ m,
      pairBytes p (limit - 1) r = q := by
    intro q hq
    exact List.mem_map.mp ((List.mem_insertionSort pairLe).mp hq)
  cases hjoin
  rw [List.length_append] at hlen
  refine .map (writeHead_shortest 5 ?_) ?_ ?_ (strict_of_repeats (pairwise_sorted _) (by simpa using hrep))
  · rw [List.length_map, List.length_insertionSort] at hcount
    rw [List.length_insertionSort, List.length_map]
    omega
  · intro q hq
    have hle := length_le_flatMap hq
    obtain ⟨r, hr, rfl⟩ := hmem q hq
    obtain ⟨kb, hk⟩ := Option.isSome_iff_exists.mp (hall r hr).1
    simp only [pairBytes, keyBytes, hk, Option.getD_some] at hle ⊢
    exact writeKey_normal hk (by omega)
  · intro q hq
    have hle := length_le_flatMap hq
    obtain ⟨r, hr, rfl⟩ := hmem q hq
    obtain ⟨bx, hbx⟩ := Option.isSome_iff_exists.mp (hall r hr).2
    simp only [pairBytes, hbx, Option.getD_some] at hle ⊢
    exact hx r hr _ bx hbx (by omega)

/-- What is emitted is in normal form. -/
theorem writeValue_normal (v : Cbor.Value) : Normalises p v := by
  match v with
  | .null =>
    intro limit b h _
    simp only [writeValue] at h
    split at h
    · cases h
    · cases h
      exact .simple (.inr (.inr rfl))
  | .bool c =>
    intro limit b h _
    simp only [writeValue] at h
    split at h
    · cases h
    · cases h
      cases c with
      | false => exact .simple (.inl rfl)
      | true => exact .simple (.inr (.inl rfl))
  | .integer i =>
    intro limit b h _
    simp only [writeValue] at h
    split at h
    · cases h
    · exact writeInt_normal h
  | .text s =>
    intro limit b h hlen
    simp only [writeValue] at h
    split at h
    · cases h
    · cases h
      exact writeText_normal hlen
  | .bytes c =>
    intro limit b h hlen
    simp only [writeValue] at h
    split at h
    · cases h
    · cases h
      rw [List.length_append] at hlen
      exact .string (.inl rfl) (writeHead_shortest 2 (by omega))
  | .array xs =>
    intro limit b h hlen
    have hcount := lt_of_le_of_lt (items_le (writeValue_item (.array xs) limit b h hlen).item rfl) hlen
    simp only [writeValue] at h
    split at h
    · cases h
    obtain ⟨body, hbody, rfl⟩ := Option.map_eq_some_iff.mp h
    rw [List.length_append] at hlen
    obtain ⟨bs, rfl, hbs, hnormal⟩ := writeItems_normal (fun x _ => writeValue_normal x) hbody (by omega)
    rw [arrangeItems_eq, List.length_map] at hcount
    rw [← hbs]
    exact .array (writeHead_shortest 4 (by omega)) hnormal
  | .map m => exact map_normal fun q _ => writeValue_normal q.2
  | .float _ => intro limit b h _; cases h
  | .tag _ _ => intro limit b h _; cases h
termination_by sizeOf v
decreasing_by
  · have := List.sizeOf_lt_of_mem ‹x ∈ xs›
    simp only [Cbor.Value.array.sizeOf_spec]
    omega
  · have := List.sizeOf_lt_of_mem ‹q ∈ m›
    have hq' : sizeOf q = 1 + sizeOf q.1 + sizeOf q.2 := by cases q; rfl
    simp only [Cbor.Value.map.sizeOf_spec]
    omega

end Emitter

/-! ## Heads, read back -/

/-- A written head is read back wherever it stands, by the reader with the
arithmetic of the machine. -/
theorem readHeadRun_writeHead (t : Target) (data : t.Data) {m : Nat} (hm : m < 6) (arg : UInt64) {before after : Bytes}
    (h : data.val = before ++ (writeHead (UInt8.ofNat m) arg.toNat ++ after)) :
    readHeadRun t data.val before.length = .ok (some (UInt8.ofNat m, arg,
      before.length + (writeHead (UInt8.ofNat m) arg.toNat).length)) := by
  have hlen := congrArg List.length h
  simp only [List.length_append] at hlen
  obtain ⟨o, hrun, hspec⟩ := readHeadRun_spec t data (i := before.length)
  have hread := readHead_head hm (writeHead_head (UInt8.ofNat m) arg.toNat_lt) after
  have hdrop : data.val.drop before.length = writeHead (UInt8.ofNat m) arg.toNat ++ after := by
    rw [h, List.drop_left]
  rw [hrun]
  cases o with
  | none =>
    rw [hdrop, hread] at hspec
    cases hspec
  | some head =>
    obtain ⟨major, arg', j⟩ := head
    obtain ⟨-, hj, hspec⟩ := hspec
    rw [hdrop, hread] at hspec
    simp only [Option.some.injEq, Prod.mk.injEq] at hspec
    obtain ⟨rfl, harg, hafter⟩ := hspec
    have hoffset := congrArg List.length hafter
    rw [List.length_drop] at hoffset
    rw [UInt64.toNat_inj.mp harg, show j = before.length + (writeHead (UInt8.ofNat m) arg'.toNat).length by
      rw [← UInt64.toNat_inj.mp harg]; omega]

/-- **The emitter is a prefix-free normal form.** -/
theorem canonical_normal_form (p : Profile) (limit : Int) :
    (∀ (v w : Cbor.Value) (b c : Slice), canonicalBytes v limit p = some b.val → canonicalBytes w limit p = some c.val →
      b.val <+: c.val → b = c ∧ Reordered v w) ∧
    (∀ v w : Cbor.Value, Reordered v w → canonicalBytes v limit p = canonicalBytes w limit p) ∧
    (∀ (v : Cbor.Value) (m : List (Cbor.Value × Cbor.Value)) (i j : Nat) (q r : Cbor.Value × Cbor.Value),
      Within (.map m) v → i < j → m[i]? = some q → m[j]? = some r → q.1 = r.1 ∨ writeKey p q.1 = writeKey p r.1 →
        canonicalBytes v limit p = none) ∧
    (∀ (v : Cbor.Value) (b : Slice), canonicalBytes v limit p = some b.val → Normal b.val) ∧
    ∀ (t : Target) (data : t.Data) (major : Fin 6) (arg : UInt64) (before after : Bytes),
      data.val = before ++ (writeHead (UInt8.ofNat major) arg.toNat ++ after) →
        readHeadRun t data.val before.length = .ok (some (UInt8.ofNat major, arg,
          before.length + (writeHead (UInt8.ofNat major) arg.toNat).length)) := by
  refine ⟨?_, ?_, ?_, ?_, ?_⟩
  · intro v w b c hb hc hstart
    exact emitted_prefix_free hb hc hstart
  · intro v w h
    exact writeValue_reordered h limit
  · intro v m i j q r hwithin hij hq hr hkeys
    have hequal : writeKey p q.1 = writeKey p r.1 := hkeys.elim (fun he => by rw [he]) id
    exact (writeValue_within hwithin (writeValue_repeated hij hq hr hequal) rfl).1 limit
  · intro v b h
    exact writeValue_normal v limit b.val h (lt_trans b.property (by decide))
  · intro t data major arg before after h
    exact readHeadRun_writeHead t data major.isLt arg h

end SwarrmVerify.L1.NormalForm
