import SwarrmVerify.L1Encoding.CborWire

/-!
# Exactness of the CBOR decoders

The decoders of `cbor.rs` and `cbor_wire.rs` make a value in four steps: a
pre-scan over the structure, a general reader, a check of the value, and an
emitter whose bytes are compared with the input. The pre-scan bounds depth and
items with a stack, the emitter bounds depth by recursion, and the byte
comparison alone rejects wide heads, unsorted or repeated keys and integers out
of range. They agree, which is why a decoder can be described without its
steps.

The general reader is `ciborium`, a parameter. Of it `Decodes` is asked: it
decodes every well-formed item of definite length without tags and floats to
its value, with the members of maps in the order of the document. Nothing is
asked on other bytes.

**Results.**
* `decodeWith_iff`: accepted bytes are exactly the emitted bytes of an arranged
  value with few enough items.
* `decodeWith_emitted`: decoding what was emitted returns the value with its
  members in order.
* `codec_exact`: both decoders, at depth 64.
* `arrange_unique`: values with the same bytes are equal up to the order of
  members.
* `fromReader_decodes`: a reader of definite items that does what is asked.
-/
namespace SwarrmVerify.L1.CborWire
open Cbor Sha256

/-! ## Exactness -/

/-- `ciborium::de::from_reader` decodes every well-formed definite-length item
without tags and floats to its value, maps in document order. -/
def Decodes (ciborium : Bytes → Option Cbor.Value) : Prop := ∀ v b, Item v b → ciborium b = some v

section
variable {ciborium : Bytes → Option Cbor.Value} {p : Profile} {depth : Nat}

end

/-- What exactness says of a decoder of a profile: it accepts the bytes of a
value in the restricted model and nothing else, so that it inverts the emitter
up to the order of members, the emitter inverts it, and bytes with one value
are equal. -/
structure Exact (p : Profile) (decode : Slice → Option Cbor.Value) (fits : Slice → Prop)
    (encode : Cbor.Value → Option Bytes) : Prop where
  accepts : ∀ data v, decode data = some v ↔ fits data ∧ items v ≤ maxItems ∧ Restricted p v ∧
    encode v = some data.val ∧ ∀ w, Restricted p w → encode w = some data.val → w = v
  decode_encode : ∀ data v, encode v = some data.val → fits data → items v ≤ maxItems →
    decode data = some (arrange p v)
  encode_decode : ∀ data v, decode data = some v → encode v = some data.val
  injective : ∀ data data' v, decode data = some v → decode data' = some v → data = data'

section Parts

variable {p : Profile}

/-- A value is emitted under a greater depth limit as well, to the same bytes.
By recursion on the value. -/
theorem writeValue_mono (v : Cbor.Value) : ∀ {limit limit' : Int} {b : Bytes}, limit ≤ limit' →
    writeValue p v limit = some b → writeValue p v limit' = some b := by
  match v with
  | .null | .integer _ | .text _ | .bytes _ =>
    intro limit limit' b hle h
    simp only [writeValue] at h ⊢
    split at h
    · cases h
    · rename_i hlimit
      rw [if_neg (by omega)]
      exact h
  | .bool _ =>
    intro limit limit' b hle h
    simp only [writeValue, Bool.or_eq_true, decide_eq_true_eq] at h ⊢
    split at h
    · cases h
    · rename_i hlimit
      rw [not_or] at hlimit
      rw [if_neg (not_or.mpr ⟨by omega, hlimit.2⟩)]
      exact h
  | .float _ | .tag _ _ =>
    intro limit limit' b _ h
    rw [writeValue] at h
    cases h
  | .array xs =>
    intro limit limit' b hle h
    simp only [writeValue] at h ⊢
    split at h
    · cases h
    · rename_i hlimit
      rw [if_neg (by omega)]
      have hitems : ∀ l : List Cbor.Value, (∀ x ∈ l, x ∈ xs) → ∀ body, writeItems p l (limit - 1) = some body →
          writeItems p l (limit' - 1) = some body := by
        intro l
        induction l with
        | nil =>
          intro _ body hb
          exact hb
        | cons x l ih =>
          intro hl body hb
          have hx : x ∈ xs := hl x (by simp)
          simp only [writeItems, Option.bind_eq_bind, Option.bind_eq_some_iff] at hb ⊢
          obtain ⟨first, hfirst, rest, hrest, hb⟩ := hb
          refine ⟨first, writeValue_mono x (by omega) hfirst, rest, ?_, hb⟩
          exact ih (fun y hy => hl y (List.mem_cons_of_mem _ hy)) rest hrest
      obtain ⟨body, hbody, hb⟩ := Option.map_eq_some_iff.mp h
      exact Option.map_eq_some_iff.mpr ⟨body, hitems xs (fun _ hx => hx) body hbody, hb⟩
  | .map m =>
    intro limit limit' b hle h
    simp only [writeValue] at h ⊢
    split at h
    · cases h
    · rename_i hlimit
      rw [if_neg (by omega)]
      have hpairs : ∀ l : List (Cbor.Value × Cbor.Value), (∀ q ∈ l, q ∈ m) → ∀ pairs,
          writePairs p l (limit - 1) = some pairs → writePairs p l (limit' - 1) = some pairs := by
        intro l
        induction l with
        | nil =>
          intro _ pairs hb
          exact hb
        | cons q l ih =>
          intro hl pairs hb
          have hq : q ∈ m := hl q (by simp)
          obtain ⟨k, x⟩ := q
          simp only [writePairs, Option.bind_eq_bind, Option.bind_eq_some_iff] at hb ⊢
          obtain ⟨kb, hk, first, hfirst, rest, hrest, hb⟩ := hb
          refine ⟨kb, hk, first, writeValue_mono x (by omega) hfirst, rest, ?_, hb⟩
          exact ih (fun y hy => hl y (List.mem_cons_of_mem _ hy)) rest hrest
      obtain ⟨pairs, hp, hb⟩ := Option.bind_eq_some_iff.mp h
      exact Option.bind_eq_some_iff.mpr ⟨pairs, hpairs m (fun _ hq => hq) pairs hp, hb⟩
termination_by sizeOf v
decreasing_by
  · have := List.sizeOf_lt_of_mem hx
    simp only [Cbor.Value.array.sizeOf_spec]
    omega
  · have := List.sizeOf_lt_of_mem hq
    simp only [Cbor.Value.map.sizeOf_spec]
    simp only [Prod.mk.sizeOf_spec] at this
    omega

/-- The members of a map that is emitted are emitted one level down, keys and
values. -/
theorem writeValue_members {m : List (Cbor.Value × Cbor.Value)} {limit : Int} {b : Bytes}
    (h : writeValue p (.map m) limit = some b) :
    0 ≤ limit ∧ ∀ q ∈ m, (writeKey p q.1).isSome = true ∧ (writeValue p q.2 (limit - 1)).isSome = true := by
  simp only [writeValue] at h
  split at h
  · cases h
  · rename_i hlimit
    obtain ⟨pairs, hp, -⟩ := Option.bind_eq_some_iff.mp h
    exact ⟨by omega, (writePairs_eq_some.mp hp).1⟩

/-- What is emitted for an item is part of what is emitted for the array, one
level down. -/
theorem writeValue_item_inside {xs : List Cbor.Value} {limit : Int} {b : Bytes}
    (h : writeValue p (.array xs) limit = some b) :
    ∀ x ∈ xs, ∃ bx, writeValue p x (limit - 1) = some bx ∧ bx <:+: b := by
  simp only [writeValue] at h
  split at h
  · cases h
  · obtain ⟨body, hbody, rfl⟩ := Option.map_eq_some_iff.mp h
    have hitems : ∀ l : List Cbor.Value, ∀ body, writeItems p l (limit - 1) = some body →
        ∀ x ∈ l, ∃ bx, writeValue p x (limit - 1) = some bx ∧ bx <:+: body := by
      intro l
      induction l with
      | nil =>
        intro body _ x hx
        cases hx
      | cons y l ih =>
        intro body hb x hx
        simp only [writeItems, Option.bind_eq_bind, Option.bind_eq_some_iff, Option.pure_def, Option.some.injEq] at hb
        obtain ⟨first, hfirst, rest, hrest, rfl⟩ := hb
        rcases List.mem_cons.mp hx with rfl | hx
        · exact ⟨first, hfirst, (List.prefix_append first rest).isInfix⟩
        · obtain ⟨bx, hbx, hin⟩ := ih rest hrest x hx
          exact ⟨bx, hbx, hin.trans (List.suffix_append first rest).isInfix⟩
    intro x hx
    obtain ⟨bx, hbx, hin⟩ := hitems xs body hbody x hx
    exact ⟨bx, hbx, hin.trans (List.suffix_append _ body).isInfix⟩

/-- What is emitted for a member is part of what is emitted for the map,
wherever the sort has put it. -/
theorem writeValue_member_inside {m : List (Cbor.Value × Cbor.Value)} {limit : Int} {b : Bytes}
    (h : writeValue p (.map m) limit = some b) :
    ∀ q ∈ m, ∃ bx, writeValue p q.2 (limit - 1) = some bx ∧ bx <:+: b := by
  intro q hq
  obtain ⟨bx, hbx⟩ := Option.isSome_iff_exists.mp ((writeValue_members h).2 q hq).2
  refine ⟨bx, hbx, ?_⟩
  simp only [writeValue] at h
  split at h
  · cases h
  · obtain ⟨pairs, hp, hjoin⟩ := Option.bind_eq_some_iff.mp h
    obtain ⟨-, rfl⟩ := writePairs_eq_some.mp hp
    rw [joinPairs] at hjoin
    split at hjoin
    · cases hjoin
    · cases hjoin
      have hmem : pairBytes p (limit - 1) q ∈ (m.map (pairBytes p (limit - 1))).insertionSort pairLe :=
        (List.mem_insertionSort pairLe).mpr (List.mem_map_of_mem hq)
      have hbytes : (pairBytes p (limit - 1) q).2 = bx := by
        rw [pairBytes, hbx]
        rfl
      have hin := List.infix_of_mem_flatten (List.mem_map_of_mem (f := fun q : Bytes × Bytes => q.1 ++ q.2) hmem)
      rw [← List.flatMap_def] at hin
      have hpart : bx <:+: (pairBytes p (limit - 1) q).1 ++ (pairBytes p (limit - 1) q).2 := by
        rw [hbytes]
        exact (List.suffix_append _ bx).isInfix
      exact (hpart.trans hin).trans (List.suffix_append _ _).isInfix

theorem repeats_of_nodup {l : List (Bytes × Bytes)} (h : (l.map Prod.fst).Nodup) : repeats l = false := by
  induction l with
  | nil => rfl
  | cons a l ih =>
    cases l with
    | nil => rfl
    | cons b rest =>
      rw [List.map_cons, List.nodup_cons] at h
      rw [repeats, ih h.2, Bool.or_false, beq_eq_false_iff_ne]
      intro he
      exact h.1 (by simp [he])

/-- A map is emitted if its members are and no two of its keys have the same
bytes. -/
theorem writeValue_map_isSome {m : List (Cbor.Value × Cbor.Value)} {limit : Int} (hlimit : 0 ≤ limit)
    (hall : ∀ q ∈ m, (writeKey p q.1).isSome = true ∧ (writeValue p q.2 (limit - 1)).isSome = true)
    (hkeys : (m.map fun q => keyBytes p q.1).Nodup) : (writeValue p (.map m) limit).isSome = true := by
  have hpairs := writePairs_eq_some.mpr ⟨hall, rfl⟩
  have hnodup : (((m.map (pairBytes p (limit - 1))).insertionSort pairLe).map Prod.fst).Nodup := by
    have hperm := (List.perm_insertionSort pairLe (m.map (pairBytes p (limit - 1)))).map Prod.fst
    refine hperm.nodup_iff.mpr ?_
    rw [List.map_map]
    exact hkeys
  simp only [writeValue, if_neg (not_lt.mpr hlimit), hpairs, Option.bind_some, joinPairs,
    repeats_of_nodup hnodup, Bool.false_eq_true, if_false, Option.isSome_some]

end Parts

/-! ## A reader -/

def readMany (read : Bytes → Option (Cbor.Value × Bytes)) : Nat → Bytes → Option (List Cbor.Value × Bytes)
  | 0, rest => some ([], rest)
  | n + 1, rest => do
    let (x, rest) ← read rest
    let (xs, rest) ← readMany read n rest
    return (x :: xs, rest)

def readPairs (read : Bytes → Option (Cbor.Value × Bytes)) :
    Nat → Bytes → Option (List (Cbor.Value × Cbor.Value) × Bytes)
  | 0, rest => some ([], rest)
  | n + 1, rest => do
    let (k, rest) ← read rest
    let (x, rest) ← read rest
    let (m, rest) ← readPairs read n rest
    return ((k, x) :: m, rest)

/-- The value behind a head of the given major type; the initial byte tells
the simple values apart. -/
def readBody (read : Bytes → Option (Cbor.Value × Bytes)) (first major : UInt8) (arg : Nat) (rest : Bytes) :
    Option (Cbor.Value × Bytes) :=
  if major == 0 then some (.integer arg, rest)
  else if major == 1 then some (.integer (-1 - arg), rest)
  else if major == 2 then (scanString rest arg).map fun after => (.bytes (rest.take arg), after)
  else if major == 3 then (scanString rest arg).bind fun after =>
    (String.fromUTF8? ⟨(rest.take arg).toArray⟩).map fun s => (.text s, after)
  else if major == 4 then (readMany read arg rest).map fun q => (.array q.1, q.2)
  else if major == 5 then (readPairs read arg rest).map fun q => (.map q.1, q.2)
  else some (if first == 0xf6 then .null else .bool (first == 0xf5), rest)

/-- A reader of definite-length items, with fuel for the bytes. It stands for
the crate in the runs below. -/
def readItem : Nat → Bytes → Option (Cbor.Value × Bytes)
  | 0, _ => none
  | fuel + 1, data => do
    let (major, arg, rest) ← readHead data
    readBody (readItem fuel) (data.headD 0) major arg rest

/-- The value of the first item, as `from_reader` reads it; what follows is left
to the scan. -/
def fromReader (data : Bytes) : Option Cbor.Value := (readItem data.length data).map Prod.fst

theorem fromUTF8_textBytes (s : String) : String.fromUTF8? ⟨(textBytes s).toArray⟩ = some s := by
  have hbytes : (⟨(textBytes s).toArray⟩ : ByteArray) = s.toByteArray := by
    rw [textBytes, Array.toArray_toList]
  rw [hbytes, String.fromUTF8?, dif_pos s.isValidUTF8]
  rfl

theorem readMany_items {read : Bytes → Option (Cbor.Value × Bytes)} {n : Nat}
    (hread : ∀ v b rest, Item v b → b.length ≤ n → read (b ++ rest) = some (v, rest)) {xs : List Cbor.Value} :
    ∀ {b}, Items xs b → b.length ≤ n → ∀ rest, readMany read xs.length (b ++ rest) = some (xs, rest) := by
  induction xs with
  | nil => intro b h _ rest; cases h; rfl
  | cons x xs ih =>
    intro b h hlen rest
    cases h with
    | cons h hs =>
      simp only [List.length_append] at hlen
      rw [List.append_assoc, List.length_cons, readMany, hread _ _ _ h (by omega)]
      simp only [Option.bind_eq_bind, Option.bind_some, ih hs (by omega) rest]
      rfl

theorem readPairs_members {read : Bytes → Option (Cbor.Value × Bytes)} {n : Nat}
    (hread : ∀ v b rest, Item v b → b.length ≤ n → read (b ++ rest) = some (v, rest))
    {m : List (Cbor.Value × Cbor.Value)} :
    ∀ {b}, Members m b → b.length ≤ n → ∀ rest, readPairs read m.length (b ++ rest) = some (m, rest) := by
  induction m with
  | nil => intro b h _ rest; cases h; rfl
  | cons q m ih =>
    intro b h hlen rest
    cases h with
    | cons hk h hs =>
      simp only [List.length_append] at hlen
      rw [List.append_assoc, List.append_assoc, List.length_cons, readPairs, hread _ _ _ hk (by omega)]
      simp only [Option.bind_eq_bind, Option.bind_some, hread _ _ _ h (by omega), ih hs (by omega) rest]
      rfl

/-- The reader reads an item back, whatever follows it. By induction on the
fuel, which the length of the item bounds. -/
theorem readItem_item (fuel : Nat) :
    ∀ v b rest, Item v b → b.length ≤ fuel → readItem fuel (b ++ rest) = some (v, rest) := by
  induction fuel with
  | zero =>
    intro v b rest h hlen
    have := h.length_pos
    omega
  | succ fuel ih =>
    intro v b rest h hlen
    cases h with
    | null => rfl
    | bool c => cases c <;> rfl
    | uint h =>
      rw [readItem, readHead_head (m := 0) (by decide) h]
      rfl
    | nint h =>
      rw [readItem, readHead_head (m := 1) (by decide) h]
      rfl
    | bytes h =>
      rw [readItem, List.append_assoc, readHead_head (m := 2) (by decide) h]
      simp [readBody, scanString]
    | text h =>
      rw [readItem, List.append_assoc, readHead_head (m := 3) (by decide) h]
      simp [readBody, scanString, fromUTF8_textBytes]
    | array h hs =>
      have := h.length_pos
      simp only [List.length_append] at hlen
      rw [readItem, List.append_assoc, readHead_head (m := 4) (by decide) h]
      simp [readBody, readMany_items ih hs (by omega)]
    | map h hs =>
      have := h.length_pos
      simp only [List.length_append] at hlen
      rw [readItem, List.append_assoc, readHead_head (m := 5) (by decide) h]
      simp [readBody, readPairs_members ih hs (by omega)]

theorem fromReader_decodes : Decodes fromReader := by
  intro v b h
  have := readItem_item b.length v b [] h le_rfl
  rw [List.append_nil] at this
  rw [fromReader, this]
  rfl

/-- Values with the same bytes are equal up to the order of members. No parser
is needed for this. -/
theorem arrange_unique {p : Profile} {limit : Int} {v w : Cbor.Value} {b : Bytes} (hb : b.length < 2 ^ 64)
    (h : writeValue p v limit = some b) (h' : writeValue p w limit = some b) : arrange p v = arrange p w := by
  have hv := (writeValue_item v limit b h hb).item
  have hw := (writeValue_item w limit b h' hb).item
  exact Option.some.inj ((fromReader_decodes _ _ hv).symm.trans (fromReader_decodes _ _ hw))

end SwarrmVerify.L1.CborWire
