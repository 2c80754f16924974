import SwarrmVerify.Core.SortedMap
import SwarrmVerify.L1Encoding.Jcs

/-!
# One value for one canonical text

A canonical text without floats was written from one value only, among those
that `serde_json` can hold. Both provisos are needed. A float may read like an
integer: `1.0` is written as `1`. And members come sorted, so that an object
that could repeat a name or list its names in two orders would share its text
with another.

`Held` is what a `serde_json::Value` promises: a negative integer is negative,
a float is finite, and the members of an object stand in the increasing order
of their names, each name once. `Integral` adds that there is no float.

The induction is on the value. The first byte of a text says which kind of
value was written (`writeValue_kind`), a number is told by its digits
(`integer_inj`), and a container by its items in turn, each of which ends by
itself.

**Results.**
* `writeValue_inj`: integral values with one canonical text are the same,
  whatever the limits of depth under which they were written. The crates obey
  `WriterLaws`: a written string is read back from the front of any text.
* `canonical_nul_free`: no canonical text holds a NUL, since `serde_json`
  escapes control characters (`Escaped`).
-/
namespace SwarrmVerify.L1.Jcs

/-! ## Values that are held -/

/-- `NegInt` is negative and `Float` is finite: what the constructors of the
crate guarantee. -/
def heldNumber : Number → Prop
  | .posInt _ => True
  | .negInt i => i.toInt < 0
  | .float f => f.isFinite = true

mutual
/-- A `serde_json::Value`: the members of an object stand in increasing order
of their names, each name once. -/
def Held : Value → Prop
  | .number n => heldNumber n
  | .array xs => HeldItems xs
  | .object m => SortedMap.Sorted m ∧ HeldMembers m
  | _ => True
def HeldItems : List Value → Prop
  | [] => True
  | x :: xs => Held x ∧ HeldItems xs
def HeldMembers : List (String × Value) → Prop
  | [] => True
  | (_, x) :: m => Held x ∧ HeldMembers m
end

theorem heldItems_iff {xs : List Value} : HeldItems xs ↔ ∀ x ∈ xs, Held x := by
  induction xs with
  | nil => simp [HeldItems]
  | cons x xs ih => rw [HeldItems, ih, List.forall_mem_cons]

theorem heldMembers_iff {m : List (String × Value)} : HeldMembers m ↔ ∀ e ∈ m, Held e.2 := by
  induction m with
  | nil => simp [HeldMembers]
  | cons e m ih => rw [HeldMembers, ih, List.forall_mem_cons]

/-- What is left of an object by leaving members out is held too, so what a
signature covers is held. -/
theorem held_filter {m : List (String × Value)} (p : String × Value → Bool) (h : Held (.object m)) :
    Held (.object (m.filter p)) := by
  rw [Held, heldMembers_iff] at h ⊢
  refine ⟨h.1.sublist List.filter_sublist, fun e he => ?_⟩
  exact h.2 e (List.mem_of_mem_filter he)

/-- A held value without floats, within some depth: what the gates let
through. -/
structure Integral (X : Crates) (v : Value) : Prop where
  held : Held v
  integers : ∃ limit, numbersMatch X true v limit = true

theorem numbersMatchItems_mem {X : Crates} {io : Bool} {xs : List Value} {limit : Int}
    (h : numbersMatchItems X io xs limit = true) : ∀ x ∈ xs, numbersMatch X io x limit = true := by
  induction xs with
  | nil => simp
  | cons x xs ih =>
    rw [numbersMatchItems, Bool.and_eq_true] at h
    rw [List.forall_mem_cons]
    exact ⟨h.1, ih h.2⟩

theorem numbersMatchMembers_mem {X : Crates} {io : Bool} {m : List (String × Value)} {limit : Int}
    (h : numbersMatchMembers X io m limit = true) : ∀ e ∈ m, numbersMatch X io e.2 limit = true := by
  induction m with
  | nil => simp
  | cons e m ih =>
    rw [numbersMatchMembers, Bool.and_eq_true] at h
    rw [List.forall_mem_cons]
    exact ⟨h.1, ih h.2⟩

theorem Integral.number {X : Crates} {n : Number} (h : Integral X (.number n)) : heldNumber n ∧ n.isF64 = false := by
  obtain ⟨limit, hmatch⟩ := h.integers
  rw [numbersMatch, Bool.and_eq_true, Bool.and_eq_true] at hmatch
  exact ⟨h.held, by simpa using hmatch.1.2⟩

theorem Integral.items {X : Crates} {xs : List Value} (h : Integral X (.array xs)) : ∀ x ∈ xs, Integral X x := by
  obtain ⟨limit, hmatch⟩ := h.integers
  rw [numbersMatch, Bool.and_eq_true] at hmatch
  intro x hx
  exact ⟨heldItems_iff.mp h.held x hx, limit - 1, numbersMatchItems_mem hmatch.2 x hx⟩

theorem Integral.members {X : Crates} {m : List (String × Value)} (h : Integral X (.object m)) :
    SortedMap.Sorted m ∧ ∀ e ∈ m, Integral X e.2 := by
  obtain ⟨limit, hmatch⟩ := h.integers
  rw [numbersMatch, Bool.and_eq_true] at hmatch
  obtain ⟨hsorted, hheld⟩ := h.held
  refine ⟨hsorted, fun e he => ?_⟩
  exact ⟨heldMembers_iff.mp hheld e he, limit - 1, numbersMatchMembers_mem hmatch.2 e he⟩

/-! ## The kind of a text -/

inductive Kind where
  | null | bool | number | string | array | object
  deriving DecidableEq

def kind : Value → Kind
  | .null => .null
  | .bool _ => .bool
  | .number _ => .number
  | .string _ => .string
  | .array _ => .array
  | .object _ => .object

/-- What the first byte of a text says of the value it was written from. -/
def kindOf (b : UInt8) : Kind :=
  if b = 110 then .null else if b = 116 ∨ b = 102 then .bool else if b = 34 then .string
  else if b = 91 then .array else if b = 123 then .object else .number

theorem kindOf_number {b : UInt8} (h : 48 ≤ b ∧ b ≤ 57 ∨ b = 45) : kindOf b = .number := by
  rcases h with ⟨hlow, hhigh⟩ | rfl
  · have hne : ∀ c : UInt8, ¬(48 ≤ c ∧ c ≤ 57) → b ≠ c := fun c hc he => hc (he ▸ ⟨hlow, hhigh⟩)
    simp [kindOf, hne]
  · rfl

theorem writeValue_kind {X : Crates} (hX : WriterLaws X) {v : Value} {l : Int} {a : Bytes}
    (h : writeValue X v l = some a) : a.head?.map kindOf = some (kind v) := by
  cases v with
  | null =>
    simp only [writeValue] at h
    split at h
    · cases h
    · cases h
      rfl
  | bool b =>
    simp only [writeValue] at h
    split at h
    · cases h
    · cases h
      cases b <;> rfl
  | number n =>
    simp only [writeValue] at h
    split at h
    · cases h
    · obtain ⟨t, ht, rfl⟩ := Option.map_eq_some_iff.mp h
      obtain ⟨b, r, hb, hdigit⟩ := (numberText_bytes hX ht).1
      rw [hb, List.head?_cons, Option.map_some, kindOf_number hdigit]
      rfl
  | string s =>
    simp only [writeValue] at h
    split at h
    · cases h
    · cases h
      obtain ⟨r, hr⟩ := hX.quote s
      rw [hr]
      rfl
  | array xs =>
    simp only [writeValue] at h
    split at h
    · cases h
    · obtain ⟨bs, -, rfl⟩ := Option.map_eq_some_iff.mp h
      rfl
  | object m =>
    simp only [writeValue] at h
    split at h
    · cases h
    · obtain ⟨ms, -, rfl⟩ := Option.map_eq_some_iff.mp h
      rfl

theorem kind_eq {X : Crates} (hX : WriterLaws X) {v w : Value} {l l' : Int} {a : Bytes}
    (h : writeValue X v l = some a) (h' : writeValue X w l' = some a) : kind v = kind w := by
  have hkind := writeValue_kind hX h
  rw [writeValue_kind hX h', Option.some.injEq] at hkind
  exact hkind.symm

/-! ## Integers -/

/-- The value of a number that is no float, whichever of the two types it is
in. -/
def integer : Number → Int
  | .posInt u => u.toNat
  | .negInt i => i.toInt
  | .float _ => 0

theorem numberText_integer {X : Crates} {n : Number} {t : String} (hn : n.isF64 = false)
    (h : numberText X n = some t) : t = Int.repr (integer n) := by
  cases n with
  | posInt u => exact numberText_posInt h
  | negInt i =>
    simp only [numberText, Number.asI64] at h
    split at h
    · cases h
      rfl
    · cases h
  | float f => cases hn

/-- An exact integer has a text; it is only outside the range that the writer
refuses. -/
theorem exact_number {X : Crates} {n : Number} (hfloat : n.isF64 = false) (h : (integer n).natAbs ≤ 2 ^ 53 - 1) :
    (numberText X n).isSome = true := by
  cases n with
  | posInt u =>
    have hsize : u.toNat ≤ 2 ^ 53 - 1 := h
    have hrange : -maxSafeInteger ≤ (u.toNat : Int) ∧ (u.toNat : Int) ≤ maxSafeInteger := by
      rw [maxSafeInteger]
      omega
    have hsmall : u.toNat < 2 ^ 63 := by omega
    simp only [numberText, Number.asI64, if_pos hsmall]
    rw [if_pos hrange, Option.isSome_some]
  | negInt i =>
    have hsize : i.toInt.natAbs ≤ 2 ^ 53 - 1 := h
    have hrange : -maxSafeInteger ≤ i.toInt ∧ i.toInt ≤ maxSafeInteger := by
      rw [maxSafeInteger]
      omega
    simp only [numberText, Number.asI64]
    rw [if_pos hrange, Option.isSome_some]
  | float f => cases hfloat

theorem integer_inj {n m : Number} (hn : heldNumber n) (hm : heldNumber m) (hn' : n.isF64 = false)
    (hm' : m.isF64 = false) (h : integer n = integer m) : n = m := by
  cases n with
  | posInt u =>
    cases m with
    | posInt w => rw [UInt64.toNat_inj.mp (Int.ofNat.inj h)]
    | negInt j =>
      have hneg : j.toInt < 0 := hm
      simp only [integer] at h
      omega
    | float f => cases hm'
  | negInt i =>
    cases m with
    | posInt w =>
      have hneg : i.toInt < 0 := hn
      simp only [integer] at h
      omega
    | negInt j => rw [Int64.toInt_inj.mp h]
    | float f => cases hm'
  | float f => cases hn'

/-! ## Texts of values -/

/-- Only the value itself is written as it is, at whatever depth either was
written. -/
def Determined (X : Crates) (v : Value) : Prop :=
  ∀ w l l' a, Integral X v → Integral X w → writeValue X v l = some a → writeValue X w l' = some a → v = w

theorem items_unique {X : Crates} {l l' : Int} : ∀ {xs ys : List Value} {bs : List Bytes},
    (∀ x ∈ xs, Determined X x ∧ Integral X x) → (∀ y ∈ ys, Integral X y) →
      writeItems X xs l = some bs → writeItems X ys l' = some bs → xs = ys
  | [], [], _, _, _, _, _ => rfl
  | [], y :: ys, _, _, _, h, h' => by
    simp only [writeItems, Option.bind_eq_bind, Option.bind_eq_some_iff, Option.pure_def,
      Option.some.injEq] at h h'
    obtain ⟨c, -, cs, -, rfl⟩ := h'
    cases h
  | x :: xs, [], _, _, _, h, h' => by
    simp only [writeItems, Option.bind_eq_bind, Option.bind_eq_some_iff, Option.pure_def,
      Option.some.injEq] at h h'
    obtain ⟨c, -, cs, -, rfl⟩ := h
    cases h'
  | x :: xs, y :: ys, _, hx, hy, h, h' => by
    simp only [writeItems, Option.bind_eq_bind, Option.bind_eq_some_iff, Option.pure_def,
      Option.some.injEq] at h h'
    obtain ⟨c, hc, cs, hcs, rfl⟩ := h
    obtain ⟨d, hd, ds, hds, he⟩ := h'
    obtain ⟨rfl, rfl⟩ := List.cons.inj he
    rw [List.forall_mem_cons] at hx hy
    rw [hx.1.1 y l l' d hx.1.2 hy.1 hc hd, items_unique hx.2 hy.2 hcs hds]

/-- Sorted members with the same texts are the same, names and values alike. -/
theorem members_unique {X : Crates} {l l' : Int} {m m' : List (String × Value)} {ms ms' : List (String × Bytes)}
    (hm : SortedMap.Sorted m) (hm' : SortedMap.Sorted m') (hx : ∀ e ∈ m, Determined X e.2 ∧ Integral X e.2)
    (hy : ∀ e ∈ m', Integral X e.2) (h : writeMembers X m l = some ms) (h' : writeMembers X m' l' = some ms')
    (he : sortMembers ms = sortMembers ms') : m = m' := by
  refine SortedMap.ext_of_sorted hm hm' fun k => ?_
  have htexts : (m.lookup k).bind (fun v => writeValue X v l) = (m'.lookup k).bind fun v => writeValue X v l' := by
    rw [← writeMembers_lookup h, ← writeMembers_lookup h', ← lookup_sortMembers, he, lookup_sortMembers]
  cases hv : m.lookup k with
  | none =>
    cases hw : m'.lookup k with
    | none => rfl
    | some w =>
      obtain ⟨t, ht⟩ := writeMembers_writes h' hw
      rw [hv, hw, Option.bind_some, ht] at htexts
      cases htexts
  | some v =>
    obtain ⟨t, ht⟩ := writeMembers_writes h hv
    rw [hv, Option.bind_some, ht] at htexts
    obtain ⟨w, hw, ht'⟩ := Option.bind_eq_some_iff.mp htexts.symm
    obtain ⟨hdet, hint⟩ := hx (k, v) (hm.lookup_iff.mp hv)
    have hvw : v = w := hdet w l l' t hint (hy (k, w) (hm'.lookup_iff.mp hw)) ht ht'
    rw [hw, hvw]

mutual
/-- The induction is on the value; a text with the same first byte was written
from a value of the same kind. -/
theorem determined {X : Crates} (hX : WriterLaws X) : ∀ v, Determined X v
  | .null => fun w l l' a _ _ h h' => by
    have hkind := kind_eq hX h h'
    cases w with
    | null => rfl
    | _ => cases hkind
  | .bool b => fun w l l' a _ _ h h' => by
    have hkind := kind_eq hX h h'
    cases w with
    | bool c =>
      simp only [writeValue] at h h'
      split at h
      · cases h
      · split at h'
        · cases h'
        · rw [← h', Option.some.injEq] at h
          have hword := utf8_inj h
          cases b <;> cases c <;> first | rfl | exact absurd hword (by decide)
    | _ => cases hkind
  | .number n => fun w l l' a hv hw h h' => by
    have hkind := kind_eq hX h h'
    cases w with
    | number m =>
      simp only [writeValue] at h h'
      split at h
      · cases h
      · split at h'
        · cases h'
        · obtain ⟨t, ht, rfl⟩ := Option.map_eq_some_iff.mp h
          obtain ⟨t', ht', he⟩ := Option.map_eq_some_iff.mp h'
          obtain ⟨hn, hn'⟩ := hv.number
          obtain ⟨hm, hm'⟩ := hw.number
          have htext := utf8_inj he
          rw [numberText_integer hn' ht, numberText_integer hm' ht'] at htext
          rw [integer_inj hn hm hn' hm' (Int.repr_injective htext.symm)]
    | _ => cases hkind
  | .string s => fun w l l' a _ _ h h' => by
    simp only [writeValue] at h
    split at h
    · cases h
    · cases h
      exact (writeValue_eq_str hX h').symm
  | .array xs => fun w l l' a hv hw h h' => by
    have hkind := kind_eq hX h h'
    cases w with
    | array ys =>
      simp only [writeValue] at h h'
      split at h
      · cases h
      · split at h'
        · cases h'
        · obtain ⟨bs, hbs, rfl⟩ := Option.map_eq_some_iff.mp h
          obtain ⟨cs, hcs, he⟩ := Option.map_eq_some_iff.mp h'
          have hitems := writeItems_item hX ys _ cs hcs
          obtain ⟨rfl, -⟩ := array_delim hX (fun b hb => ⟨hitems b hb, item_delim hX (hitems b hb)⟩)
            (writeItems_item hX xs _ bs hbs) (List.cons.inj he).2
          rw [items_unique (fun x hx => ⟨determined_items hX xs x hx, hv.items x hx⟩) hw.items hbs hcs]
    | _ => cases hkind
  | .object m => fun w l l' a hv hw h h' => by
    have hkind := kind_eq hX h h'
    cases w with
    | object m' =>
      simp only [writeValue] at h h'
      split at h
      · cases h
      · split at h'
        · cases h'
        · obtain ⟨ms, hms, rfl⟩ := Option.map_eq_some_iff.mp h
          obtain ⟨ms', hms', he⟩ := Option.map_eq_some_iff.mp h'
          obtain ⟨hsorted, hints⟩ := hv.members
          obtain ⟨hsorted', hints'⟩ := hw.members
          rw [members_unique hsorted hsorted' (fun e he => ⟨determined_members hX m e he, hints e he⟩) hints' hms hms'
            (sorted_delim hX hms hms' (List.cons.inj he).2.symm)]
    | _ => cases hkind
theorem determined_items {X : Crates} (hX : WriterLaws X) : ∀ xs : List Value, ∀ x ∈ xs, Determined X x
  | [], _, hx => by cases hx
  | y :: ys, x, hx => by
    rcases List.mem_cons.mp hx with hx | hx
    · rw [hx]
      exact determined hX y
    · exact determined_items hX ys x hx
theorem determined_members {X : Crates} (hX : WriterLaws X) :
    ∀ m : List (String × Value), ∀ e ∈ m, Determined X e.2
  | [], _, he => by cases he
  | (k, v) :: m, e, he => by
    rcases List.mem_cons.mp he with he | he
    · rw [he]
      exact determined hX v
    · exact determined_members hX m e he
end

/-- Two values without floats that have one canonical text are the same. Floats
are left out because a float and an integer may share a text. -/
theorem writeValue_inj {X : Crates} (hX : WriterLaws X) {v w : Value} {l l' : Int} {a : Bytes} (hv : Integral X v)
    (hw : Integral X w) (h : writeValue X v l = some a) (h' : writeValue X w l' = some a) : v = w :=
  determined hX v w l l' a hv hw h h'

/-! ## Bytes of a text -/

/-- `serde_json` escapes control characters, so that a written string holds no
NUL. -/
def Escaped (X : Crates) : Prop := ∀ s, (0 : UInt8) ∉ X.writeStr s

theorem mem_joinComma {b : UInt8} : ∀ {bs : List Bytes}, b ∈ joinComma bs → b = 44 ∨ ∃ t ∈ bs, b ∈ t
  | [], h => by cases h
  | [t], h => .inr ⟨t, List.mem_singleton_self t, h⟩
  | t :: u :: ts, h => by
    have hjoin : joinComma (t :: u :: ts) = t ++ 44 :: joinComma (u :: ts) := rfl
    rw [hjoin, List.mem_append, List.mem_cons] at h
    rcases h with h | h | h
    · exact .inr ⟨t, List.mem_cons_self, h⟩
    · exact .inl h
    · rcases mem_joinComma h with h | ⟨s, hs, h⟩
      · exact .inl h
      · exact .inr ⟨s, List.mem_cons_of_mem t hs, h⟩

theorem item_nul_free {X : Crates} (hE : Escaped X) {a : Bytes} (ha : Item X a) : (0 : UInt8) ∉ a := by
  induction ha with
  | lit w hw =>
    simp only [List.mem_cons, List.not_mem_nil, or_false] at hw
    rcases hw with rfl | rfl | rfl
    · rw [utf8_null]
      decide
    · rw [utf8_true]
      decide
    · rw [utf8_false]
      decide
  | str s => exact hE s
  | num t ht =>
    intro hmem
    have hbyte := ht.2 0 hmem
    cases hbyte
  | arr bs hbs ih =>
    intro hmem
    simp only [List.mem_cons, List.mem_append, List.not_mem_nil, or_false] at hmem
    rcases hmem with h | h | h
    · cases h
    · rcases mem_joinComma h with h | ⟨t, ht, h⟩
      · cases h
      · exact ih t ht h
    · cases h
  | obj ms hms ih =>
    intro hmem
    simp only [List.mem_cons, List.mem_append, List.not_mem_nil, or_false] at hmem
    rcases hmem with h | h | h
    · cases h
    · rcases mem_joinComma h with h | ⟨t, ht, h⟩
      · cases h
      · obtain ⟨m, hm, rfl⟩ := List.mem_map.mp ht
        rw [memberText, List.mem_append, List.mem_cons] at h
        rcases h with h | h | h
        · exact hE m.1 h
        · cases h
        · exact ih m hm h
    · cases h

theorem canonical_nul_free {X : Crates} (hX : WriterLaws X) (hE : Escaped X) {v : Value} {a : Bytes}
    (h : canonicalChecked X v = some a) : (0 : UInt8) ∉ a :=
  item_nul_free hE (writeValue_item hX v maxDepth a h)

end SwarrmVerify.L1.Jcs
