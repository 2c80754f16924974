import SwarrmVerify.L1Encoding.Reference
import SwarrmVerify.L1Encoding.Written
import SwarrmVerify.L3KeyLog.Receipt

/-!
# Canonical bodies

A body is read, its large integers become floats, and it is written again; only
the bytes that come out the same are accepted. So bytes and body determine each
other, although the parser drops repeated members, accepts other orders, and
the promotion of integers goes one way only.

From bytes to bodies the reason is the last step: a text that is written again
as it was read has sorted names and no repetition, for the writer knows no
others. From bodies to bytes the reason is in the numbers. An integer in the
exact range is not promoted and is read back (`Exact`); one beyond it is
written as a float and read as one.

**Hypotheses.** The parser is `serde_json`: it reads the texts within its
recursion limit, as the grammar has them. The writer's laws are those of
`L1Encoding.Written`.

**Results.**
* `canonicalBody_inj`: accepted bytes are the canonical text of their body, and
  of no other.
* `canonicalBody_text`: accepted bytes have one reading, and their names
  increase, at every level.
* `canonicalBody_written`: the canonical text of a value of exact integers is
  accepted, and read back as that value.
* `canonical_identity`: all of it; members in another order are written alike;
  and two receipts have one hash exactly if they have one body, where the two
  payloads do not collide.
-/
namespace SwarrmVerify.L3.Identity
open SwarrmVerify.L1.Jcs SwarrmVerify.L1.Serde SwarrmVerify.L1.Written SwarrmVerify.L3.Receipt
open JsonText (Text)

/-! ## Exact integers -/

mutual
/-- The numbers are integers that a binary64 holds exactly, and no value lies
below more than `limit` containers. -/
def Exact : Value → Int → Prop
  | .number n, limit => 0 ≤ limit ∧ n.isF64 = false ∧ (integer n).natAbs ≤ 2 ^ 53 - 1
  | .array xs, limit => 0 ≤ limit ∧ ExactItems xs (limit - 1)
  | .object m, limit => 0 ≤ limit ∧ ExactMembers m (limit - 1)
  | _, limit => 0 ≤ limit
def ExactItems : List Value → Int → Prop
  | [], _ => True
  | x :: xs, limit => Exact x limit ∧ ExactItems xs limit
def ExactMembers : List (String × Value) → Int → Prop
  | [], _ => True
  | (_, x) :: m, limit => Exact x limit ∧ ExactMembers m limit
end

theorem exact_safe {n : Number} (hfloat : n.isF64 = false) (h : (integer n).natAbs ≤ 2 ^ 53 - 1) :
    unsafeInteger n = false := by
  cases n with
  | posInt u =>
    have hsize : u.toNat ≤ 2 ^ 53 - 1 := h
    have hlow : -maxSafeInteger ≤ (u.toNat : Int) := by
      rw [maxSafeInteger]
      omega
    have hhigh : (u.toNat : Int) ≤ maxSafeInteger := by
      rw [maxSafeInteger]
      omega
    have hsmall : u.toNat < 2 ^ 63 := by omega
    simp only [unsafeInteger, Number.asI64, Number.asU64, if_pos hsmall, Option.any_some]
    rw [decide_eq_true hlow, decide_eq_true hhigh, decide_eq_false (not_lt.mpr hhigh)]
    rfl
  | negInt i =>
    have hsize : i.toInt.natAbs ≤ 2 ^ 53 - 1 := h
    have hlow : -maxSafeInteger ≤ i.toInt := by
      rw [maxSafeInteger]
      omega
    have hhigh : i.toInt ≤ maxSafeInteger := by
      rw [maxSafeInteger]
      omega
    simp only [unsafeInteger, Number.asI64, Number.asU64, Option.any_some]
    rw [decide_eq_true hlow, decide_eq_true hhigh]
    rfl
  | float f => cases hfloat

mutual
theorem exact_matches {X : Crates} (integersOnly : Bool) : ∀ {v : Value} {limit : Int}, Exact v limit →
    numbersMatch X integersOnly v limit = true
  | .null, _, h | .bool _, _, h | .string _, _, h => decide_eq_true h
  | .number n, limit, ⟨hlimit, hfloat, hsize⟩ => by
    rw [numbersMatch, exact_number hfloat hsize, hfloat, decide_eq_true hlimit]
    simp
  | .array xs, limit, ⟨hlimit, h⟩ => by
    rw [numbersMatch, exact_matchesItems integersOnly h, decide_eq_true hlimit]
    rfl
  | .object m, limit, ⟨hlimit, h⟩ => by
    rw [numbersMatch, exact_matchesMembers integersOnly h, decide_eq_true hlimit]
    rfl
theorem exact_matchesItems {X : Crates} (integersOnly : Bool) : ∀ {xs : List Value} {limit : Int}, ExactItems xs limit →
    numbersMatchItems X integersOnly xs limit = true
  | [], _, _ => rfl
  | x :: xs, limit, ⟨hx, hxs⟩ => by
    rw [numbersMatchItems, exact_matches integersOnly hx, exact_matchesItems integersOnly hxs]
    rfl
theorem exact_matchesMembers {X : Crates} (integersOnly : Bool) : ∀ {m : List (String × Value)} {limit : Int},
    ExactMembers m limit → numbersMatchMembers X integersOnly m limit = true
  | [], _, _ => rfl
  | (k, x) :: m, limit, ⟨hx, hm⟩ => by
    rw [numbersMatchMembers, exact_matches integersOnly hx, exact_matchesMembers integersOnly hm]
    rfl
end

mutual
/-- No exact integer is promoted. -/
theorem exact_promote : ∀ {v : Value} {limit : Int}, Exact v limit → promoteJcsIntegerLexemes v = v
  | .null, _, _ | .bool _, _, _ | .string _, _, _ => rfl
  | .number n, _, ⟨_, hfloat, hsize⟩ => by
    rw [promoteJcsIntegerLexemes, exact_safe hfloat hsize]
    rfl
  | .array xs, _, ⟨_, h⟩ => by rw [promoteJcsIntegerLexemes, exact_promoteItems h]
  | .object m, _, ⟨_, h⟩ => by rw [promoteJcsIntegerLexemes, exact_promoteMembers h]
theorem exact_promoteItems : ∀ {xs : List Value} {limit : Int}, ExactItems xs limit → promoteItems xs = xs
  | [], _, _ => rfl
  | x :: xs, _, ⟨hx, hxs⟩ => by rw [promoteItems, exact_promote hx, exact_promoteItems hxs]
theorem exact_promoteMembers : ∀ {m : List (String × Value)} {limit : Int}, ExactMembers m limit → promoteMembers m = m
  | [], _, _ => rfl
  | (k, x) :: m, _, ⟨hx, hm⟩ => by rw [promoteMembers, exact_promote hx, exact_promoteMembers hm]
end

/-! ## Bodies -/

section

variable {X : Crates} {number : Numbers} (hwrite : Writes X) (hparse : Parses X.fromSlice number Shallow)
  (hnumber : HoldsNumbers number)

theorem canonicalBody_eq_some {raw : Bytes} {body : Value} : canonicalBody X raw = some body ↔
    ∃ v, X.fromSlice raw = some v ∧ promoteJcsIntegerLexemes v = body ∧ canonicalChecked X body = some raw := by
  simp only [canonicalBody, Option.bind_eq_bind, Option.bind_eq_some_iff, Option.ite_none_right_eq_some,
    Option.some.injEq]
  constructor
  · rintro ⟨v, hv, canon, hcanon, rfl, rfl⟩
    exact ⟨v, hv, rfl, hcanon⟩
  · rintro ⟨v, hv, rfl, hcanon⟩
    exact ⟨v, hv, raw, hcanon, rfl, rfl⟩

/-- Accepted bytes are the canonical text of their body, and only of it. -/
theorem canonicalBody_inj {raw raw' : Bytes} {body : Value} (h : canonicalBody X raw = some body)
    (h' : canonicalBody X raw' = some body) : raw = raw' := by
  obtain ⟨v, -, -, hraw⟩ := canonicalBody_eq_some.mp h
  obtain ⟨v', -, -, hraw'⟩ := canonicalBody_eq_some.mp h'
  exact Option.some.inj (hraw.symm.trans hraw')

include hnumber

theorem canonicalChecked_text {v : Value} {a : Bytes} (hwrite : Writes X) (hkeyed : Keyed v)
    (h : canonicalChecked X v = some a) : ∃ d, Documents X number v maxDepth a d ∧ Text d a ∧ Shallow d := by
  obtain ⟨d, hd⟩ := writeValue_doc hwrite hnumber hkeyed h
  have hdepth := hd.depth
  have hnesting := d.nesting_le
  rw [maxDepth] at hdepth
  refine ⟨d, hd, hd.val.text, ?_⟩
  rw [Shallow]
  omega

/-- What is accepted has one reading, and its names increase. -/
theorem canonicalBody_text {raw : Bytes} {body : Value} (hwrite : Writes X)
    (hparse : Parses X.fromSlice number Shallow) (h : canonicalBody X raw = some body) :
    ∃ d, Text d raw ∧ Increasing d ∧ (value number d).map promoteJcsIntegerLexemes = some body := by
  obtain ⟨v, hv, rfl, hraw⟩ := canonicalBody_eq_some.mp h
  obtain ⟨d, htext, -, hvalue⟩ := (hparse raw v).mp hv
  have hkeyed : Keyed (promoteJcsIntegerLexemes v) := by
    rw [value, Option.map_eq_some_iff] at hvalue
    obtain ⟨x, -, rfl⟩ := hvalue
    exact keyed_promote (keyed_collapse x)
  obtain ⟨e, he, htext', -⟩ := canonicalChecked_text hnumber hwrite hkeyed hraw
  obtain rfl := htext.unique htext'
  exact ⟨d, htext, he.increasing, by rw [hvalue, Option.map_some]⟩

theorem canonicalBody_written {v : Value} (hwrite : Writes X) (hparse : Parses X.fromSlice number Shallow)
    (hheld : Held v) (hexact : Exact v maxDepth) : ∃ a, canonicalChecked X v = some a ∧ canonicalBody X a = some v ∧
      ∃ d, Text d a ∧ Increasing d := by
  have hsome : (canonicalChecked X v).isSome = true := by
    rw [canonicalChecked, isSome_writeValue, exact_matches false hexact]
  obtain ⟨a, ha⟩ := Option.isSome_iff_exists.mp hsome
  obtain ⟨d, hd, htext, hshallow⟩ := canonicalChecked_text hnumber hwrite (keyed_held hheld) ha
  have hread : X.fromSlice a = some v :=
    (hparse a v).mpr ⟨d, htext, hshallow, hd.back ⟨hheld, maxDepth, exact_matches true hexact⟩⟩
  exact ⟨a, ha, canonicalBody_eq_some.mpr ⟨v, hread, exact_promote hexact, ha⟩, d, htext, hd.increasing⟩

/-- Canonical bytes and values determine each other. A value of exact integers
is written in one way whatever the order of its members, no other such value is
written so, and it is read back. Bytes that are accepted as a body have one
reading, in which no object repeats a name, and no other bytes are accepted for
the same body; so the hash of a receipt identifies its body. -/
theorem canonical_identity (hwrite : Writes X) (hparse : Parses X.fromSlice number Shallow) :
    (∀ v, Held v → Exact v maxDepth → ∃ a, canonicalChecked X v = some a ∧ canonicalBody X a = some v ∧
      (∃ d, Text d a ∧ (∀ e, Text e a → e = d) ∧ Increasing d) ∧
      (∀ w, Shuffled v w → canonicalChecked X w = some a) ∧
      ∀ w, Held w → Exact w maxDepth → canonicalChecked X w = some a → v = w) ∧
    (∀ raw body, canonicalBody X raw = some body →
      (∃ d, Text d raw ∧ (∀ e, Text e raw → e = d) ∧ d.Distinct ∧
        (value number d).map promoteJcsIntegerLexemes = some body) ∧
      ∀ raw', canonicalBody X raw' = some body → raw' = raw) ∧
    ∀ env env' raw raw' body body', payloadOf X env = some raw → payloadOf X env' = some raw' →
      canonicalBody X raw = some body → canonicalBody X raw' = some body' → CollisionFree X [raw, raw'] →
      (receiptHashHex X env = receiptHashHex X env' ↔ body = body') := by
  refine ⟨fun v hheld hexact => ?_, fun raw body h => ?_, fun env env' raw raw' body body' hraw hraw' h h' hfree => ?_⟩
  · obtain ⟨a, ha, hbody, d, htext, hincreasing⟩ := canonicalBody_written hnumber hwrite hparse hheld hexact
    refine ⟨a, ha, hbody, ⟨d, htext, fun e he => he.unique htext, hincreasing⟩, fun w hw => ?_,
      fun w hheld' hexact' hw => ?_⟩
    · rw [canonicalChecked, ← writeValue_shuffled hw]
      exact ha
    · exact writeValue_inj hwrite.laws ⟨hheld, maxDepth, exact_matches true hexact⟩
        ⟨hheld', maxDepth, exact_matches true hexact'⟩ ha hw
  · obtain ⟨d, htext, hincreasing, hvalue⟩ := canonicalBody_text hnumber hwrite hparse h
    exact ⟨⟨d, htext, fun e he => he.unique htext, hincreasing.distinct, hvalue⟩,
      fun raw' h' => canonicalBody_inj h' h⟩
  · rw [receiptHashHex, receiptHashHex, hraw, hraw', Option.map_some, Option.map_some, Option.some.injEq]
    constructor
    · intro hhash
      have hdigest : X.sha256 raw = X.sha256 raw' := Subtype.ext (hex_inj hhash)
      obtain rfl := hfree raw (by simp) raw' (by simp) hdigest
      exact Option.some.inj (h.symm.trans h')
    · rintro rfl
      rw [canonicalBody_inj h h']

end

/-! ## Crates that meet the laws -/

theorem codeUnit_control : ∀ n < 32, JsonText.codeUnit [48, 48, 48 + UInt8.ofNat n / 16,
    if UInt8.ofNat n % 16 < 10 then 48 + UInt8.ofNat n % 16 else 87 + UInt8.ofNat n % 16] = some n := by decide

theorem piece_escapeControl {b : UInt8} (hlow : b < 32) : JsonText.Piece [b] (L1.Reference.escapeControl b) := by
  unfold L1.Reference.escapeControl
  split
  · rename_i h
    subst h
    exact .escape rfl
  split
  · rename_i h
    subst h
    exact .escape rfl
  split
  · rename_i h
    subst h
    exact .escape rfl
  split
  · rename_i h
    subst h
    exact .escape rfl
  split
  · rename_i h
    subst h
    exact .escape rfl
  have hsmall := UInt8.lt_iff_toNat_lt.mp hlow
  have hunit := codeUnit_control b.toNat hsmall
  rw [UInt8.ofNat_toNat] at hunit
  have hsurrogate : JsonText.surrogate b.toNat = false := by
    have : b.toNat < 0xd800 := lt_trans hsmall (by decide)
    simp [JsonText.surrogate]
    omega
  have hpiece := JsonText.Piece.unit hunit hsurrogate
  rw [JsonText.encoded, Octets.utf8EncodeChar_ascii _ (lt_trans hsmall (by decide)), UInt8.ofNat_toNat] at hpiece
  exact hpiece

/-- The writer's escapes are those of the grammar. -/
theorem piece_escape (b : UInt8) : JsonText.Piece [b] (L1.Reference.escape b) := by
  unfold L1.Reference.escape
  split
  · rename_i hlow
    exact piece_escapeControl hlow
  rename_i hlow
  split
  · rename_i h
    subst h
    exact .escape rfl
  rename_i hq
  split
  · rename_i h
    subst h
    exact .escape rfl
  · rename_i hs
    exact .plain (UInt8.not_lt.mp hlow) hq hs

theorem pieces_escape (u : Bytes) : JsonText.Pieces u (u.flatMap L1.Reference.escape) := by
  induction u with
  | nil => exact .nil
  | cons b u ih =>
    rw [List.flatMap_cons]
    exact .cons (piece_escape b) ih

/-- Crates that read what they write. -/
def readingCrates : Crates := { L1.Reference.blank with fromSlice := reader held Shallow }

theorem readingCrates_writes : Writes readingCrates where
  string s := ⟨_, pieces_escape (utf8 s), rfl⟩
  finite f _ := by
    constructor
    · exact numeral_repr 0
    · show (69 : UInt8) ∉ [48]
      decide

/-- Both orders of two members are written in one way, which is read back. -/
theorem canonical_identity_pair : ∃ a,
    canonicalChecked readingCrates (.object [("a", .number (.posInt 1)), ("b", .null)]) = some a ∧
    canonicalChecked readingCrates (.object [("b", .null), ("a", .number (.posInt 1))]) = some a ∧
    canonicalBody readingCrates a = some (.object [("a", .number (.posInt 1)), ("b", .null)]) := by
  obtain ⟨hvalues, -, -⟩ := @canonical_identity readingCrates held held_numbers readingCrates_writes
    (reader_parses held Shallow)
  have hheld : Held (.object [("a", .number (.posInt 1)), ("b", .null)]) := by
    have hlt : "a" < "b" := by decide
    exact ⟨List.pairwise_pair.mpr hlt, trivial, trivial, trivial⟩
  have hexact : Exact (.object [("a", .number (.posInt 1)), ("b", .null)]) maxDepth := by
    simp [Exact, ExactMembers, maxDepth, Number.isF64, integer]
  obtain ⟨a, ha, hbody, -, hshuffled, -⟩ := hvalues _ hheld hexact
  exact ⟨a, ha, hshuffled _ (.members (by decide) (.swap _ _ [])), hbody⟩

end SwarrmVerify.L3.Identity
