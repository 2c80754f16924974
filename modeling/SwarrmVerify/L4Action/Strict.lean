import SwarrmVerify.L1Encoding.Stamps
import SwarrmVerify.L1Encoding.Written
import SwarrmVerify.L4Action.Anchors
import SwarrmVerify.L4Bundle.Bundle

/-!
# Strict JSON

`strict_json` (`verify-rs/src/lib.rs`) is three readers of one text. A byte
loop finds the number tokens before the parser reads them and bounds their
length and their integers; the parser's visitor refuses a repeated member,
where a map would keep the last one; and the value must not be nested too
deeply. Taken one by one they say little: on bytes that are no JSON the loop
splits tokens that no parser would see. Here all three are run along the
grammar of JSON texts, and together they accept the texts that `Accepted`
describes.

**Hypotheses.** The engine's reader visits as `serde_json` does (`Visits`): it
accepts the texts of the grammar within its recursion limit, and hands the
visitor the members in their order. `HoldsNumbers`: an integral numeral in
range is held as that integer. The writer's laws are those of
`L1Encoding.Written`.

**Results.**
* `bounded_text`: on a text the byte loop passes exactly if each number token
  of its document passes the check of tokens, and `passes_iff` says which do.
* `strict_tree`: the visitor makes the value of a document whose objects repeat
  no name, and fails on any other.
* `accepted_written`: an accepted value is within the numeric profile and has a
  canonical text.
* `strict_exact`: `strict_json` accepts exactly the texts of accepted
  documents, returns their values, and each of them can be written, so that the
  browser's entry point reports the digest of the canonical bytes.
-/
namespace SwarrmVerify.L4.Strict
open SwarrmVerify.L1.Jcs SwarrmVerify.L1.Serde SwarrmVerify.L1.Written SwarrmVerify.L4.Action
open SwarrmVerify.L4.Bundle (BundleFacts verifyBundleFacts)
open JsonText (Doc Text Val Items Members Piece Pieces Quoted Space numeral magnitude Finite64)

/-! ## The byte loop -/

/-- The loop from a state on: whether every token from here on passes. -/
def bounded (l : Lexer) (r : Bytes) : Bool :=
  (r.foldlM lexStep l).any fun l => !l.inString && l.token.all jsonNumberTokenOk

theorem bounded_cons (l : Lexer) (b : UInt8) (r : Bytes) :
    bounded l (b :: r) = (lexStep l b).any fun l' => bounded l' r := by
  rw [bounded, List.foldlM_cons]
  cases lexStep l b with
  | none => rfl
  | some l' => rfl

/-- The state inside a string, not behind a backslash. -/
def within : Lexer := { inString := true }

theorem bounded_plain {b : UInt8} (hq : b ≠ 34) (hs : b ≠ 92) (r : Bytes) : bounded within (b :: r) = bounded within r := by
  have hstep : lexStep within b = some within := by
    simp [lexStep, within, hq, hs]
  rw [bounded_cons, hstep, Option.any_some]

theorem bounded_escape (b c : UInt8) (r : Bytes) (hb : b = 92) : bounded within (b :: c :: r) = bounded within r := by
  subst hb
  rw [bounded_cons]
  have hstep : lexStep within 92 = some { inString := true, escaped := true } := rfl
  rw [hstep, Option.any_some, bounded_cons]
  rfl

theorem bounded_run {q : Bytes} (h : ∀ b ∈ q, b ≠ 34 ∧ b ≠ 92) (r : Bytes) :
    bounded within (q ++ r) = bounded within r := by
  induction q with
  | nil => rfl
  | cons b q ih =>
    rw [List.forall_mem_cons] at h
    rw [List.cons_append, bounded_plain h.1.1 h.1.2, ih h.2]

theorem bounded_piece {u t : Bytes} (h : Piece u t) (r : Bytes) : bounded within (t ++ r) = bounded within r := by
  cases h with
  | plain h hq hs => exact bounded_plain hq hs r
  | escape h => exact bounded_escape _ _ r rfl
  | unit hq h =>
    rw [List.cons_append, List.cons_append, bounded_escape _ _ _ rfl, bounded_run (JsonText.codeUnit_plain hq)]
  | pair hq hr hm hm' hn hn' =>
    rw [List.cons_append, List.cons_append, bounded_escape _ _ _ rfl, List.append_assoc,
      bounded_run (JsonText.codeUnit_plain hq), List.cons_append, List.cons_append, bounded_escape _ _ _ rfl,
      bounded_run (JsonText.codeUnit_plain hr)]

theorem bounded_pieces {us ts : Bytes} (h : Pieces us ts) (r : Bytes) :
    bounded within (ts ++ r) = bounded within r := by
  induction h with
  | nil => rfl
  | cons h hs ih => rw [List.append_assoc, bounded_piece h, ih]

/-- A string is passed over, whatever it holds: digits inside a string are no
number. -/
theorem bounded_quoted {s : String} {b : Bytes} (h : Quoted s b) (r : Bytes) : bounded {} (b ++ r) = bounded {} r := by
  obtain ⟨t, ht, rfl⟩ := h
  rw [List.cons_append, bounded_cons, List.append_assoc]
  exact bounded_pieces ht (34 :: r)

/-- A byte that is neither in a string nor in a number. -/
theorem bounded_delimiter {c : UInt8} (hc : lexStart c = {}) (r : Bytes) : bounded {} (c :: r) = bounded {} r := by
  rw [bounded_cons]
  show (some (lexStart c)).any _ = _
  rw [hc, Option.any_some]

theorem bounded_space {w : Bytes} (hw : Space w) (r : Bytes) : bounded {} (w ++ r) = bounded {} r := by
  induction w with
  | nil => rfl
  | cons b w ih =>
    have hb := hw b List.mem_cons_self
    simp only [JsonText.isSpace, Bool.or_eq_true, beq_iff_eq] at hb
    rw [List.cons_append, bounded_delimiter, ih fun c hc => hw c (List.mem_cons_of_mem b hc)]
    rcases hb with ((rfl | rfl) | rfl) | rfl <;> rfl

theorem numberTokenByte_eq (b : UInt8) : numberTokenByte b = JsonText.numberByte b := by
  simp only [numberTokenByte, JsonText.numberByte, JsonText.digit, asciiDigit]
  ac_rfl

/-- The token grows by number bytes. -/
theorem foldlM_token {ts : Bytes} (h : ∀ b ∈ ts, JsonText.numberByte b = true) (t : Bytes) :
    ts.foldlM lexStep { token := some t } = some { token := some (t ++ ts) } := by
  induction ts generalizing t with
  | nil => rw [List.append_nil]; rfl
  | cons b ts ih =>
    rw [List.forall_mem_cons] at h
    have hstep : lexStep { token := some t } b = some { token := some (t ++ [b]) } := by
      simp [lexStep, numberTokenByte_eq, h.1]
    rw [List.foldlM_cons, hstep]
    exact (ih h.2 (t ++ [b])).trans (by rw [List.append_assoc]; rfl)

/-- A number token is checked where it ends, which is at the first byte that
belongs to no number; the end of the text ends it as well. -/
theorem bounded_number {t : Bytes} (h : numeral t = true) {r : Bytes} (hr : JsonText.Ends r) :
    bounded {} (t ++ r) = (jsonNumberTokenOk t && bounded {} r) := by
  obtain ⟨⟨b, ts, rfl, hb⟩, hall⟩ := JsonText.numeral_bytes h
  rw [List.forall_mem_cons] at hall
  have hstart : lexStep {} b = some { token := some [b] } := by
    have hne : b ≠ 34 := by
      rintro rfl
      exact absurd hall.1 (by decide)
    have hdigit : (b == 45 || asciiDigit b) = true := by
      rcases hb with hb | rfl
      · rw [Bool.or_eq_true]
        exact .inr hb
      · rfl
    simp only [lexStep, lexStart, beq_iff_eq, hne, if_false, hdigit, if_true, Bool.false_eq_true]
  have hfold : (b :: ts).foldlM lexStep {} = some { token := some (b :: ts) } := by
    rw [List.foldlM_cons, hstart]
    exact foldlM_token hall.2 [b]
  rw [bounded, List.foldlM_append, hfold]
  cases r with
  | nil => simp [bounded]
  | cons c r =>
    have hc : numberTokenByte c = false := by rw [numberTokenByte_eq]; exact hr c rfl
    rw [bounded_cons]
    show ((c :: r).foldlM lexStep { token := some (b :: ts) }).any _ = _
    rw [List.foldlM_cons]
    cases hok : jsonNumberTokenOk (b :: ts) with
    | true => simp [lexStep, hc, hok, bounded]
    | false => simp [lexStep, hc, hok]

/-- The token passes its check. -/
abbrev Passes (t : Bytes) : Prop := jsonNumberTokenOk t = true

theorem bounded_delimiters {q : Bytes} (hq : ∀ c ∈ q, lexStart c = {}) (r : Bytes) :
    bounded {} (q ++ r) = bounded {} r := by
  induction q with
  | nil => rfl
  | cons c q ih =>
    rw [List.forall_mem_cons] at hq
    rw [List.cons_append, bounded_delimiter hq.1, ih hq.2]

mutual
/-- The loop over a value that ends where a number would end: its tokens pass,
and the loop goes on behind it. By induction on the grammar, with items and
members beside it. -/
theorem bounded_val : ∀ {d : Doc} {b : Bytes}, Val d b → ∀ r, JsonText.Ends r →
    (bounded {} (b ++ r) = true ↔ d.Tokens Passes ∧ bounded {} r = true)
  | _, _, .null, r, _ => by
    rw [bounded_delimiters (by simp [JsonText.nullText, lexStart, asciiDigit])]
    simp [Doc.Tokens, Doc.parts]
  | _, _, .bool b, r, _ => by
    rw [bounded_delimiters (by cases b <;> simp [JsonText.boolText, lexStart, asciiDigit])]
    simp [Doc.Tokens, Doc.parts]
  | _, _, .number h, r, hr => by
    rw [bounded_number h hr, Bool.and_eq_true, Doc.tokens_number]
  | _, _, .string h, r, _ => by
    rw [bounded_quoted h]
    simp [Doc.Tokens, Doc.parts]
  | _, _, .emptyArray hw, r, _ => by
    rw [List.cons_append, bounded_delimiter rfl, List.append_assoc, bounded_space hw, List.singleton_append,
      bounded_delimiter rfl]
    simp [Doc.tokens_array]
  | _, _, .array h, r, _ => by
    rw [List.cons_append, bounded_delimiter rfl, bounded_items h, Doc.tokens_array]
  | _, _, .emptyObject hw, r, _ => by
    rw [List.cons_append, bounded_delimiter rfl, List.append_assoc, bounded_space hw, List.singleton_append,
      bounded_delimiter rfl]
    simp [Doc.tokens_object]
  | _, _, .object h, r, _ => by
    rw [List.cons_append, bounded_delimiter rfl, bounded_members h, Doc.tokens_object]
theorem bounded_items : ∀ {xs : List Doc} {b : Bytes}, Items xs b → ∀ r,
    (bounded {} (b ++ r) = true ↔ (∀ x ∈ xs, x.Tokens Passes) ∧ bounded {} r = true)
  | _, _, .last hw h hz, r => by
    simp only [List.append_assoc, List.cons_append]
    rw [bounded_space hw, bounded_val h _ (JsonText.ends_space hz (JsonText.ends_cons rfl _)), bounded_space hz,
      bounded_delimiter rfl]
    simp
  | _, _, .cons hw h hz hs, r => by
    simp only [List.append_assoc, List.cons_append]
    rw [bounded_space hw,
      bounded_val h _ (JsonText.ends_space hz (JsonText.ends_cons rfl _)), bounded_space hz, bounded_delimiter rfl,
      bounded_items hs, List.forall_mem_cons, and_assoc]
theorem bounded_members : ∀ {m : List (String × Doc)} {b : Bytes}, Members m b → ∀ r,
    (bounded {} (b ++ r) = true ↔ (∀ e ∈ m, e.2.Tokens Passes) ∧ bounded {} r = true)
  | _, _, .last hw hk hu hv h hz, r => by
    simp only [List.append_assoc, List.cons_append]
    rw [bounded_space hw, bounded_quoted hk, bounded_space hu, bounded_delimiter rfl, bounded_space hv,
      bounded_val h _ (JsonText.ends_space hz (JsonText.ends_cons rfl _)), bounded_space hz, bounded_delimiter rfl]
    simp
  | _, _, .cons hw hk hu hv h hz hs, r => by
    simp only [List.append_assoc, List.cons_append]
    rw [bounded_space hw, bounded_quoted hk, bounded_space hu, bounded_delimiter rfl, bounded_space hv,
      bounded_val h _ (JsonText.ends_space hz (JsonText.ends_cons rfl _)), bounded_space hz, bounded_delimiter rfl,
      bounded_members hs, List.forall_mem_cons, and_assoc]
end

/-- On a text the byte loop sees exactly the number tokens of the document, and
passes if each of them does. -/
theorem bounded_text {d : Doc} {raw : Bytes} (h : Text d raw) : jsonNumbersLexicallyBounded raw = true ↔ d.Tokens Passes := by
  obtain ⟨w, b, z, hw, hval, hz, rfl⟩ := h
  show bounded {} _ = true ↔ _
  have hend : bounded {} [] = true := rfl
  rw [bounded_space hw, bounded_val hval z (by simpa using JsonText.ends_space hz (r := []) (by simp [JsonText.Ends])),
    ← List.append_nil z, bounded_space hz, hend, and_iff_left rfl]

/-! ## Number tokens -/

theorem any_point (t : Bytes) :
    (t.any fun b => b == 46 || b == 69 || b == 101) = true ↔ ¬ JsonText.Integral t := by
  simp only [List.any_eq_true, Bool.or_eq_true, beq_iff_eq, JsonText.Integral, not_forall, exists_prop]
  refine exists_congr fun b => and_congr_right fun _ => ?_
  tauto

theorem decimal_digits {ds : Bytes} (h : ∀ b ∈ ds, JsonText.digit b = true) :
    decimal ds = some (JsonText.decimalValue ds) :=
  decimal_eq_some.mpr ⟨fun b hb => asciiDigit_iff.mp (h b hb), rfl⟩

/-- Reading digits fails only beyond 64 bits; leading zeros are no matter, since
the grammar has none. -/
theorem parseU64_digits {ds : Bytes} (hne : ds ≠ []) (h : ∀ b ∈ ds, JsonText.digit b = true) :
    parseU64 ds = (some (JsonText.decimalValue ds)).filter (· < 2 ^ 64) := by
  have hplain : parseU64 ds = if ds.isEmpty then none else (decimal ds).filter (· < 2 ^ 64) := by
    cases ds with
    | nil => rfl
    | cons b ds =>
      have hb : b ≠ 43 := by
        rintro rfl
        exact absurd (h 43 List.mem_cons_self) (by decide)
      simp [parseU64, hb]
  rw [hplain, decimal_digits h, if_neg (by simpa using hne)]

/-- The minus sign is dropped. -/
theorem jsonNumberTokenOk_eq (t : Bytes) : jsonNumberTokenOk t = (decide (t.length ≤ maxJsonNumberTokenBytes) &&
    ((t.any fun b => b == 46 || b == 69 || b == 101) ||
      (parseU64 (JsonText.unsigned t)).any fun n : Nat => decide ((n : Int) ≤ maxSafeInteger))) := by
  have hany : ∀ o : Option Nat, (Option.any (fun n : Int => decide (n ≤ maxSafeInteger)) do return (← o : Nat)) =
      o.any fun n : Nat => decide ((n : Int) ≤ maxSafeInteger) := by
    intro o
    cases o <;> rfl
  unfold jsonNumberTokenOk
  simp only [hany]
  congr 3
  cases t with
  | nil => rfl
  | cons b t =>
    by_cases hb : b = 45
    · subst hb
      rfl
    · simp [JsonText.unsigned, hb]

/-- A numeral passes the check of tokens if it is short enough and, where it is
integral, within the exact range. A fraction or an exponent exempts it from the
range, since it is held as a float. -/
theorem jsonNumberTokenOk_iff {t : Bytes} (h : numeral t = true) : jsonNumberTokenOk t = true ↔
    t.length ≤ 128 ∧ (JsonText.Integral t → (magnitude t : Int) ≤ maxSafeInteger) := by
  rw [jsonNumberTokenOk_eq, Bool.and_eq_true, decide_eq_true_eq, Bool.or_eq_true, any_point]
  refine and_congr_right fun _ => ?_
  by_cases hint : JsonText.Integral t
  · obtain ⟨hne, hdigits⟩ := JsonText.integral_digits h hint
    rw [parseU64_digits hne hdigits, or_iff_right (not_not.mpr hint), imp_iff_right hint]
    show _ ↔ (JsonText.decimalValue (JsonText.unsigned t) : Int) ≤ maxSafeInteger
    generalize JsonText.decimalValue (JsonText.unsigned t) = n
    rw [Option.any_filter, Option.any_some, Bool.and_eq_true, decide_eq_true_eq, decide_eq_true_eq, maxSafeInteger]
    omega
  · exact iff_of_true (.inl hint) (fun h => absurd h hint)

/-! ## The visitor -/

theorem setMember_eq (m : List (String × Value)) (k : String) (x : Value) : setMember m k x = SortedMap.insert k x m := by
  induction m with
  | nil => rfl
  | cons e m ih =>
    obtain ⟨j, y⟩ := e
    rw [setMember, SortedMap.insert, ih]
    by_cases hk : k = j
    · subst hk
      rw [if_pos rfl, if_neg (lt_irrefl k), if_pos rfl]
    · rw [if_neg hk, if_neg hk]

theorem hasKey_setMember (m : List (String × Value)) (k : String) (x : Value) (j : String) :
    Value.hasKey (setMember m k x) j = false ↔ j ≠ k ∧ Value.hasKey m j = false := by
  rw [Value.hasKey, lookup_setMember]
  by_cases hj : j = k <;> simp [hj, Value.hasKey]

/-- The visitor returns the number that is held for the token. -/
def Returned (number : Numbers) (t : Bytes) : Prop :=
  ∀ n, number t = some n → strictValue (.number n) = some (.number n)

mutual
/-- The visitor builds the value of a document with distinct names, at every
level, and fails on any other. By induction on the document, provided that the
numbers are those that a visitor is given back. -/
theorem strict_tree {number : Numbers} : ∀ {d : Doc} {x : Value}, d.Tokens (Returned number) → tree number d = some x → ∀ v,
    (strictValue x = some v ↔ d.Distinct ∧ v = collapse x)
  | .null, x, _, h, v => by
    cases h
    simp [strictValue, collapse, Doc.Distinct, Doc.parts, eq_comm]
  | .bool b, x, _, h, v => by
    cases h
    simp [strictValue, collapse, Doc.Distinct, Doc.parts, eq_comm]
  | .string s, x, _, h, v => by
    cases h
    simp [strictValue, collapse, Doc.Distinct, Doc.parts, eq_comm]
  | .number t, x, hexact, h, v => by
    rw [tree, Option.map_eq_some_iff] at h
    obtain ⟨n, hn, rfl⟩ := h
    rw [Doc.tokens_number] at hexact
    rw [hexact n hn]
    simp [collapse, Doc.Distinct, Doc.parts, eq_comm]
  | .array xs, x, hexact, h, v => by
    rw [tree, Option.map_eq_some_iff] at h
    obtain ⟨ys, hys, rfl⟩ := h
    rw [Doc.tokens_array] at hexact
    rw [strictValue, Option.map_eq_some_iff, Doc.distinct_array, collapse]
    simp only [strict_items hexact hys]
    constructor
    · rintro ⟨_, ⟨hd, rfl⟩, rfl⟩
      exact ⟨hd, rfl⟩
    · rintro ⟨hd, rfl⟩
      exact ⟨_, ⟨hd, rfl⟩, rfl⟩
  | .object m, x, hexact, h, v => by
    rw [tree, Option.map_eq_some_iff] at h
    obtain ⟨ys, hys, rfl⟩ := h
    rw [Doc.tokens_object] at hexact
    rw [strictValue, Option.map_eq_some_iff, Doc.distinct_object, collapse]
    simp only [strict_members hexact hys, SortedMap.ofList]
    constructor
    · rintro ⟨_, ⟨hd, -, rfl⟩, rfl⟩
      exact ⟨hd, rfl⟩
    · rintro ⟨hd, rfl⟩
      exact ⟨_, ⟨hd, fun k _ => rfl, rfl⟩, rfl⟩
theorem strict_items {number : Numbers} : ∀ {xs : List Doc} {ys : List Value}, (∀ x ∈ xs, x.Tokens (Returned number)) →
    treeItems number xs = some ys → ∀ vs, (strictItems ys = some vs ↔ (∀ x ∈ xs, x.Distinct) ∧ vs = collapseItems ys)
  | [], ys, _, h, vs => by
    cases h
    simp [strictItems, collapseItems, eq_comm]
  | x :: xs, ys, hexact, h, vs => by
    rw [List.forall_mem_cons] at hexact
    simp only [treeItems, Option.bind_eq_bind, Option.bind_eq_some_iff, Option.pure_def, Option.some.injEq] at h
    obtain ⟨y, hy, ys, hys, rfl⟩ := h
    simp only [strictItems, Option.bind_eq_bind, Option.bind_eq_some_iff, Option.pure_def, Option.some.injEq,
      strict_tree hexact.1 hy, strict_items hexact.2 hys, collapseItems, List.forall_mem_cons]
    constructor
    · rintro ⟨_, ⟨hd, rfl⟩, _, ⟨hds, rfl⟩, rfl⟩
      exact ⟨⟨hd, hds⟩, rfl⟩
    · rintro ⟨⟨hd, hds⟩, rfl⟩
      exact ⟨_, ⟨hd, rfl⟩, _, ⟨hds, rfl⟩, rfl⟩
theorem strict_members {number : Numbers} : ∀ {m : List (String × Doc)} {ys : List (String × Value)},
    (∀ e ∈ m, e.2.Tokens (Returned number)) → treeMembers number m = some ys → ∀ out vs, (strictMembers ys out = some vs ↔
      ((m.map Prod.fst).Nodup ∧ ∀ e ∈ m, e.2.Distinct) ∧ (∀ k ∈ m.map Prod.fst, Value.hasKey out k = false) ∧
        vs = (collapseMembers ys).foldl (fun acc e => SortedMap.insert e.1 e.2 acc) out)
  | [], ys, _, h, out, vs => by
    cases h
    rw [strictMembers, Option.some.injEq]
    simp only [collapseMembers, List.map_nil, List.nodup_nil, List.not_mem_nil, false_implies, implies_true, true_and,
      List.foldl_nil]
    exact eq_comm
  | (k, x) :: m, ys, hexact, h, out, vs => by
    rw [List.forall_mem_cons] at hexact
    simp only [treeMembers, Option.bind_eq_bind, Option.bind_eq_some_iff, Option.pure_def, Option.some.injEq] at h
    obtain ⟨y, hy, ys, hys, rfl⟩ := h
    rw [strictMembers, collapseMembers, List.foldl_cons]
    simp only [List.map_cons, List.nodup_cons, List.forall_mem_cons]
    cases hk : Value.hasKey out k with
    | true => simp
    | false =>
      rw [if_neg Bool.false_ne_true]
      cases hv : strictValue y with
      | none =>
        have hnot : ¬ x.Distinct := by
          intro hd
          have hsome := (strict_tree hexact.1 hy (collapse y)).mpr ⟨hd, rfl⟩
          rw [hv] at hsome
          cases hsome
        simp [hnot]
      | some w =>
        obtain ⟨hd, rfl⟩ := (strict_tree hexact.1 hy w).mp hv
        have hkeys : (∀ j ∈ m.map Prod.fst, Value.hasKey (setMember out k (collapse y)) j = false) ↔
            k ∉ m.map Prod.fst ∧ ∀ j ∈ m.map Prod.fst, Value.hasKey out j = false := by
          simp only [hasKey_setMember, forall₂_and]
          refine and_congr_left fun _ => ⟨fun h hmem => h k hmem rfl, fun h j hj he => h (he ▸ hj)⟩
        show strictMembers ys (setMember out k (collapse y)) = some vs ↔ _
        rw [strict_members hexact.2 hys, hkeys, setMember_eq]
        tauto
end

/-! ## Depth -/

theorem depthExceedsMembers_eq_false {m : List (String × Value)} {limit : Int} :
    depthExceedsMembers m limit = false ↔ ∀ e ∈ m, depthExceeds e.2 limit = false := by
  induction m with
  | nil => simp [depthExceedsMembers]
  | cons e m ih => rw [depthExceedsMembers, Bool.or_eq_false_iff, ih, List.forall_mem_cons]

mutual
/-- The walk over a value sees the depth of its document. An empty container
counts for nothing in either. -/
theorem depthExceeds_tree {number : Numbers} : ∀ {d : Doc} {x : Value}, d.Distinct → tree number d = some x →
    ∀ limit : Int, (depthExceeds (collapse x) limit = false ↔ (d.depth : Int) ≤ limit)
  | .null, x, _, h, limit => by
    cases h
    simp [collapse, depthExceeds, Doc.depth]
  | .bool b, x, _, h, limit => by
    cases h
    simp [collapse, depthExceeds, Doc.depth]
  | .string s, x, _, h, limit => by
    cases h
    simp [collapse, depthExceeds, Doc.depth]
  | .number t, x, _, h, limit => by
    rw [tree, Option.map_eq_some_iff] at h
    obtain ⟨n, -, rfl⟩ := h
    simp [collapse, depthExceeds, Doc.depth]
  | .array xs, x, hd, h, limit => by
    rw [tree, Option.map_eq_some_iff] at h
    obtain ⟨ys, hys, rfl⟩ := h
    rw [Doc.distinct_array] at hd
    rw [collapse, depthExceeds, Bool.or_eq_false_iff, decide_eq_false_iff_not, not_lt,
      depthItems_tree hd hys]
    cases xs with
    | nil => simp [Doc.depth]
    | cons x xs =>
      simp only [reduceCtorEq, false_or, Doc.depth, Doc.depthItems]
      omega
  | .object m, x, hd, h, limit => by
    rw [tree, Option.map_eq_some_iff] at h
    obtain ⟨ys, hys, rfl⟩ := h
    rw [Doc.distinct_object] at hd
    have hmem : ∀ e, e ∈ SortedMap.ofList (collapseMembers ys) ↔ e ∈ collapseMembers ys := fun e =>
      SortedMap.mem_ofList (by rw [treeMembers_keys hys]; exact hd.1)
    have hmembers := depthMembers_tree hd.2 hys (limit - 1)
    rw [depthExceedsMembers_eq_false] at hmembers
    rw [collapse, depthExceeds, Bool.or_eq_false_iff, decide_eq_false_iff_not, not_lt, depthExceedsMembers_eq_false]
    simp only [hmem, hmembers]
    cases m with
    | nil => simp [Doc.depth]
    | cons e m =>
      obtain ⟨k, x⟩ := e
      simp only [reduceCtorEq, false_or, Doc.depth, Doc.depthMembers]
      omega
theorem depthItems_tree {number : Numbers} : ∀ {xs : List Doc} {ys : List Value}, (∀ x ∈ xs, x.Distinct) →
    treeItems number xs = some ys → ∀ limit : Int,
    (depthExceedsItems (collapseItems ys) limit = false ↔ xs = [] ∨ (Doc.depthItems xs : Int) ≤ limit)
  | [], ys, _, h, limit => by
    cases h
    simp [collapseItems, depthExceedsItems]
  | x :: xs, ys, hd, h, limit => by
    rw [List.forall_mem_cons] at hd
    simp only [treeItems, Option.bind_eq_bind, Option.bind_eq_some_iff, Option.pure_def, Option.some.injEq] at h
    obtain ⟨y, hy, ys, hys, rfl⟩ := h
    rw [collapseItems, depthExceedsItems, Bool.or_eq_false_iff, depthExceeds_tree hd.1 hy, depthItems_tree hd.2 hys]
    simp only [reduceCtorEq, false_or, Doc.depthItems]
    cases xs with
    | nil =>
      simp only [true_or, and_true, Doc.depthItems]
      omega
    | cons x' xs =>
      simp only [reduceCtorEq, false_or]
      omega
theorem depthMembers_tree {number : Numbers} : ∀ {m : List (String × Doc)} {ys : List (String × Value)},
    (∀ e ∈ m, e.2.Distinct) → treeMembers number m = some ys → ∀ limit : Int,
    (depthExceedsMembers (collapseMembers ys) limit = false ↔ m = [] ∨ (Doc.depthMembers m : Int) ≤ limit)
  | [], ys, _, h, limit => by
    cases h
    simp [collapseMembers, depthExceedsMembers]
  | (k, x) :: m, ys, hd, h, limit => by
    rw [List.forall_mem_cons] at hd
    simp only [treeMembers, Option.bind_eq_bind, Option.bind_eq_some_iff, Option.pure_def, Option.some.injEq] at h
    obtain ⟨y, hy, ys, hys, rfl⟩ := h
    rw [collapseMembers, depthExceedsMembers, Bool.or_eq_false_iff, depthExceeds_tree hd.1 hy,
      depthMembers_tree hd.2 hys]
    simp only [reduceCtorEq, false_or, Doc.depthMembers]
    cases m with
    | nil =>
      simp only [true_or, and_true, Doc.depthMembers]
      omega
    | cons e m =>
      simp only [reduceCtorEq, false_or]
      omega
end

/-! ## What is accepted can be written -/

/-- Only the depth of the value can exceed a limit; every number in it can be
written. -/
def Writable (X : Crates) (v : Value) : Prop := ∀ limit, numbersMatch X false v limit = !depthExceeds v limit

theorem writable_items {X : Crates} {xs : List Value} (h : ∀ x ∈ xs, Writable X x) (limit : Int) :
    numbersMatchItems X false xs limit = !depthExceedsItems xs limit := by
  induction xs with
  | nil => rfl
  | cons x xs ih =>
    rw [List.forall_mem_cons] at h
    rw [numbersMatchItems, depthExceedsItems, h.1 limit, ih h.2, Bool.not_or]

theorem writable_members {X : Crates} {m : List (String × Value)} (h : ∀ e ∈ m, Writable X e.2) (limit : Int) :
    numbersMatchMembers X false m limit = !depthExceedsMembers m limit := by
  induction m with
  | nil => rfl
  | cons e m ih =>
    rw [List.forall_mem_cons] at h
    rw [numbersMatchMembers, depthExceedsMembers, h.1 limit, ih h.2, Bool.not_or]

theorem not_decide_lt (limit : Int) : (!decide (limit < 0)) = decide (0 ≤ limit) := by
  rw [← decide_not]
  simp

/-- The writer has a text for the number that is held for the token. -/
def Written (X : Crates) (number : Numbers) (t : Bytes) : Prop := ∀ n, number t = some n → (numberText X n).isSome = true

mutual
/-- A document whose tokens are written numbers makes a value that can be
written, within its depth. -/
theorem writable_tree {X : Crates} {number : Numbers} : ∀ {d : Doc} {x : Value}, d.Distinct →
    d.Tokens (Written X number) → tree number d = some x → Writable X (collapse x)
  | .null, x, _, _, h => by
    cases h
    exact fun limit => (not_decide_lt limit).symm
  | .bool b, x, _, _, h => by
    cases h
    exact fun limit => (not_decide_lt limit).symm
  | .string s, x, _, _, h => by
    cases h
    exact fun limit => (not_decide_lt limit).symm
  | .number t, x, _, hw, h => by
    rw [tree, Option.map_eq_some_iff] at h
    obtain ⟨n, hn, rfl⟩ := h
    rw [Doc.tokens_number] at hw
    intro limit
    simp only [collapse, numbersMatch, depthExceeds, not_decide_lt, hw n hn, Bool.not_false, Bool.true_or, Bool.and_true]
  | .array xs, x, hd, hw, h => by
    rw [tree, Option.map_eq_some_iff] at h
    obtain ⟨ys, hys, rfl⟩ := h
    rw [Doc.distinct_array] at hd
    rw [Doc.tokens_array] at hw
    intro limit
    rw [collapse, numbersMatch, depthExceeds, Bool.not_or, not_decide_lt, writable_items (writable_treeItems hd hw hys)]
  | .object m, x, hd, hw, h => by
    rw [tree, Option.map_eq_some_iff] at h
    obtain ⟨ys, hys, rfl⟩ := h
    rw [Doc.distinct_object] at hd
    rw [Doc.tokens_object] at hw
    have hmem : ∀ e ∈ SortedMap.ofList (collapseMembers ys), Writable X e.2 := fun e he =>
      writable_treeMembers hd.2 hw hys e ((SortedMap.mem_ofList (by rw [treeMembers_keys hys]; exact hd.1)).mp he)
    intro limit
    rw [collapse, numbersMatch, depthExceeds, Bool.not_or, not_decide_lt, writable_members hmem]
theorem writable_treeItems {X : Crates} {number : Numbers} : ∀ {xs : List Doc} {ys : List Value},
    (∀ x ∈ xs, x.Distinct) → (∀ x ∈ xs, x.Tokens (Written X number)) → treeItems number xs = some ys →
    ∀ y ∈ collapseItems ys, Writable X y
  | [], ys, _, _, h => by
    cases h
    simp [collapseItems]
  | x :: xs, ys, hd, hw, h => by
    rw [List.forall_mem_cons] at hd hw
    simp only [treeItems, Option.bind_eq_bind, Option.bind_eq_some_iff, Option.pure_def, Option.some.injEq] at h
    obtain ⟨y, hy, ys, hys, rfl⟩ := h
    rw [collapseItems, List.forall_mem_cons]
    exact ⟨writable_tree hd.1 hw.1 hy, writable_treeItems hd.2 hw.2 hys⟩
theorem writable_treeMembers {X : Crates} {number : Numbers} : ∀ {m : List (String × Doc)}
    {ys : List (String × Value)}, (∀ e ∈ m, e.2.Distinct) → (∀ e ∈ m, e.2.Tokens (Written X number)) →
    treeMembers number m = some ys → ∀ e ∈ collapseMembers ys, Writable X e.2
  | [], ys, _, _, h => by
    cases h
    simp [collapseMembers]
  | (k, x) :: m, ys, hd, hw, h => by
    rw [List.forall_mem_cons] at hd hw
    simp only [treeMembers, Option.bind_eq_bind, Option.bind_eq_some_iff, Option.pure_def, Option.some.injEq] at h
    obtain ⟨y, hy, ys, hys, rfl⟩ := h
    rw [collapseMembers, List.forall_mem_cons]
    exact ⟨writable_tree hd.1 hw.1 hy, writable_treeMembers hd.2 hw.2 hys⟩
end

/-! ## Numbers as they are held -/

section Numbers

variable {X : Crates} {number : Numbers} (hnumber : HoldsNumbers number) {t : Bytes} (h : numeral t = true)
include hnumber h

/-- What passes the check of tokens is held as a number that the writer has a
text for. -/
theorem returned_written (hok : jsonNumberTokenOk t = true) : Returned number t ∧ Written X number t := by
  obtain ⟨-, hsafe⟩ := (jsonNumberTokenOk_iff h).mp hok
  suffices hall : ∀ n, number t = some n → strictValue (.number n) = some (.number n) ∧ (numberText X n).isSome = true
    from ⟨fun n hn => (hall n hn).1, fun n hn => (hall n hn).2⟩
  intro n hn
  by_cases hint : JsonText.Integral t
  · have hsafe := hsafe hint
    rw [maxSafeInteger] at hsafe
    by_cases hsign : t.head? = some 45
    · rcases Nat.eq_zero_or_pos (magnitude t) with hzero | hpos
      · rw [hnumber.negativeZero t h hint hsign hzero, Option.some.injEq] at hn
        subst hn
        exact ⟨rfl, rfl⟩
      · rw [hnumber.negative t h hint hsign hpos (by omega), Option.some.injEq] at hn
        subst hn
        have hvalue : (Int64.ofInt (-(magnitude t : Int))).toInt = -(magnitude t : Int) :=
          Int64.toInt_ofInt_of_le (by omega) (by omega)
        constructor
        · rw [strictValue, hvalue, if_pos (by rw [maxSafeInteger]; omega)]
        · apply exact_number rfl
          rw [integer, hvalue]
          omega
    · rw [hnumber.natural t h hint hsign (by omega), Option.some.injEq] at hn
      subst hn
      have hvalue : (UInt64.ofNat (magnitude t)).toNat = magnitude t := by
        rw [UInt64.toNat_ofNat', Nat.mod_eq_of_lt (by omega)]
      constructor
      · rw [strictValue, hvalue, if_pos (by rw [maxSafeInteger]; omega)]
      · apply exact_number rfl
        rw [integer, hvalue]
        omega
  · by_cases hfinite : Finite64 t
    · obtain ⟨f, hf, hheld⟩ := hnumber.real t h hint hfinite
      rw [hheld, Option.some.injEq] at hn
      subst hn
      constructor
      · rw [strictValue, if_pos hf]
      · show (if f.isFinite = true then some (X.formatFinite f) else none).isSome = true
        rw [if_pos hf, Option.isSome_some]
    · rw [hnumber.range t h hint hfinite] at hn
      cases hn

/-- A token that passes the check is held at all exactly if it is finite in
binary64. -/
theorem isSome_number (hok : jsonNumberTokenOk t = true) : (number t).isSome = true ↔ Finite64 t := by
  obtain ⟨-, hsafe⟩ := (jsonNumberTokenOk_iff h).mp hok
  by_cases hint : JsonText.Integral t
  · have hsafe := hsafe hint
    rw [maxSafeInteger] at hsafe
    refine iff_of_true ?_ (JsonText.finite_integral hint (by omega))
    by_cases hsign : t.head? = some 45
    · rcases Nat.eq_zero_or_pos (magnitude t) with hzero | hpos
      · rw [hnumber.negativeZero t h hint hsign hzero, Option.isSome_some]
      · rw [hnumber.negative t h hint hsign hpos (by omega), Option.isSome_some]
    · rw [hnumber.natural t h hint hsign (by omega), Option.isSome_some]
  · by_cases hfinite : Finite64 t
    · obtain ⟨f, -, hheld⟩ := hnumber.real t h hint hfinite
      exact iff_of_true (by rw [hheld, Option.isSome_some]) hfinite
    · rw [hnumber.range t h hint hfinite]
      simp [hfinite]

end Numbers

mutual
theorem isSome_tree {number : Numbers} : ∀ d : Doc,
    (tree number d).isSome = true ↔ d.Tokens fun t => (number t).isSome = true
  | .null => by simp [tree, Doc.Tokens, Doc.parts]
  | .bool b => by simp [tree, Doc.Tokens, Doc.parts]
  | .string s => by simp [tree, Doc.Tokens, Doc.parts]
  | .number t => by rw [tree, Option.isSome_map, Doc.tokens_number]
  | .array xs => by rw [tree, Option.isSome_map, Doc.tokens_array, isSome_treeItems xs]
  | .object m => by rw [tree, Option.isSome_map, Doc.tokens_object, isSome_treeMembers m]
theorem isSome_treeItems {number : Numbers} : ∀ xs : List Doc,
    (treeItems number xs).isSome = true ↔ ∀ x ∈ xs, x.Tokens fun t => (number t).isSome = true
  | [] => by simp [treeItems]
  | x :: xs => by
    rw [treeItems, List.forall_mem_cons, ← isSome_tree x, ← isSome_treeItems xs]
    cases tree number x <;> cases treeItems number xs <;> simp
theorem isSome_treeMembers {number : Numbers} : ∀ m : List (String × Doc),
    (treeMembers number m).isSome = true ↔ ∀ e ∈ m, e.2.Tokens fun t => (number t).isSome = true
  | [] => by simp [treeMembers]
  | (k, x) :: m => by
    rw [treeMembers, List.forall_mem_cons, ← isSome_tree x, ← isSome_treeMembers m]
    cases tree number x <;> cases treeMembers number m <;> simp
end

/-! ## The browser's result -/

def maxBundleBytes : Nat := 64 * 1024 * 1024

def browserBundleResultSchema : String := "evd/browser-bundle-verification-result/v3"

/-- The members stand in the order of their names.
mirrors verify-rs/src/lib.rs:1480-1491 -/
def browserBundleResult (E : Engine) (verdict : String) (bundleDigest error : Option String)
    (facts : Option BundleFacts) : String :=
  E.display (.object
    [("bundle_digest", (bundleDigest.map Value.string).getD .null),
     ("continuity", (facts.map fun f => .object
       [("gaps", .number (.posInt (UInt64.ofNat f.continuityGaps))), ("ok", .bool f.continuityOk),
        ("present", .bool f.continuityPresent)]).getD .null),
     ("error", (error.map Value.string).getD .null),
     ("schema", .string browserBundleResultSchema),
     ("verdict", .string verdict)])

/-- mirrors verify-rs/src/lib.rs:1493-1513 -/
def browserBundleVerificationResult (E : Engine) (json : Bytes) : String :=
  if json.length > maxBundleBytes then browserBundleResult E "NOT_VERIFIED" none none none
  else match strictJson E json with
    | none => browserBundleResult E "ERROR" none (some "INVALID_JSON") none
    | some bundle =>
      let facts := verifyBundleFacts E.toCrates bundle none
      if !facts.ok then browserBundleResult E "NOT_VERIFIED" none none none
      else match canonicalChecked E.toCrates bundle with
        | some bytes => browserBundleResult E "VERIFIED" (some (hex (E.sha256 bytes).val)) none (some facts)
        | none => browserBundleResult E "NOT_VERIFIED" none none none

/-! ## What is accepted -/

/-- What a document must satisfy: no object repeats a name, integers are in the
exact range, tokens are short, numbers are finite, and no value lies below more
than 64 containers. -/
structure Accepted (d : Doc) : Prop where
  names : d.Distinct
  integers : d.Tokens fun t => JsonText.Integral t → magnitude t ≤ 2 ^ 53 - 1
  tokens : d.Tokens fun t => t.length ≤ 128
  finite : d.Tokens Finite64
  depth : d.depth ≤ 64

/-- The checks of tokens are those of the number tokens. -/
theorem passes_iff {d : Doc} (h : d.Tokens fun t => numeral t = true) : d.Tokens Passes ↔
    (d.Tokens fun t => JsonText.Integral t → magnitude t ≤ 2 ^ 53 - 1) ∧ d.Tokens fun t => t.length ≤ 128 := by
  have hsafe : ∀ n : Nat, (n : Int) ≤ maxSafeInteger ↔ n ≤ 2 ^ 53 - 1 := by
    intro n
    rw [maxSafeInteger]
    omega
  constructor
  · intro hp
    have hall := h.and hp
    refine ⟨hall.imp fun t ht hint => ?_, hall.imp fun t ht => ((jsonNumberTokenOk_iff ht.1).mp ht.2).1⟩
    exact (hsafe _).mp (((jsonNumberTokenOk_iff ht.1).mp ht.2).2 hint)
  · rintro ⟨hsizes, hlengths⟩
    refine (h.and (hsizes.and hlengths)).imp fun t ht => (jsonNumberTokenOk_iff ht.1).mpr ⟨ht.2.2, fun hint => ?_⟩
    exact (hsafe _).mpr (ht.2.1 hint)

section

variable {E : Engine} {number : Numbers} (hvisit : Visits E.visit number Shallow) (hnumber : HoldsNumbers number)
include hvisit hnumber

/-- The four checks of the source, one after the other, are the fields of
`Accepted` together with the reading itself. -/
theorem strictJson_iff (raw : Bytes) (v : Value) :
    strictJson E raw = some v ↔ ∃ d, Text d raw ∧ Accepted d ∧ value number d = some v := by
  have hcheck : strictJson E raw = some v ↔ jsonNumbersLexicallyBounded raw = true ∧
      ∃ x, E.visit raw = some x ∧ strictValue x = some v ∧ depthExceeds v L1.Jcs.maxDepth = false := by
    rw [strictJson]
    cases jsonNumbersLexicallyBounded raw with
    | false => simp
    | true => simp [Option.filter_eq_some_iff, Option.bind_eq_some_iff, ← exists_and_right, and_assoc]
  rw [hcheck]
  constructor
  · rintro ⟨hbound, x, hx, hv, hdepth⟩
    obtain ⟨d, htext, -, htree⟩ := (hvisit raw x).mp hx
    have hpass := (bounded_text htext).mp hbound
    have htokens := htext.numerals.and hpass
    have hreturned : d.Tokens (Returned number) := htokens.imp fun t ht => (@returned_written E.toCrates _ hnumber _ ht.1 ht.2).1
    obtain ⟨hnames, rfl⟩ := (strict_tree hreturned htree v).mp hv
    obtain ⟨hsizes, hlengths⟩ := (passes_iff htext.numerals).mp hpass
    have hfinite : d.Tokens Finite64 := by
      have hsome := (isSome_tree d).mp (by rw [htree]; rfl)
      exact (htokens.and hsome).imp fun t ht => (isSome_number hnumber ht.1.1 ht.1.2).mp ht.2
    have hdeep := (depthExceeds_tree hnames htree L1.Jcs.maxDepth).mp hdepth
    rw [L1.Jcs.maxDepth] at hdeep
    exact ⟨d, htext, ⟨hnames, hsizes, hlengths, hfinite, by omega⟩, by rw [value, htree]; rfl⟩
  · rintro ⟨d, htext, hd, hv⟩
    have hpass := (passes_iff htext.numerals).mpr ⟨hd.integers, hd.tokens⟩
    have htokens := htext.numerals.and hpass
    rw [value, Option.map_eq_some_iff] at hv
    obtain ⟨x, htree, rfl⟩ := hv
    have hreturned : d.Tokens (Returned number) := htokens.imp fun t ht => (@returned_written E.toCrates _ hnumber _ ht.1 ht.2).1
    have hshallow : Shallow d := by
      have := d.nesting_le
      have := hd.depth
      rw [Shallow]
      omega
    have hdepth := hd.depth
    refine ⟨(bounded_text htext).mpr hpass, x, (hvisit raw x).mpr ⟨d, htext, hshallow, htree⟩,
      (strict_tree hreturned htree _).mpr ⟨hd.names, rfl⟩, (depthExceeds_tree hd.names htree _).mpr ?_⟩
    rw [L1.Jcs.maxDepth]
    omega

/-- An accepted value can be written: it is within the numeric profile and the
depth of the writer. -/
theorem accepted_written {raw : Bytes} {v : Value} (h : strictJson E raw = some v) :
    depthExceeds v L1.Jcs.maxDepth = false ∧ numbersWithinProfile E.toCrates v = true ∧
      (canonicalChecked E.toCrates v).isSome = true := by
  obtain ⟨d, htext, hd, hv⟩ := (strictJson_iff hvisit hnumber raw v).mp h
  rw [value, Option.map_eq_some_iff] at hv
  obtain ⟨x, htree, rfl⟩ := hv
  have htokens := htext.numerals.and ((passes_iff htext.numerals).mpr ⟨hd.integers, hd.tokens⟩)
  have hwritten : d.Tokens (Written E.toCrates number) := htokens.imp fun t ht => (returned_written hnumber ht.1 ht.2).2
  have hdepth : depthExceeds (collapse x) L1.Jcs.maxDepth = false := by
    have hdepth := hd.depth
    rw [depthExceeds_tree hd.names htree, L1.Jcs.maxDepth]
    omega
  have hprofile : numbersMatch E.toCrates false (collapse x) L1.Jcs.maxDepth = true := by
    rw [writable_tree hd.names hwritten htree, hdepth, Bool.not_false]
  exact ⟨hdepth, hprofile, by rw [canonicalChecked, isSome_writeValue, hprofile]⟩

/-- `strict_json` accepts exactly the texts without a repeated name, with exact
integers, short finite numbers and at most 64 containers above a value, and
returns their values. An accepted value has a digest, so that a verified bundle
is always reported as such. -/
theorem strict_exact (raw : Bytes) : (∀ v, strictJson E raw = some v ↔
      ∃ d, Text d raw ∧ Accepted d ∧ value number d = some v) ∧
    ∀ v, strictJson E raw = some v → numbersWithinProfile E.toCrates v = true ∧
      (canonicalChecked E.toCrates v).isSome = true ∧ depthExceeds v 64 = false ∧
      (raw.length ≤ maxBundleBytes → (verifyBundleFacts E.toCrates v none).ok = true → ∃ bytes,
        canonicalChecked E.toCrates v = some bytes ∧ browserBundleVerificationResult E raw =
          browserBundleResult E "VERIFIED" (some (hex (E.sha256 bytes).val)) none
            (some (verifyBundleFacts E.toCrates v none))) := by
  refine ⟨strictJson_iff hvisit hnumber raw, fun v h => ?_⟩
  obtain ⟨hdepth, hprofile, hsome⟩ := accepted_written hvisit hnumber h
  refine ⟨hprofile, hsome, hdepth, fun hlength hok => ?_⟩
  obtain ⟨bytes, hbytes⟩ := Option.isSome_iff_exists.mp hsome
  refine ⟨bytes, hbytes, ?_⟩
  rw [browserBundleVerificationResult, if_neg (Nat.not_lt.mpr hlength), h]
  simp only [hok, hbytes, Bool.not_true, Bool.false_eq_true, if_false]

end

/-- An engine whose reader meets the laws. -/
def strictEngine (X : Crates) : Engine := { referenceEngine X with visit := visitor held Shallow }

theorem object_accepted : Accepted (.object [("a", .number [48])]) where
  names := by simp [Doc.Distinct, Doc.parts, Doc.partsMembers]
  integers := by simp [magnitude, JsonText.unsigned, JsonText.decimalValue, Decimal.value]
  tokens := by simp
  finite := by
    simp only [Doc.tokens_object, List.forall_mem_singleton, Doc.tokens_number]
    exact JsonText.finite_integral (by decide) (by decide)
  depth := by decide

theorem object_text : Text (.object [("a", .number [48])]) [123, 34, 97, 34, 58, 48, 125] := by
  have hspace : Space [] := fun b hb => by cases hb
  have hname : Quoted "a" [34, 97, 34] := ⟨[97], .cons (.plain (by decide) (by decide) (by decide)) .nil, rfl⟩
  have hmembers : Members [("a", .number [48])] [34, 97, 34, 58, 48, 125] :=
    .last hspace hname hspace hspace (.number rfl) hspace
  exact ⟨[], _, [], hspace, .object hmembers, hspace, rfl⟩

/-- `{"a":0}` is accepted. -/
theorem strict_exact_object : strictJson (strictEngine L1.Reference.blank) [123, 34, 97, 34, 58, 48, 125] =
      some (.object [("a", .number (.posInt 0))]) ∧
    (canonicalChecked L1.Reference.blank (.object [("a", .number (.posInt 0))])).isSome = true := by
  obtain ⟨hiff, hdigest⟩ := @strict_exact (strictEngine L1.Reference.blank) held (visitor_visits held Shallow) held_numbers
    [123, 34, 97, 34, 58, 48, 125]
  have h := (hiff (.object [("a", .number (.posInt 0))])).mpr ⟨_, object_text, object_accepted, rfl⟩
  exact ⟨h, (hdigest _ h).2.1⟩

end SwarrmVerify.L4.Strict
