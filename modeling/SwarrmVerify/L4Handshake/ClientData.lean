import SwarrmVerify.L1Encoding.Reference
import SwarrmVerify.L1Encoding.Serde
import SwarrmVerify.L4Handshake.Admin

/-!
# The keys of the client data

A parser into a map drops repeated keys, so a scanner over the bytes
(`top_level_json_keys` in `verify-rs/src/b28.rs`) looks for them first. It is
no parser: it walks along the bytes, steps over each string, counts the
brackets around it, and takes a string for a key where a colon is the next byte
that is not white space and one bracket is open. On bytes that are no JSON it
may record anything. Here it is run along the grammar.

`Rest raw i s` says that `s` is what is still to be read at `i`. Each lemma
takes one such place to the next, so that the run over a text is a chain of
steps, one for each production of the grammar.

**Results.**
* `jsonStringEnd_quoted`: a string ends behind its quote, whatever escapes it
  holds.
* `keys_val`: a value below the outermost object is passed over; its brackets
  are balanced and its strings are none of the keys.
* `keys_text`: of the text of an object the scanner records the names, in
  their order, and fails where one is repeated.
* `client_exact`: `strict_client_json` accepts exactly the texts of objects
  with the four members of the client data, each written once, within the
  limits of the parser, and returns what the parser makes of them.

The example at the end has a name of the outermost object repeated below it,
which is accepted.
-/
namespace SwarrmVerify.L4.Handshake.ClientData
open Panics SwarrmVerify.L1.Serde
open JsonText (Text Val Items Members Piece Pieces Quoted Space)

/-! ## Places -/

/-- What is still to be read at a place. Every step of the scanner is a step
from one such fact to the next. -/
def Rest (raw : Bytes) (i : Nat) (s : Bytes) : Prop := raw.drop i = s

section

variable {raw b s : Bytes} {c : UInt8} {i : Nat}

/-- Behind a part of what is still to be read comes the rest of it. -/
theorem Rest.append (h : Rest raw i (b ++ s)) : Rest raw (i + b.length) s := by
  rw [Rest, ← List.drop_drop, h, List.drop_left]

theorem Rest.cons (h : Rest raw i (c :: s)) : Rest raw (i + 1) s := Rest.append (b := [c]) h

theorem Rest.get (h : Rest raw i (c :: s)) : raw[i]? = some c := by
  have hget := congrArg (·[0]?) h
  simpa using hget

theorem Rest.lt (h : Rest raw i (c :: s)) : i < raw.length := (List.getElem?_eq_some_iff.mp h.get).1

theorem Rest.item (h : Rest raw i (c :: s)) : item raw i = .ok c := by
  rw [Panics.item, h.get]

/-- What the scanner cuts out between two places is the part that was there. -/
theorem Rest.taken (h : Rest raw i (b ++ s)) : (raw.take (i + b.length)).drop i = b := by
  rw [List.drop_take, h, Nat.add_sub_cancel_left, List.take_left]

end

/-! ## Strings -/

/-- The quote from a place on: the first one that is not escaped. -/
def Closes (raw : Bytes) (i n : Nat) : Prop := Returns (closingQuote raw i) fun j => j.val = n

section

variable {raw : Bytes} {i n : Nat} {c : UInt8} {s : Bytes}

theorem closes_quote (h : Rest raw i (34 :: s)) : Closes raw i i := by
  rw [Closes, closingQuote, if_pos h.lt, h.item, ok_bind, if_pos (beq_self_eq_true _), returns_pure]

theorem closes_plain (h : Rest raw i (c :: s)) (hq : c ≠ 34) (hs : c ≠ 92) (hn : Closes raw (i + 1) n) :
    Closes raw i n := by
  rw [Closes, closingQuote, if_pos h.lt, h.item, ok_bind, if_neg (by simpa using hq), if_neg (by simpa using hs)]
  exact hn.bind fun j hj => returns_pure.mpr hj

theorem closes_escape (h : Rest raw i (92 :: s)) (hn : Closes raw (i + 2) n) : Closes raw i n := by
  rw [Closes, closingQuote, if_pos h.lt, h.item, ok_bind, if_neg (by decide), if_pos (beq_self_eq_true _)]
  exact hn.bind fun j hj => returns_pure.mpr hj

end

theorem closes_run {raw q s : Bytes} (hq : ∀ b ∈ q, b ≠ 34 ∧ b ≠ 92) {n : Nat} : ∀ {i : Nat}, Rest raw i (q ++ s) →
    Closes raw (i + q.length) n → Closes raw i n := by
  induction q with
  | nil => exact fun _ hn => hn
  | cons b q ih =>
    intro i h hn
    rw [List.forall_mem_cons] at hq
    rw [List.length_cons, Nat.add_comm q.length, ← Nat.add_assoc] at hn
    exact closes_plain h hq.1.1 hq.1.2 (ih hq.2 h.cons hn)

/-- A character of a string, plain or escaped, holds no quote that would end
it. -/
theorem closes_piece {raw u t s : Bytes} {i n : Nat} (hp : Piece u t) (h : Rest raw i (t ++ s))
    (hn : Closes raw (i + t.length) n) : Closes raw i n := by
  cases hp with
  | plain _ hq hs => exact closes_plain h hq hs hn
  | escape _ => exact closes_escape h hn
  | @unit q m hq _ =>
    have hrest : Rest raw (i + 2) (q ++ s) := h.cons.cons
    exact closes_escape h (closes_run (JsonText.codeUnit_plain hq) hrest (by
      rw [Nat.add_assoc, Nat.add_comm 2]
      exact hn))
  | @pair q r m m' hq hr _ _ _ _ =>
    have hrest : Rest raw (i + 2) (q ++ (92 :: 117 :: r ++ s)) := by
      have hboth : Rest raw (i + 1 + 1) ((q ++ 92 :: 117 :: r) ++ s) := h.cons.cons
      rwa [List.append_assoc] at hboth
    have hsecond : Rest raw (i + 2 + q.length + 2) (r ++ s) := hrest.append.cons.cons
    refine closes_escape h (closes_run (JsonText.codeUnit_plain hq) hrest (closes_escape hrest.append
      (closes_run (JsonText.codeUnit_plain hr) hsecond ?_)))
    have hlength : i + 2 + q.length + 2 + r.length = i + (92 :: 117 :: (q ++ 92 :: 117 :: r)).length := by
      simp only [List.length_cons, List.length_append]
      omega
    rw [hlength]
    exact hn

theorem closes_pieces {raw us ts : Bytes} (hp : Pieces us ts) : ∀ {i : Nat} {s : Bytes}, Rest raw i (ts ++ 34 :: s) →
    Closes raw i (i + ts.length) := by
  induction hp with
  | nil => exact fun h => closes_quote h
  | cons hp hs ih =>
    intro i s h
    rw [List.append_assoc] at h
    have hrest := ih h.append
    rw [Nat.add_assoc, ← List.length_append] at hrest
    exact closes_piece hp h hrest

/-- A string ends behind its quote. -/
theorem jsonStringEnd_quoted {raw q s : Bytes} {k : String} {i : Nat} (hq : Quoted k q) (h : Rest raw i (q ++ s)) :
    ∃ j : { j : Nat // i < j }, jsonStringEnd raw i = .ok (some j) ∧ j.val = i + q.length := by
  obtain ⟨t, ht, rfl⟩ := hq
  have hrest : Rest raw (i + 1) (t ++ 34 :: s) := by
    have hinner : Rest raw (i + 1) ((t ++ [34]) ++ s) := h.cons
    rwa [List.append_assoc] at hinner
  obtain ⟨j, hj, hn⟩ := closes_pieces ht hrest
  have hlt : j.val < raw.length := by
    rw [hn]
    exact hrest.append.lt
  refine ⟨⟨j.val + 1, by have := j.property; omega⟩, ?_, ?_⟩
  · rw [jsonStringEnd, hj, ok_bind, if_pos hlt]
    rfl
  · simp only [List.length_cons, List.length_append, List.length_nil]
    omega

/-! ## One step of the scanner -/

section

variable {X : Crates} {raw s : Bytes} {c : UInt8} {i : Nat} {depth : Int} {keys : List String}

/-- A bracket opens one level, whether of an object or of an array; the scanner
does not tell them apart, and on a text it need not. -/
theorem keys_open (h : Rest raw i (c :: s)) (hc : c = 123 ∨ c = 91) :
    keysFrom X raw i depth keys = keysFrom X raw (i + 1) (depth + 1) keys := by
  rw [keysFrom, if_pos h.lt, h.item, ok_bind, if_pos (by simpa using hc)]

theorem keys_close (h : Rest raw i (c :: s)) (hc : c = 125 ∨ c = 93) :
    keysFrom X raw i depth keys = keysFrom X raw (i + 1) (depth - 1) keys := by
  rw [keysFrom, if_pos h.lt, h.item, ok_bind, if_neg (by rcases hc with rfl | rfl <;> decide),
    if_pos (by simpa using hc)]

/-- Neither a bracket nor a quote. -/
def Inert (c : UInt8) : Prop := c ≠ 123 ∧ c ≠ 91 ∧ c ≠ 125 ∧ c ≠ 93 ∧ c ≠ 34

theorem keys_inert (h : Rest raw i (c :: s)) (hc : Inert c) :
    keysFrom X raw i depth keys = keysFrom X raw (i + 1) depth keys := by
  obtain ⟨h1, h2, h3, h4, h5⟩ := hc
  rw [keysFrom, if_pos h.lt, h.item, ok_bind, if_neg (by simp [h1, h2]), if_neg (by simp [h3, h4]),
    if_neg (by simp [h5])]

/-- The first byte behind white space. -/
def ahead (s : Bytes) : Option UInt8 := (s.dropWhile asciiWhitespace).head?

/-- A string is stepped over. It is a key exactly if a colon follows and one
bracket is open, and then it must be new. -/
theorem keys_string {q : Bytes} {k : String} (hq : Quoted k q) (h : Rest raw i (q ++ s)) :
    keysFrom X raw i depth keys =
      if depth == 1 && ahead s == some 58 then
        match jsonString X q with
        | none => .ok none
        | some key =>
          if keys.contains key then .ok none else keysFrom X raw (i + q.length) depth (key :: keys)
      else keysFrom X raw (i + q.length) depth keys := by
  obtain ⟨j, hj, hn⟩ := jsonStringEnd_quoted hq h
  have hhead : Rest raw i (34 :: (q.tail ++ s)) := by
    obtain ⟨t, -, rfl⟩ := hq
    exact h
  have hahead : lookAhead raw (i + q.length) = ahead s := by
    rw [lookAhead, h.append, ahead]
  rw [keysFrom, if_pos hhead.lt, hhead.item, ok_bind, if_neg (by decide), if_neg (by decide),
    if_pos (beq_self_eq_true _), hj, ok_bind]
  simp only [hn, hahead, h.taken]
  rfl

end

/-! ## Nested values -/

theorem ahead_cons {w : Bytes} (hw : Space w) {c : UInt8} (hc : asciiWhitespace c = false) (s : Bytes) :
    ahead (w ++ c :: s) = some c := by
  have hspace : ∀ b ∈ w, asciiWhitespace b = true := by
    intro b hb
    have h := hw b hb
    simp only [JsonText.isSpace, Bool.or_eq_true, beq_iff_eq] at h
    rcases h with ((rfl | rfl) | rfl) | rfl <;> rfl
  rw [ahead, List.dropWhile_append_of_pos hspace, List.dropWhile_cons_of_neg (by simp [hc]), List.head?_cons]

theorem ahead_ne {w : Bytes} (hw : Space w) {c : UInt8} (hc : asciiWhitespace c = false) (hne : c ≠ 58) {s : Bytes} :
    ahead (w ++ c :: s) ≠ some 58 := by
  rw [ahead_cons hw hc]
  exact fun h => hne (Option.some.inj h)

section

variable {X : Crates} {raw : Bytes} {keys : List String}

/-- Bytes that are neither brackets nor quotes are passed over one by one. -/
theorem keys_run {q s : Bytes} {depth : Int} (hq : ∀ c ∈ q, Inert c) : ∀ {i : Nat}, Rest raw i (q ++ s) →
    keysFrom X raw i depth keys = keysFrom X raw (i + q.length) depth keys := by
  induction q with
  | nil => exact fun _ => rfl
  | cons c q ih =>
    intro i h
    rw [List.forall_mem_cons] at hq
    rw [keys_inert h hq.1, ih hq.2 h.cons, List.length_cons, Nat.add_assoc, Nat.add_comm 1]

theorem inert_space {w : Bytes} (hw : Space w) : ∀ c ∈ w, Inert c := by
  intro c hc
  have h := hw c hc
  simp only [JsonText.isSpace, Bool.or_eq_true, beq_iff_eq] at h
  rcases h with ((rfl | rfl) | rfl) | rfl <;> simp [Inert]

theorem inert_number {c : UInt8} (h : JsonText.numberByte c = true) : Inert c := by
  refine ⟨?_, ?_, ?_, ?_, ?_⟩ <;> rintro rfl <;> exact absurd h (by decide)

theorem keys_space {w s : Bytes} {i : Nat} {depth : Int} (hw : Space w) (h : Rest raw i (w ++ s)) :
    keysFrom X raw i depth keys = keysFrom X raw (i + w.length) depth keys := keys_run (inert_space hw) h

/-- A string that is no key of the outermost object: it stands deeper, or no
colon follows it. -/
theorem keys_inside {q s : Bytes} {k : String} {i : Nat} {depth : Int} (hq : Quoted k q) (h : Rest raw i (q ++ s))
    (hkey : depth ≠ 1 ∨ ahead s ≠ some 58) :
    keysFrom X raw i depth keys = keysFrom X raw (i + q.length) depth keys := by
  rw [keys_string hq h, if_neg]
  rw [Bool.and_eq_true, beq_iff_eq, beq_iff_eq]
  rintro ⟨hd, ha⟩
  exact hkey.elim (· hd) (· ha)

mutual
/-- A value below the outermost object is passed over: its brackets cancel out,
and its strings are at a depth where there are no keys. By induction on the
grammar, with items and members beside it. -/
theorem keys_val : ∀ {x : JsonText.Doc} {b : Bytes}, Val x b → ∀ {i : Nat} {depth : Int} {s : Bytes}, 1 ≤ depth →
    Rest raw i (b ++ s) → ahead s ≠ some 58 →
    keysFrom X raw i depth keys = keysFrom X raw (i + b.length) depth keys
  | _, _, .null, _, _, _, _, h, _ => keys_run (by simp [JsonText.nullText, Inert]) h
  | _, _, .bool b, _, _, _, _, h, _ => keys_run (by cases b <;> simp [JsonText.boolText, Inert]) h
  | _, _, .number hn, _, _, _, _, h, _ =>
    keys_run (fun c hc => inert_number ((JsonText.numeral_bytes hn).2 c hc)) h
  | _, _, .string hq, _, _, _, _, h, hs => keys_inside hq h (.inr hs)
  | _, _, @Val.emptyArray w hw, i, depth, s, _, h, _ => by
    simp only [List.cons_append, List.append_assoc, List.nil_append] at h
    rw [keys_open h (.inr rfl), keys_space hw h.cons, keys_close h.cons.append (.inr rfl), Int.add_sub_cancel]
    congr 1
    simp only [List.length_cons, List.length_append, List.length_nil]
    omega
  | _, _, @Val.array xs b hb, i, depth, s, hd, h, _ => by
    rw [keys_open h (.inr rfl), keys_items hb (by omega) h.cons, Int.add_sub_cancel, List.length_cons, Nat.add_assoc,
      Nat.add_comm 1]
  | _, _, @Val.emptyObject w hw, i, depth, s, _, h, _ => by
    simp only [List.cons_append, List.append_assoc, List.nil_append] at h
    rw [keys_open h (.inl rfl), keys_space hw h.cons, keys_close h.cons.append (.inl rfl), Int.add_sub_cancel]
    congr 1
    simp only [List.length_cons, List.length_append, List.length_nil]
    omega
  | _, _, @Val.object m b hb, i, depth, s, hd, h, _ => by
    rw [keys_open h (.inl rfl), keys_members hb (by omega) h.cons, Int.add_sub_cancel, List.length_cons, Nat.add_assoc,
      Nat.add_comm 1]
theorem keys_items : ∀ {xs : List JsonText.Doc} {b : Bytes}, Items xs b → ∀ {i : Nat} {depth : Int} {s : Bytes},
    1 < depth → Rest raw i (b ++ s) → keysFrom X raw i depth keys = keysFrom X raw (i + b.length) (depth - 1) keys
  | _, _, @Items.last x w b z hw hb hz, i, depth, s, hd, h => by
    simp only [List.cons_append, List.append_assoc, List.nil_append] at h
    rw [keys_space hw h, keys_val hb (by omega) h.append (ahead_ne hz (by decide) (by decide)),
      keys_space hz h.append.append, keys_close h.append.append.append (.inr rfl)]
    congr 1
    simp only [List.length_append, List.length_cons, List.length_nil]
    omega
  | _, _, @Items.cons x xs w b z bs hw hb hz hs, i, depth, s, hd, h => by
    simp only [List.cons_append, List.append_assoc] at h
    rw [keys_space hw h, keys_val hb (by omega) h.append (ahead_ne hz (by decide) (by decide)),
      keys_space hz h.append.append, keys_inert h.append.append.append (by simp [Inert]),
      keys_items hs hd h.append.append.append.cons]
    congr 1
    simp only [List.length_append, List.length_cons]
    omega
theorem keys_members : ∀ {m : List (String × JsonText.Doc)} {b : Bytes}, Members m b →
    ∀ {i : Nat} {depth : Int} {s : Bytes}, 1 < depth → Rest raw i (b ++ s) →
    keysFrom X raw i depth keys = keysFrom X raw (i + b.length) (depth - 1) keys
  | _, _, @Members.last k x w kb u v b z hw hk hu hv hb hz, i, depth, s, hd, h => by
    simp only [List.cons_append, List.append_assoc, List.nil_append] at h
    have hvalue := h.append.append.append.cons
    rw [keys_space hw h, keys_inside hk h.append (.inl (by omega)), keys_space hu h.append.append,
      keys_inert h.append.append.append (by simp [Inert]), keys_space hv hvalue,
      keys_val hb (by omega) hvalue.append (ahead_ne hz (by decide) (by decide)), keys_space hz hvalue.append.append,
      keys_close hvalue.append.append.append (.inl rfl)]
    congr 1
    simp only [List.length_append, List.length_cons, List.length_nil]
    omega
  | _, _, @Members.cons k x m w kb u v b z bs hw hk hu hv hb hz hs, i, depth, s, hd, h => by
    simp only [List.cons_append, List.append_assoc] at h
    have hvalue := h.append.append.append.cons
    rw [keys_space hw h, keys_inside hk h.append (.inl (by omega)), keys_space hu h.append.append,
      keys_inert h.append.append.append (by simp [Inert]), keys_space hv hvalue,
      keys_val hb (by omega) hvalue.append (ahead_ne hz (by decide) (by decide)), keys_space hz hvalue.append.append,
      keys_inert hvalue.append.append.append (by simp [Inert]), keys_members hs hd hvalue.append.append.append.cons]
    congr 1
    simp only [List.length_append, List.length_cons]
    omega
end

/-! ## The outermost object -/

/-- Keys recorded one after the other, until one of them repeats. -/
def record : List String → List String → Option (List String)
  | [], keys => some keys
  | k :: ks, keys => if keys.contains k then none else record ks (k :: keys)

/-- What the scanner returns once the outermost object is recorded. -/
def onward (X : Crates) (raw : Bytes) (i : Nat) : Option (List String) → Run (Option (List String))
  | none => .ok none
  | some keys => keysFrom X raw i 0 keys

/-- Recording succeeds exactly if no key repeats, and keeps all of them. -/
theorem record_eq_some {ks : List String} {keys out : List String} :
    record ks keys = some out ↔ ks.Nodup ∧ (∀ k ∈ ks, k ∉ keys) ∧ out = ks.reverse ++ keys := by
  induction ks generalizing keys with
  | nil => simp [record, eq_comm]
  | cons k ks ih =>
    rw [record]
    by_cases hk : k ∈ keys
    · rw [if_pos (List.contains_iff_mem.mpr hk)]
      simp [hk]
    · rw [if_neg (by simpa using hk), ih]
      rw [List.nodup_cons, List.forall_mem_cons]
      simp only [List.mem_cons, not_or, List.reverse_cons, List.append_assoc, List.singleton_append]
      constructor
      · rintro ⟨hnodup, hfresh, rfl⟩
        exact ⟨⟨fun hmem => (hfresh k hmem).1 rfl, hnodup⟩, ⟨hk, fun j hj => (hfresh j hj).2⟩, rfl⟩
      · rintro ⟨⟨hmem, hnodup⟩, ⟨-, hfresh⟩, rfl⟩
        exact ⟨hnodup, fun j hj => ⟨fun he => hmem (he ▸ hj), hfresh j hj⟩, rfl⟩

section

variable {number : Numbers} {limits : JsonText.Doc → Prop} (hparse : Parses X.fromSlice number limits)
  (hstring : ∀ k, limits (.string k))
include hparse hstring

/-- The parser reads a key back. -/
theorem jsonString_quoted {q : Bytes} {k : String} (hq : Quoted k q) : jsonString X q = some k := by
  have hread : X.fromSlice q = some (.string k) := (hparse q _).mpr ⟨.string k, (Val.string hq).text, hstring k, rfl⟩
  rw [jsonString, hread]

theorem keys_name {q u s : Bytes} {k : String} {i : Nat} (hq : Quoted k q) (hu : Space u)
    (h : Rest raw i (q ++ (u ++ 58 :: s))) : keysFrom X raw i 1 keys =
      if keys.contains k then .ok none else keysFrom X raw (i + q.length) 1 (k :: keys) := by
  rw [keys_string hq h, ahead_cons hu rfl, jsonString_quoted hparse hstring hq]
  rfl

/-- The members of the outermost object: each key is recorded, and its value is
passed over. -/
theorem keys_outermost : ∀ {m : List (String × JsonText.Doc)} {b : Bytes}, Members m b →
    ∀ {i : Nat} {keys : List String} {s : Bytes}, Rest raw i (b ++ s) →
    keysFrom X raw i 1 keys = onward X raw (i + b.length) (record (m.map Prod.fst) keys)
  | _, _, @Members.last k x w kb u v b z hw hk hu hv hb hz, i, keys, s, h => by
    simp only [List.cons_append, List.append_assoc, List.nil_append] at h
    have hvalue := h.append.append.append.cons
    rw [keys_space hw h, keys_name hparse hstring hk hu h.append, List.map_cons, List.map_nil, record]
    split
    · rfl
    · rw [keys_space hu h.append.append, keys_inert h.append.append.append (by simp [Inert]), keys_space hv hvalue,
        keys_val hb (by omega) hvalue.append (ahead_ne hz (by decide) (by decide)), keys_space hz hvalue.append.append,
        keys_close hvalue.append.append.append (.inl rfl)]
      show _ = keysFrom X raw _ 0 _
      congr 1
      simp only [List.length_append, List.length_cons, List.length_nil]
      omega
  | _, _, @Members.cons k x m w kb u v b z bs hw hk hu hv hb hz hs, i, keys, s, h => by
    simp only [List.cons_append, List.append_assoc] at h
    have hvalue := h.append.append.append.cons
    rw [keys_space hw h, keys_name hparse hstring hk hu h.append, List.map_cons, record]
    split
    · rfl
    · rw [keys_space hu h.append.append, keys_inert h.append.append.append (by simp [Inert]), keys_space hv hvalue,
        keys_val hb (by omega) hvalue.append (ahead_ne hz (by decide) (by decide)), keys_space hz hvalue.append.append,
        keys_inert hvalue.append.append.append (by simp [Inert]), keys_outermost hs hvalue.append.append.append.cons]
      congr 1
      simp only [List.length_append, List.length_cons]
      omega

/-- What the scanner records of an object: its names, in the order of the text,
if no name repeats. -/
theorem keys_text {m : List (String × JsonText.Doc)} (h : Text (.object m) raw) :
    topLevelJsonKeys X raw = .ok (record (m.map Prod.fst) []) := by
  obtain ⟨w, b, z, hw, hval, hz, hraw⟩ := h
  have hstart : Rest raw 0 (w ++ (b ++ z)) := hraw
  have hend : ∀ {i : Nat}, Rest raw i (z ++ []) → ∀ keys, keysFrom X raw i 0 keys = .ok (some keys) := by
    intro i hi keys
    have hout : ¬ i + z.length < raw.length := by
      have hdrop := hi.append
      rw [Rest, List.drop_eq_nil_iff] at hdrop
      omega
    rw [keys_space hz hi, keysFrom, if_neg hout]
    rfl
  rw [topLevelJsonKeys, keys_space hw hstart]
  have hb := hstart.append
  rw [← List.append_nil z] at hb
  cases hval with
  | @emptyObject w' hw' =>
    simp only [List.cons_append, List.append_assoc, List.nil_append] at hb
    rw [keys_open hb (.inl rfl), keys_space hw' hb.cons, keys_close hb.cons.append (.inl rfl)]
    exact hend hb.cons.append.cons []
  | @object _ b h =>
    rw [keys_open hb (.inl rfl), Int.zero_add, keys_outermost hparse hstring h hb.cons]
    cases hrecord : record (m.map Prod.fst) [] with
    | none => rfl
    | some keys => exact hend hb.cons.append keys

end

end

/-! ## Exactness -/

def clientNames : List String := ["type", "challenge", "origin", "crossOrigin"]

theorem clientNames_nodup : clientNames.Nodup := by decide

/-- Four names without repetition that include the four of the client data are
these four, so the length and the lookups of the source are enough. -/
theorem names_exact {ks : List String} (hlength : ks.length = 4) (hall : ∀ k ∈ clientNames, k ∈ ks) (k : String) :
    k ∈ ks ↔ k ∈ clientNames := by
  have hsub : clientNames.Subperm ks := List.subperm_of_subset clientNames_nodup hall
  have hperm : clientNames.Perm ks := hsub.perm_of_length_le (by rw [hlength]; rfl)
  exact hperm.mem_iff.symm

theorem names_length {ks : List String} (hnodup : ks.Nodup) (hall : ∀ k, k ∈ ks ↔ k ∈ clientNames) : ks.length = 4 :=
  ((List.perm_ext_iff_of_nodup hnodup clientNames_nodup).mpr hall).length_eq

theorem mem_treeMembers {number : Numbers} {k : String} {x : JsonText.Doc} :
    ∀ {m : List (String × JsonText.Doc)} {ys : List (String × Value)}, treeMembers number m = some ys → (k, x) ∈ m →
    ∃ v, value number x = some v ∧ (k, v) ∈ collapseMembers ys
  | (j, y) :: m, _, h, hmem => by
    simp only [treeMembers, Option.bind_eq_bind, Option.bind_eq_some_iff, Option.pure_def, Option.some.injEq] at h
    obtain ⟨v, hv, vs, hvs, rfl⟩ := h
    rw [collapseMembers]
    rcases List.mem_cons.mp hmem with he | hmem
    · cases he
      exact ⟨collapse v, by rw [value, hv]; rfl, List.mem_cons_self⟩
    · obtain ⟨w, hw, hin⟩ := mem_treeMembers hvs hmem
      exact ⟨w, hw, List.mem_cons_of_mem _ hin⟩

/-- The object that is read of a text. -/
structure Reads (number : Numbers) (m : List (String × JsonText.Doc)) (o : List (String × Value)) : Prop where
  sorted : SortedMap.Sorted o
  keys : ∀ k, k ∈ o.map Prod.fst ↔ k ∈ m.map Prod.fst
  values : (m.map Prod.fst).Nodup → ∀ k x, (k, x) ∈ m → ∃ v, value number x = some v ∧ o.lookup k = some v

theorem reads_of_value {number : Numbers} {m : List (String × JsonText.Doc)} {o : List (String × Value)}
    (h : value number (.object m) = some (.object o)) : Reads number m o := by
  rw [value, tree, Option.map_map, Option.map_eq_some_iff] at h
  obtain ⟨ys, hys, h⟩ := h
  rw [Function.comp_apply, collapse, Value.object.injEq] at h
  subst h
  have hkeys := treeMembers_keys hys
  have hsorted := SortedMap.sorted_ofList (collapseMembers ys)
  refine ⟨hsorted, fun k => ?_, fun hnodup k x hmem => ?_⟩
  · rw [SortedMap.mem_keys_ofList, hkeys]
  · obtain ⟨v, hv, hin⟩ := mem_treeMembers hys hmem
    rw [← hkeys] at hnodup
    exact ⟨v, hv, hsorted.lookup_iff.mpr ((SortedMap.mem_ofList hnodup).mpr hin)⟩

section

variable {X : Crates} {number : Numbers} {limits : JsonText.Doc → Prop} (hparse : Parses X.fromSlice number limits)
  (hstring : ∀ k, limits (.string k))
include hparse hstring

/-- On the text of an object that the parser reads, the source accepts exactly
if the scanner has recorded four names and the four members are there. -/
theorem strictClientJson_iff {raw : Bytes} {m : List (String × JsonText.Doc)} {o p : List (String × Value)}
    (htext : Text (.object m) raw) (hread : X.fromSlice raw = some (.object p)) :
    strictClientJson X raw = (.ok (some o) : Run (Option (List (String × Value)))) ↔
      p = o ∧ p.length = 4 ∧ (∀ k ∈ clientNames, (p.lookup k).isSome = true) ∧ (m.map Prod.fst).Nodup ∧ m.length = 4 := by
  have hrun : strictClientJson X raw = (.ok
      (if p.length == 4 && clientNames.all fun k => (p.lookup k).isSome then
        (record (m.map Prod.fst) []).bind fun keys => if keys.length == 4 then some p else none
      else none) : Run (Option (List (String × Value)))) := by
    rw [strictClientJson, hread]
    show (if p.length == 4 && clientNames.all fun k => (p.lookup k).isSome then _ else failure) = _
    split
    · rw [keys_text hparse hstring htext]
      cases record (m.map Prod.fst) [] with
      | none => rfl
      | some keys =>
        show (if keys.length == 4 then pure p else failure) = _
        rw [Option.bind_some]
        split <;> rfl
    · rfl
  rw [hrun, Except.ok.injEq, Option.ite_none_right_eq_some, Bool.and_eq_true, beq_iff_eq, List.all_eq_true,
    Option.bind_eq_some_iff]
  simp only [record_eq_some, Option.ite_none_right_eq_some, beq_iff_eq, Option.some.injEq, List.not_mem_nil,
    not_false_eq_true, implies_true, true_and, List.append_nil]
  constructor
  · rintro ⟨⟨hlength, hall⟩, keys, ⟨hnodup, rfl⟩, hfour, rfl⟩
    rw [List.length_reverse, List.length_map] at hfour
    exact ⟨rfl, hlength, hall, hnodup, hfour⟩
  · rintro ⟨rfl, hlength, hall, hnodup, hfour⟩
    exact ⟨⟨hlength, hall⟩, _, ⟨hnodup, rfl⟩, by rw [List.length_reverse, List.length_map, hfour], rfl⟩

/-- `strict_client_json` accepts exactly the objects with the four members, each
written once, and returns the object that the parser makes of the text. No
member that is returned was overwritten by another. -/
theorem client_exact (raw : Bytes) (o : List (String × Value)) :
    strictClientJson X raw = (.ok (some o) : Run (Option (List (String × Value)))) ↔
      ∃ m, Text (.object m) raw ∧ limits (.object m) ∧ (m.map Prod.fst).Nodup ∧
        (∀ k, k ∈ m.map Prod.fst ↔ k ∈ ["type", "challenge", "origin", "crossOrigin"]) ∧
        value number (.object m) = some (.object o) ∧
        ∀ k x, (k, x) ∈ m → ∃ v, value number x = some v ∧ o.lookup k = some v := by
  constructor
  · intro h
    obtain ⟨p, hp⟩ : ∃ p, X.fromSlice raw = some (.object p) := by
      rw [strictClientJson] at h
      split at h
      · exact ⟨_, ‹_›⟩
      · cases h
    obtain ⟨d, htext, hlimits, hd⟩ := (hparse raw _).mp hp
    obtain ⟨m, rfl⟩ : ∃ m, d = .object m := by
      rw [value, Option.map_eq_some_iff] at hd
      obtain ⟨x, hx, hcollapse⟩ := hd
      cases d with
      | object m => exact ⟨m, rfl⟩
      | _ =>
        simp only [tree, Option.map_eq_some_iff, Option.some.injEq] at hx
        first
        | subst hx
          cases hcollapse
        | obtain ⟨y, -, rfl⟩ := hx
          cases hcollapse
    obtain ⟨rfl, -, hall, hnodup, hfour⟩ := (strictClientJson_iff hparse hstring htext hp).mp h
    have hreads := reads_of_value hd
    refine ⟨m, htext, hlimits, hnodup, names_exact (by rw [List.length_map, hfour]) fun k hk => ?_, hd,
      hreads.values hnodup⟩
    exact (hreads.keys k).mp (SortedMap.mem_keys.mpr (hall k hk))
  · rintro ⟨m, htext, hlimits, hnodup, hnames, hd, -⟩
    have hreads := reads_of_value hd
    have hkeys : ∀ k, k ∈ o.map Prod.fst ↔ k ∈ clientNames := fun k => (hreads.keys k).trans (hnames k)
    have hsorted : (o.map Prod.fst).Nodup := hreads.sorted.keys.imp ne_of_lt
    have hlength := names_length hsorted hkeys
    have hfour := names_length hnodup hnames
    rw [List.length_map] at hlength hfour
    refine (strictClientJson_iff hparse hstring htext ((hparse raw _).mpr ⟨_, htext, hlimits, hd⟩)).mpr
      ⟨rfl, hlength, fun k hk => ?_, hnodup, hfour⟩
    exact SortedMap.mem_keys.mp ((hkeys k).mpr hk)

end

/-! ## An example -/

/-- A byte that needs no escape. -/
def plain (b : UInt8) : Bool := decide (32 ≤ b) && b != 34 && b != 92

theorem pieces_plain {us : Bytes} (h : us.all plain = true) : Pieces us us := by
  induction us with
  | nil => exact .nil
  | cons b us ih =>
    simp only [List.all_cons, Bool.and_eq_true, plain, decide_eq_true_eq, bne_iff_ne] at h
    obtain ⟨⟨⟨hb, hq⟩, hs⟩, hrest⟩ := h
    exact .cons (.plain hb hq hs) (ih hrest)

def quoted (k : String) : Bytes := 34 :: (JsonText.utf8 k ++ [34])

theorem quoted_quoted {k : String} (h : (JsonText.utf8 k).all plain = true) : Quoted k (quoted k) :=
  ⟨_, pieces_plain h, rfl⟩

/-- `"k":b` -/
def membersText (k : String) (b r : Bytes) : Bytes := quoted k ++ 58 :: (b ++ r)

def nestedText : Bytes := 123 :: membersText "origin" JsonText.nullText [125]

/-- A name of the outermost object is repeated below it. -/
def clientText : Bytes :=
  123 :: membersText "type" JsonText.nullText (44 :: membersText "challenge" JsonText.nullText
    (44 :: membersText "origin" nestedText (44 :: membersText "crossOrigin" JsonText.nullText [125])))

theorem clientText_text : Text (.object [("type", .null), ("challenge", .null), ("origin", .object [("origin", .null)]),
    ("crossOrigin", .null)]) clientText := by
  have hspace := JsonText.space_nil
  have hlast : ∀ {k : String} {x : JsonText.Doc} {b : Bytes}, Quoted k (quoted k) → Val x b →
      Members [(k, x)] (membersText k b [125]) := fun hk h => .last hspace hk hspace hspace h hspace
  have hcons : ∀ {k : String} {x : JsonText.Doc} {b : Bytes} {m : List (String × JsonText.Doc)} {bs : Bytes},
      Quoted k (quoted k) → Val x b → Members m bs → Members ((k, x) :: m) (membersText k b (44 :: bs)) :=
    fun hk h hs => .cons hspace hk hspace hspace h hspace hs
  have hnested : Val (.object [("origin", .null)]) nestedText :=
    .object (hlast (quoted_quoted rfl) .null)
  have hmembers := hcons (@quoted_quoted "type" rfl) .null
    (hcons (@quoted_quoted "challenge" rfl) .null
      (hcons (@quoted_quoted "origin" rfl) hnested
        (hlast (@quoted_quoted "crossOrigin" rfl) .null)))
  exact (Val.object hmembers).text

theorem clientText_read : strictClientJson { L1.Reference.blank with fromSlice := reader held Shallow } clientText =
    (.ok (some (SortedMap.ofList [("type", .null), ("challenge", .null),
      ("origin", .object (SortedMap.ofList [("origin", .null)])), ("crossOrigin", .null)])) :
      Run (Option (List (String × Value)))) := by
  have hvalue : value held (.object [("type", .null), ("challenge", .null), ("origin", .object [("origin", .null)]),
      ("crossOrigin", .null)]) = some (.object (SortedMap.ofList [("type", .null), ("challenge", .null),
        ("origin", .object (SortedMap.ofList [("origin", .null)])), ("crossOrigin", .null)])) := rfl
  have hnodup : (["type", "challenge", "origin", "crossOrigin"] : List String).Nodup := clientNames_nodup
  exact (client_exact (X := { L1.Reference.blank with fromSlice := reader held Shallow })
    (reader_parses held Shallow) (fun k => (by decide : 0 < 128)) clientText _).mpr
    ⟨_, clientText_text, by decide, hnodup, fun k => Iff.rfl, hvalue, (reads_of_value hvalue).values hnodup⟩

end SwarrmVerify.L4.Handshake.ClientData
