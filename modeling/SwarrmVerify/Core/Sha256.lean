import Mathlib.Tactic
import SwarrmVerify.Core.Octets

/-!
# SHA-256

An executable SHA-256 on byte lists. Words are natural numbers below `2^32`,
and every new word goes through `force`, so that evaluation by the kernel
computes it once instead of carrying it around unevaluated.

The message schedule has sixty-four words, each from four of the sixteen before
it. Kept as a whole it is a list that the kernel walks from its head at every
round; kept as a window of the last sixteen it is a list of constant length.
The two are one digest (`windowDigest_eq`), by a step lemma for one round and
an induction over the rounds.

* `digest_length`: a digest has 32 bytes.
* `schedule_slide`: the schedule from a place on, by the window there.
* `windowDigest_eq`: the digest over a window of the schedule, which evaluates
  faster.
* `memo_eq`: a table of known values in front of a function changes nothing.
-/
namespace Sha256

/-- `f n`, with `n` computed first. -/
def force {α : Type} (n : Nat) (f : Nat → α) : α :=
  match n with
  | 0 => f 0
  | k + 1 => f (k + 1)

def word (n : Nat) : Nat := n % 4294967296

/-- The word twice in a row; shifted right, its low half is the rotation. -/
def twice (x : Nat) : Nat := x * 4294967297

/-- First 32 bits of the fractional parts of the cube roots of the first 64 primes. -/
def roundConstants : List Nat :=
  [0x428a2f98, 0x71374491, 0xb5c0fbcf, 0xe9b5dba5, 0x3956c25b, 0x59f111f1, 0x923f82a4, 0xab1c5ed5,
    0xd807aa98, 0x12835b01, 0x243185be, 0x550c7dc3, 0x72be5d74, 0x80deb1fe, 0x9bdc06a7, 0xc19bf174,
    0xe49b69c1, 0xefbe4786, 0x0fc19dc6, 0x240ca1cc, 0x2de92c6f, 0x4a7484aa, 0x5cb0a9dc, 0x76f988da,
    0x983e5152, 0xa831c66d, 0xb00327c8, 0xbf597fc7, 0xc6e00bf3, 0xd5a79147, 0x06ca6351, 0x14292967,
    0x27b70a85, 0x2e1b2138, 0x4d2c6dfc, 0x53380d13, 0x650a7354, 0x766a0abb, 0x81c2c92e, 0x92722c85,
    0xa2bfe8a1, 0xa81a664b, 0xc24b8b70, 0xc76c51a3, 0xd192e819, 0xd6990624, 0xf40e3585, 0x106aa070,
    0x19a4c116, 0x1e376c08, 0x2748774c, 0x34b0bcb5, 0x391c0cb3, 0x4ed8aa4a, 0x5b9cca4f, 0x682e6ff3,
    0x748f82ee, 0x78a5636f, 0x84c87814, 0x8cc70208, 0x90befffa, 0xa4506ceb, 0xbef9a3f7, 0xc67178f2]

/-- The eight working variables. -/
structure Regs where
  a : Nat
  b : Nat
  c : Nat
  d : Nat
  e : Nat
  f : Nat
  g : Nat
  h : Nat

/-- First 32 bits of the fractional parts of the square roots of the first 8 primes. -/
def Regs.initial : Regs :=
  ⟨0x6a09e667, 0xbb67ae85, 0x3c6ef372, 0xa54ff53a, 0x510e527f, 0x9b05688c, 0x1f83d9ab, 0x5be0cd19⟩

/-- One round, on the sum of its constant and its schedule word. -/
def round (s : Regs) (kw : Nat) : Regs :=
  force (twice s.e) fun ee =>
    force (twice s.a) fun aa =>
      force (s.h + word ((ee >>> 6) ^^^ (ee >>> 11) ^^^ (ee >>> 25)) +
          (s.g ^^^ (s.e &&& (s.f ^^^ s.g))) + kw) fun t1 =>
        force (word (t1 + word ((aa >>> 2) ^^^ (aa >>> 13) ^^^ (aa >>> 22)) +
            ((s.a &&& (s.b ||| s.c)) ||| (s.b &&& s.c)))) fun a =>
          force (word (s.d + t1)) fun e => ⟨a, s.a, s.b, s.c, e, s.e, s.f, s.g⟩

/-- The next word of the message schedule after those given, newest first. -/
def nextWord (w : List Nat) : Nat :=
  let x := twice (w.getD 1 0)
  let y := twice (w.getD 14 0)
  word (word ((x >>> 17) ^^^ (x >>> 19)) ^^^ (w.getD 1 0 >>> 10)) + w.getD 6 0 +
    (word ((y >>> 7) ^^^ (y >>> 18)) ^^^ (w.getD 14 0 >>> 3)) + w.getD 15 0

/-- `n` more words of the message schedule, newest first. -/
def schedule : Nat → List Nat → List Nat
  | 0, w => w
  | n + 1, w => force (word (nextWord w)) fun x => schedule n (x :: w)

/-- One block of sixteen words. -/
def compress (s : Regs) (w : List Nat) : Regs :=
  let t := (List.zipWith (· + ·) roundConstants (schedule 48 w.reverse).reverse).foldl round s
  force (word (s.a + t.a)) fun a =>
    force (word (s.b + t.b)) fun b =>
      force (word (s.c + t.c)) fun c =>
        force (word (s.d + t.d)) fun d =>
          force (word (s.e + t.e)) fun e =>
            force (word (s.f + t.f)) fun f =>
              force (word (s.g + t.g)) fun g => force (word (s.h + t.h)) fun h => ⟨a, b, c, d, e, f, g, h⟩

/-- Big-endian words; a rest shorter than a word is dropped. -/
def words : List UInt8 → List Nat
  | a :: b :: c :: d :: rest =>
    force (a.toNat * 16777216 + b.toNat * 65536 + c.toNat * 256 + d.toNat) fun w => w :: words rest
  | _ => []

/-- The low `k` bytes of a number, most significant first. -/
def bytesBE : Nat → Nat → List UInt8
  | 0, _ => []
  | k + 1, n => UInt8.ofNat (n >>> (8 * k)) :: bytesBE k n

theorem bytesBE_length (k n : Nat) : (bytesBE k n).length = k := by
  induction k with
  | zero => rfl
  | succ k ih => simp [bytesBE, ih]

/-- A one bit, zeros up to 56 modulo 64, and the length in bits. -/
def pad (m : List UInt8) : List UInt8 :=
  m ++ 128 :: (List.replicate ((119 - m.length % 64) % 64) 0 ++ bytesBE 8 (8 * m.length))

/-- `n` blocks of sixteen words. -/
def blocks : Nat → Regs → List Nat → Regs
  | 0, s, _ => s
  | n + 1, s, w => blocks n (compress s (w.take 16)) (w.drop 16)

def Regs.bytes (s : Regs) : List UInt8 :=
  bytesBE 4 s.a ++ bytesBE 4 s.b ++ bytesBE 4 s.c ++ bytesBE 4 s.d ++ bytesBE 4 s.e ++ bytesBE 4 s.f ++
    bytesBE 4 s.g ++ bytesBE 4 s.h

def digest (m : List UInt8) : List UInt8 :=
  let p := pad m
  (blocks (p.length / 64) .initial (words p)).bytes

theorem digest_length (m : List UInt8) : (digest m).length = 32 := by
  simp [digest, Regs.bytes, bytesBE_length]

example : digest [97, 98, 99] =
    bytesBE 32 0xba7816bf8f01cfea414140de5dae2223b00361a396177a9cb410ff61f20015ad := by decide +kernel

/-! ## Evaluation over a window

The schedule looks back sixteen words. Kept as a list, every look walks it; kept
as a window of sixteen values, evaluation by the kernel takes a third of the
time. The two compute the same digests, so that a known digest is checked over
the window.
-/

/-- `f n`, with `n` computed first. -/
def forced {α : Type} (n : Nat) (f : Nat → α) : α := Nat.rec (f 0) (fun k _ => f (k + 1)) n

@[simp] theorem forced_eq {α : Type} (n : Nat) (f : Nat → α) : forced n f = f n := by
  cases n <;> rfl

@[simp] theorem force_eq {α : Type} (n : Nat) (f : Nat → α) : force n f = f n := by
  cases n <;> rfl

/-- A round that takes the registers apart once. -/
def windowRound : Regs → Nat → Regs
  | ⟨a, b, c, d, e, f, g, h⟩, kw =>
    forced (twice e) fun ee =>
      forced (twice a) fun aa =>
        forced (h + word ((ee >>> 6) ^^^ (ee >>> 11) ^^^ (ee >>> 25)) + (g ^^^ (e &&& (f ^^^ g))) + kw) fun t1 =>
          forced (word (t1 + word ((aa >>> 2) ^^^ (aa >>> 13) ^^^ (aa >>> 22)) + ((a &&& (b ||| c)) ||| (b &&& c))))
            fun a' => forced (word (d + t1)) fun e' => ⟨a', a, b, c, e', e, f, g⟩

theorem windowRound_eq (s : Regs) (kw : Nat) : windowRound s kw = round s kw := by
  cases s
  simp only [windowRound, round, forced_eq, force_eq]

/-- The words of the window, oldest first, and `n` more. -/
def slide : Nat → Nat → Nat → Nat → Nat → Nat → Nat → Nat → Nat →
    Nat → Nat → Nat → Nat → Nat → Nat → Nat → Nat → List Nat
  | 0, w0, w1, w2, w3, w4, w5, w6, w7, w8, w9, w10, w11, w12, w13, w14, w15 =>
    [w0, w1, w2, w3, w4, w5, w6, w7, w8, w9, w10, w11, w12, w13, w14, w15]
  | n + 1, w0, w1, w2, w3, w4, w5, w6, w7, w8, w9, w10, w11, w12, w13, w14, w15 =>
    w0 :: forced (twice w14) fun x => forced (twice w1) fun y =>
      forced (word (word (word ((x >>> 17) ^^^ (x >>> 19)) ^^^ (w14 >>> 10)) + w9 +
        (word ((y >>> 7) ^^^ (y >>> 18)) ^^^ (w1 >>> 3)) + w0)) fun w16 =>
          slide n w1 w2 w3 w4 w5 w6 w7 w8 w9 w10 w11 w12 w13 w14 w15 w16

theorem schedule_slide (n w0 w1 w2 w3 w4 w5 w6 w7 w8 w9 w10 w11 w12 w13 w14 w15 : Nat) (rest : List Nat) :
    (schedule n (w15 :: w14 :: w13 :: w12 :: w11 :: w10 :: w9 :: w8 :: w7 :: w6 :: w5 :: w4 :: w3 :: w2 :: w1 ::
        w0 :: rest)).reverse =
      rest.reverse ++ slide n w0 w1 w2 w3 w4 w5 w6 w7 w8 w9 w10 w11 w12 w13 w14 w15 := by
  induction n generalizing w0 w1 w2 w3 w4 w5 w6 w7 w8 w9 w10 w11 w12 w13 w14 w15 rest with
  | zero => simp [schedule, slide]
  | succ n ih =>
    rw [schedule, force_eq, ih, List.reverse_cons, List.append_assoc, slide]
    simp only [forced_eq]
    rfl

def windowCompress (s : Regs) : List Nat → Regs
  | w0 :: w1 :: w2 :: w3 :: w4 :: w5 :: w6 :: w7 :: w8 :: w9 :: w10 :: w11 :: w12 :: w13 :: w14 :: w15 :: _ =>
    let words := slide 48 w0 w1 w2 w3 w4 w5 w6 w7 w8 w9 w10 w11 w12 w13 w14 w15
    let t := (List.zipWith (· + ·) roundConstants words).foldl windowRound s
    forced (word (s.a + t.a)) fun a =>
      forced (word (s.b + t.b)) fun b =>
        forced (word (s.c + t.c)) fun c =>
          forced (word (s.d + t.d)) fun d =>
            forced (word (s.e + t.e)) fun e =>
              forced (word (s.f + t.f)) fun f =>
                forced (word (s.g + t.g)) fun g => forced (word (s.h + t.h)) fun h => ⟨a, b, c, d, e, f, g, h⟩
  | w => compress s w

theorem windowCompress_eq (s : Regs) {w : List Nat} (hw : w.length ≤ 16) : windowCompress s w = compress s w := by
  unfold windowCompress
  split
  · rename_i w0 w1 w2 w3 w4 w5 w6 w7 w8 w9 w10 w11 w12 w13 w14 w15 rest
    have hrest : rest = [] := by
      simp only [List.length_cons] at hw
      exact List.eq_nil_of_length_eq_zero (by omega)
    have hround : windowRound = round := by
      funext s kw
      exact windowRound_eq s kw
    have hwords := schedule_slide 48 w0 w1 w2 w3 w4 w5 w6 w7 w8 w9 w10 w11 w12 w13 w14 w15 []
    rw [List.reverse_nil, List.nil_append] at hwords
    simp only [compress, force_eq, forced_eq, hround, hrest, ← hwords]
    rfl
  · rfl

/-- `n` blocks of sixteen words. -/
def windowBlocks : Nat → Regs → List Nat → Regs
  | 0, s, _ => s
  | n + 1, s, w => windowBlocks n (windowCompress s (w.take 16)) (w.drop 16)

theorem windowBlocks_eq (n : Nat) (s : Regs) (w : List Nat) : windowBlocks n s w = blocks n s w := by
  induction n generalizing s w with
  | zero => rfl
  | succ n ih => rw [windowBlocks, blocks, windowCompress_eq s (List.length_take_le ..), ih]

def windowDigest (m : List UInt8) : List UInt8 :=
  let p := pad m
  (windowBlocks (p.length / 64) .initial (words p)).bytes

theorem windowDigest_eq (m : List UInt8) : windowDigest m = digest m := by
  rw [windowDigest, digest, windowBlocks_eq]

/-! ## Known values -/

/-- `f` behind a table of known values. -/
def memo {α β : Type} [DecidableEq α] (known : List (α × β)) (f : α → β) (x : α) : β :=
  match known.find? fun p => p.1 = x with
  | some p => p.2
  | none => f x

theorem memo_eq {α β : Type} [DecidableEq α] {known : List (α × β)} {f : α → β}
    (h : ∀ p ∈ known, f p.1 = p.2) : memo known f = f := by
  funext x
  unfold memo
  split
  · rename_i p hp
    have hx : p.1 = x := by simpa using List.find?_some hp
    rw [← hx, h p (List.mem_of_find?_eq_some hp)]
  · rfl

end Sha256
