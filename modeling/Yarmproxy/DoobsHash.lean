import Yarmproxy.KeyLocator
import Mathlib.Data.BitVec
import Mathlib.SetTheory.Cardinal.Finite

/-! # The hash of the ring

`doobs_hash` takes a key in blocks of 12 bytes into a state of three words and mixes the state after
each block. Every step can be undone: so with the other bytes of a key fixed, the bytes of one block
reach every state exactly once, and the keys are spread over the ring evenly. -/
namespace Yarmproxy

/-- A `char`, which is signed, as a `ub4`. -/
def ub4 (b : UInt8) : UInt32 := b.toInt8.toInt32.toUInt32

/-- The state of the hash. -/
structure MixState where
  a : UInt32
  b : UInt32
  c : UInt32
  deriving DecidableEq, Repr

namespace MixState

/-- `a -= b; a -= c; a ^= (c >> n)` -/
def mixA (n : UInt32) (s : MixState) : MixState := { s with a := (s.a - s.b - s.c) ^^^ (s.c >>> n) }

/-- `b -= c; b -= a; b ^= (a << n)` -/
def mixB (n : UInt32) (s : MixState) : MixState := { s with b := (s.b - s.c - s.a) ^^^ (s.a <<< n) }

/-- `c -= a; c -= b; c ^= (b >> n)` -/
def mixC (n : UInt32) (s : MixState) : MixState := { s with c := (s.c - s.a - s.b) ^^^ (s.b >>> n) }

def mix (s : MixState) : MixState :=
  mixC 15 (mixB 10 (mixA 3 (mixC 5 (mixB 16 (mixA 12 (mixC 13 (mixB 8 (mixA 13 s))))))))

/-- `k[i] + ((ub4)k[i + 1] << 8) + ((ub4)k[i + 2] << 16) + ((ub4)k[i + 3] << 24)` -/
def word (k : Bytes) (i : ℕ) : UInt32 :=
  ub4 (k.getD i 0) + (ub4 (k.getD (i + 1) 0) <<< 8) + (ub4 (k.getD (i + 2) 0) <<< 16) +
    (ub4 (k.getD (i + 3) 0) <<< 24)

def add (s : MixState) (x y z : UInt32) : MixState := ⟨s.a + x, s.b + y, s.c + z⟩

def block (k : Bytes) (s : MixState) : MixState := s.add (word k 0) (word k 4) (word k 8)

def rounds : ℕ → Bytes → MixState → MixState
  | 0, _, s => s
  | n + 1, k, s => rounds n (k.drop 12) (mix (block k s))

/-- The switch on the number of bytes that are left, at most 11. Its cases fall through; a byte that
is not there adds nothing, and the first byte of `c` is that of the length. -/
def last (length : UInt32) (k : Bytes) (s : MixState) : MixState :=
  s.add (word k 0) (word k 4) (length + (ub4 (k.getD 8 0) <<< 8) + (ub4 (k.getD 9 0) <<< 16) +
    (ub4 (k.getD 10 0) <<< 24))

def hashed (k : Bytes) (length initval : UInt32) : MixState :=
  let n := length.toNat / 12
  mix (last length ((k.drop (12 * n)).take (length.toNat % 12))
    (rounds n k ⟨0x9e3779b9, 0x9e3779b9, initval⟩))

end MixState

def doobsHash (k : Bytes) (length initval : UInt32) : UInt32 := (MixState.hashed k length initval).c

/-- `doobs_hash(key, len)`, with the length of a key converted to 32 bits. -/
def keyHash (key : Bytes) : UInt32 := doobsHash key (UInt32.ofNat key.length) 0

example : keyHash [] = 0xbd49d10d := by decide +kernel

namespace MixState

section Bijective
variable {k : Bytes} {i : ℕ}

theorem xor_cancel (x y : UInt32) : x ^^^ y ^^^ y = x := by
  rw [UInt32.xor_assoc, UInt32.xor_self, UInt32.xor_zero]

theorem mixA_bijective (n : UInt32) : Function.Bijective (mixA n) := by
  rw [Function.bijective_iff_has_inverse]
  refine ⟨fun s => { s with a := (s.a ^^^ (s.c >>> n)) + s.c + s.b }, fun s => ?_, fun s => ?_⟩
  · simp only [mixA, xor_cancel, UInt32.sub_add_cancel]
  · simp only [mixA, xor_cancel, UInt32.add_sub_cancel]

theorem mixB_bijective (n : UInt32) : Function.Bijective (mixB n) := by
  rw [Function.bijective_iff_has_inverse]
  refine ⟨fun s => { s with b := (s.b ^^^ (s.a <<< n)) + s.a + s.c }, fun s => ?_, fun s => ?_⟩
  · simp only [mixB, xor_cancel, UInt32.sub_add_cancel]
  · simp only [mixB, xor_cancel, UInt32.add_sub_cancel]

theorem mixC_bijective (n : UInt32) : Function.Bijective (mixC n) := by
  rw [Function.bijective_iff_has_inverse]
  refine ⟨fun s => { s with c := (s.c ^^^ (s.b >>> n)) + s.b + s.a }, fun s => ?_, fun s => ?_⟩
  · simp only [mixC, xor_cancel, UInt32.sub_add_cancel]
  · simp only [mixC, xor_cancel, UInt32.add_sub_cancel]

theorem mix_bijective : Function.Bijective mix :=
  (mixC_bijective 15).comp <| (mixB_bijective 10).comp <| (mixA_bijective 3).comp <|
    (mixC_bijective 5).comp <| (mixB_bijective 16).comp <| (mixA_bijective 12).comp <|
    (mixC_bijective 13).comp <| (mixB_bijective 8).comp (mixA_bijective 13)

theorem add_bijective (x y z : UInt32) : Function.Bijective fun s : MixState => s.add x y z := by
  rw [Function.bijective_iff_has_inverse]
  refine ⟨fun s => ⟨s.a - x, s.b - y, s.c - z⟩, fun s => ?_, fun s => ?_⟩
  · simp [add]
  · simp [add]

theorem rounds_bijective (n : ℕ) (k : Bytes) : Function.Bijective (rounds n k) := by
  induction n generalizing k with
  | zero => exact Function.bijective_id
  | succ n ih => exact (ih (k.drop 12)).comp (mix_bijective.comp (add_bijective ..))

theorem last_bijective (length : UInt32) (k : Bytes) : Function.Bijective (last length k) :=
  add_bijective ..

end Bijective

section Block

theorem toNat_ub4_mod (b : UInt8) : (ub4 b).toNat % 256 = b.toNat := by
  have hall : ∀ i : Fin 256, (ub4 (UInt8.ofNat i)).toNat % 256 = i := by decide +kernel
  have h := hall ⟨b.toNat, b.toNat_lt⟩
  rwa [UInt8.ofNat_toNat] at h

theorem ub4_cancel {a b : UInt8} (h : (ub4 a).toNat % 256 = (ub4 b).toNat % 256) : a = b := by
  rw [toNat_ub4_mod, toNat_ub4_mod] at h
  exact UInt8.toNat_inj.mp h

def joined (b : UInt8 × UInt8 × UInt8 × UInt8) : UInt32 :=
  ub4 b.1 + (ub4 b.2.1 <<< 8) + (ub4 b.2.2.1 <<< 16) + (ub4 b.2.2.2 <<< 24)

theorem toNat_joined (b : UInt8 × UInt8 × UInt8 × UInt8) : (joined b).toNat =
    ((ub4 b.1).toNat + 2 ^ 8 * (ub4 b.2.1).toNat + 2 ^ 16 * (ub4 b.2.2.1).toNat +
      2 ^ 24 * (ub4 b.2.2.2).toNat) % 2 ^ 32 := by
  simp only [joined, UInt32.toNat_add, UInt32.toNat_shiftLeft, Nat.shiftLeft_eq,
    show UInt32.toNat 8 % 32 = 8 from rfl, show UInt32.toNat 16 % 32 = 16 from rfl,
    show UInt32.toNat 24 % 32 = 24 from rfl]
  omega

theorem joined_injective : Function.Injective joined := by
  rintro ⟨a₀, a₁, a₂, a₃⟩ ⟨b₀, b₁, b₂, b₃⟩ h
  have hn := congrArg UInt32.toNat h
  rw [toNat_joined, toNat_joined] at hn
  dsimp only at hn
  obtain rfl : a₀ = b₀ := ub4_cancel (by omega)
  obtain rfl : a₁ = b₁ := ub4_cancel (by omega)
  obtain rfl : a₂ = b₂ := ub4_cancel (by omega)
  obtain rfl : a₃ = b₃ := ub4_cancel (by omega)
  rfl

theorem card_uint8 : Nat.card UInt8 = 2 ^ 8 := by
  have e : UInt8 ≃ BitVec 8 := ⟨UInt8.toBitVec, UInt8.ofBitVec, fun _ => rfl, fun _ => rfl⟩
  rw [Nat.card_congr e, Nat.card_congr BitVec.equivFin.toEquiv, Nat.card_fin]

theorem card_uint32 : Nat.card UInt32 = 2 ^ 32 := by
  have e : UInt32 ≃ BitVec 32 := ⟨UInt32.toBitVec, UInt32.ofBitVec, fun _ => rfl, fun _ => rfl⟩
  rw [Nat.card_congr e, Nat.card_congr BitVec.equivFin.toEquiv, Nat.card_fin]

instance : Finite UInt32 := Nat.finite_of_card_ne_zero (by rw [card_uint32]; decide)

theorem joined_surjective : Function.Surjective joined := by
  refine (joined_injective.bijective_of_nat_card_le ?_).2
  simp only [Nat.card_prod, card_uint8, card_uint32]
  decide

/-- Twelve bytes. -/
def Block : Type := { k : Bytes // k.length = 12 }

theorem block_surjective (s t : MixState) : ∃ k : Block, block k.1 s = t := by
  obtain ⟨⟨x₀, x₁, x₂, x₃⟩, hx⟩ := joined_surjective (t.a - s.a)
  obtain ⟨⟨y₀, y₁, y₂, y₃⟩, hy⟩ := joined_surjective (t.b - s.b)
  obtain ⟨⟨z₀, z₁, z₂, z₃⟩, hz⟩ := joined_surjective (t.c - s.c)
  refine ⟨⟨[x₀, x₁, x₂, x₃, y₀, y₁, y₂, y₃, z₀, z₁, z₂, z₃], rfl⟩, ?_⟩
  have hblock : block [x₀, x₁, x₂, x₃, y₀, y₁, y₂, y₃, z₀, z₁, z₂, z₃] s =
      s.add (joined ⟨x₀, x₁, x₂, x₃⟩) (joined ⟨y₀, y₁, y₂, y₃⟩) (joined ⟨z₀, z₁, z₂, z₃⟩) := rfl
  rw [hblock, hx, hy, hz]
  simp only [add, UInt32.add_comm _ (_ - _), UInt32.sub_add_cancel]

theorem word_eq {k : Bytes} {i : ℕ} : word k i =
    joined ⟨k.getD i 0, k.getD (i + 1) 0, k.getD (i + 2) 0, k.getD (i + 3) 0⟩ := rfl

theorem getD_of_word {k k' : Bytes} {i : ℕ} (h : word k i = word k' i) :
    ∀ j, i ≤ j → j < i + 4 → k.getD j 0 = k'.getD j 0 := by
  rw [word_eq, word_eq] at h
  have heq := joined_injective h
  simp only [Prod.mk.injEq] at heq
  obtain ⟨h₀, h₁, h₂, h₃⟩ := heq
  intro j hij hj
  obtain rfl | rfl | rfl | rfl : j = i ∨ j = i + 1 ∨ j = i + 2 ∨ j = i + 3 := by omega
  · exact h₀
  · exact h₁
  · exact h₂
  · exact h₃

theorem block_injective (s : MixState) : Function.Injective fun k : Block => block k.1 s := by
  rintro ⟨k, hk⟩ ⟨k', hk'⟩ h
  simp only [block, add, MixState.mk.injEq, UInt32.add_right_inj] at h
  obtain ⟨hx, hy, hz⟩ := h
  refine Subtype.ext (List.ext_getElem (hk.trans hk'.symm) fun j hj hj' => ?_)
  have hget : k.getD j 0 = k'.getD j 0 := by
    rw [hk] at hj
    rcases Nat.lt_or_ge j 4 with h4 | h4
    · exact getD_of_word hx j (Nat.zero_le j) h4
    rcases Nat.lt_or_ge j 8 with h8 | h8
    · exact getD_of_word hy j h4 h8
    · exact getD_of_word hz j h8 hj
  simp only [List.getD_eq_getElem?_getD, List.getElem?_eq_getElem hj, List.getElem?_eq_getElem hj',
    Option.getD_some] at hget
  exact hget

end Block

section Key
variable {pre rest : Bytes} {s : MixState}

theorem word_append {k : Bytes} {i : ℕ} (h : i + 4 ≤ pre.length) :
    word (pre ++ k) i = word pre i := by
  have hget : ∀ j, j < pre.length → (pre ++ k).getD j 0 = pre.getD j 0 := fun j hj => by
    simp only [List.getD_eq_getElem?_getD, List.getElem?_append_left hj]
  rw [word, word, hget i (by omega), hget (i + 1) (by omega), hget (i + 2) (by omega),
    hget (i + 3) (by omega)]

theorem block_append {k : Bytes} (h : 12 ≤ pre.length) : block (pre ++ k) s = block pre s := by
  rw [block, block, word_append (by omega), word_append (by omega), word_append (by omega)]

theorem rounds_append {m n : ℕ} {k : Bytes} (h : pre.length = 12 * m) :
    rounds (m + n) (pre ++ k) s = rounds n k (rounds m pre s) := by
  induction m generalizing pre s with
  | zero =>
    obtain rfl := List.length_eq_zero_iff.mp h
    rw [Nat.zero_add]
    rfl
  | succ m ih =>
    rw [Nat.add_right_comm, rounds, rounds, block_append (by omega),
      List.drop_append_of_le_length (by omega)]
    refine ih ?_
    rw [List.length_drop]
    omega

def following (length : UInt32) (rest : Bytes) (s : MixState) : MixState :=
  let n := rest.length / 12
  mix (last length ((rest.drop (12 * n)).take (length.toNat % 12)) (rounds n rest (mix s)))

theorem following_bijective (length : UInt32) (rest : Bytes) :
    Function.Bijective (following length rest) :=
  mix_bijective.comp ((last_bijective ..).comp ((rounds_bijective ..).comp mix_bijective))

theorem hashed_append {initval : UInt32} {k : Bytes} (hpre : 12 ∣ pre.length) (hk : k.length = 12)
    (hlen : pre.length + 12 + rest.length < 2 ^ 32) :
    hashed (pre ++ k ++ rest) (UInt32.ofNat (pre ++ k ++ rest).length) initval =
      following (UInt32.ofNat (pre.length + 12 + rest.length)) rest
        (block k (rounds (pre.length / 12) pre ⟨0x9e3779b9, 0x9e3779b9, initval⟩)) := by
  obtain ⟨m, hm⟩ := hpre
  have hlength : (pre ++ k ++ rest).length = pre.length + 12 + rest.length := by
    rw [List.length_append, List.length_append, hk]
  have hnat : (UInt32.ofNat (pre.length + 12 + rest.length)).toNat = pre.length + 12 +
      rest.length :=
    UInt32.toNat_ofNat_of_lt' hlen
  have hrounds : (pre.length + 12 + rest.length) / 12 = m + (1 + rest.length / 12) := by omega
  have hdrop : (pre ++ k ++ rest).drop (12 * (m + (1 + rest.length / 12))) =
      rest.drop (12 * (rest.length / 12)) := by
    rw [List.drop_append, List.drop_eq_nil_of_le (by rw [List.length_append]; omega),
      List.nil_append, List.length_append]
    congr 1
    omega
  have hk' : k.drop 12 ++ rest = rest := by
    rw [List.drop_eq_nil_of_le hk.le, List.nil_append]
  rw [hashed, hlength, hnat, hrounds, hdrop, List.append_assoc, rounds_append hm, Nat.add_comm 1,
    rounds, block_append hk.ge, List.drop_append_of_le_length hk.ge, hk', hm,
    Nat.mul_div_cancel_left m (by decide)]
  rw [following, ← hm, hnat]

theorem hashed_bijective (initval : UInt32) (hpre : 12 ∣ pre.length)
    (hlen : pre.length + 12 + rest.length < 2 ^ 32) : Function.Bijective fun k : Block =>
      hashed (pre ++ k.1 ++ rest) (UInt32.ofNat (pre ++ k.1 ++ rest).length) initval := by
  have heq : (fun k : Block =>
      hashed (pre ++ k.1 ++ rest) (UInt32.ofNat (pre ++ k.1 ++ rest).length) initval) =
      following (UInt32.ofNat (pre.length + 12 + rest.length)) rest ∘ fun k : Block =>
        block k.1 (rounds (pre.length / 12) pre ⟨0x9e3779b9, 0x9e3779b9, initval⟩) :=
    funext fun k => hashed_append hpre k.2 hlen
  rw [heq]
  exact (following_bijective ..).comp ⟨block_injective _, fun t => block_surjective _ t⟩

end Key

theorem card_states (P : UInt32 → Prop) :
    Nat.card { s : MixState // P s.c } = 2 ^ 64 * Nat.card { h : UInt32 // P h } := by
  let e : { s : MixState // P s.c } ≃ UInt32 × UInt32 × { h : UInt32 // P h } :=
    ⟨fun s => (s.1.a, s.1.b, ⟨s.1.c, s.2⟩), fun t => ⟨⟨t.1, t.2.1, t.2.2.1⟩, t.2.2.2⟩,
      fun _ => rfl, fun _ => rfl⟩
  rw [Nat.card_congr e, Nat.card_prod, Nat.card_prod, card_uint32, ← Nat.mul_assoc, ← Nat.pow_add]

end MixState

def KeyDistributer.nodeAt (d : KeyDistributer) (h : UInt32) : Endpoint :=
  match d.cachePoints.find? fun p => decide (h ≤ p.hashPoint) with
  | some p => p.endpoint
  | none => (d.cachePoints.head?.map CachePoint.endpoint).getD ⟨0, 0⟩

theorem locateCacheNode_keyHash (d : KeyDistributer) (key : Bytes) :
    d.locateCacheNode keyHash key = d.nodeAt (keyHash key) := rfl

/-- A backend is given its share of the keys. Take the keys of one length that agree but for one of
the blocks of 12 bytes in which they are hashed: those that a backend is located for are exactly as
many for each hash value on its part of the ring. -/
theorem keys_spread_with_ring (d : KeyDistributer) (ep : Endpoint) (pre rest : Bytes)
    (hpre : 12 ∣ pre.length) (hlen : pre.length + 12 + rest.length < 2 ^ 32) :
    Nat.card { k : MixState.Block // d.locateCacheNode keyHash (pre ++ k.1 ++ rest) = ep } =
      2 ^ 64 * Nat.card { h : UInt32 // d.nodeAt h = ep } := by
  rw [← MixState.card_states fun h => d.nodeAt h = ep]
  refine Nat.card_congr (Equiv.subtypeEquiv
    (Equiv.ofBijective _ (MixState.hashed_bijective 0 hpre hlen)) fun k => ?_)
  rw [locateCacheNode_keyHash]
  rfl

def quarters : KeyDistributer := ⟨[⟨0x3fffffff, ⟨1, 6379⟩⟩, ⟨0xffffffff, ⟨2, 6379⟩⟩]⟩

theorem quarters_spread :
    12 ∣ (ascii "user:session").length ∧
    (ascii "user:session").length + 12 + (ascii ":name").length < 2 ^ 32 ∧
    Nat.card { k : MixState.Block //
        quarters.locateCacheNode keyHash (ascii "user:session" ++ k.1 ++ ascii ":name") =
          ⟨1, 6379⟩ } =
      2 ^ 64 * Nat.card { h : UInt32 // quarters.nodeAt h = ⟨1, 6379⟩ } :=
  ⟨by decide, by decide, keys_spread_with_ring quarters ⟨1, 6379⟩ _ _ (by decide) (by decide)⟩

end Yarmproxy
