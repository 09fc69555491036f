import Yarmproxy.Config
import Yarmproxy.Transition
import Mathlib.Data.List.Pairwise
import Mathlib.Data.List.Sort
import Mathlib.Tactic.Ring
import Mathlib.Tactic.Linarith

/-! # The buffer allocator

Addresses and the `int` sizes are integers. `new char[n]` may return any block that overlaps
none of those in use; where it lies is left to the heap. -/
namespace Yarmproxy

structure Allocator where
  bufferSize : ℤ
  /-- `none` is the null pointer -/
  reservedSpace : Option ℤ
  reservedSpaceSize : ℤ
  /-- a `std::set<char*>`, in its order -/
  freeSlabs : List ℤ
  deriving DecidableEq, Repr

namespace Allocator

/-- `std::set::insert` -/
def insertSlab (slabs : List ℤ) (p : ℤ) : List ℤ :=
  if p ∈ slabs then slabs else slabs.orderedInsert (· ≤ ·) p

/-- The loop of the constructor; `rounds` bounds the number of its rounds. -/
def carve (bufferSize stop : ℤ) : ℕ → ℤ → List ℤ → List ℤ
  | 0, _, slabs => slabs
  | rounds + 1, p, slabs =>
    if p < stop then carve bufferSize stop rounds (p + bufferSize) (insertSlab slabs p) else slabs

/-- The constructor, with the reserved space at `address`; `none` when `new` throws because
the size is negative. -/
def new (bufferSize reservedSpaceSize address : ℤ) : Option Allocator :=
  if reservedSpaceSize = 0 then some ⟨bufferSize, none, reservedSpaceSize, []⟩
  else if reservedSpaceSize < 0 then none
  else some ⟨bufferSize, some address, reservedSpaceSize,
    carve bufferSize (address + reservedSpaceSize) reservedSpaceSize.toNat address []⟩

/-- `Alloc`; a new heap block would be at `address`. -/
def alloc (a : Allocator) (address : ℤ) : Allocator × ℤ :=
  match a.freeSlabs with
  | [] => (a, address)
  | slab :: slabs => ({ a with freeSlabs := slabs }, slab)

/-- The pointer test of `Release`. -/
def reserves (a : Allocator) (p : ℤ) : Bool :=
  match a.reservedSpace with
  | none => false
  | some r => !(p < r || p ≥ r + a.reservedSpaceSize)

/-- `Release`; a block that it deletes goes back to the heap. -/
def release (a : Allocator) (p : ℤ) : Allocator :=
  if a.reserves p then { a with freeSlabs := insertSlab a.freeSlabs p } else a

def IsSlab (a : Allocator) (p : ℤ) : Prop :=
  ∃ r, a.reservedSpace = some r ∧ ∃ i : ℕ, p = r + i * a.bufferSize ∧ p < r + a.reservedSpaceSize

@[simp] theorem mem_insertSlab {slabs : List ℤ} {p q : ℤ} :
    q ∈ insertSlab slabs p ↔ q = p ∨ q ∈ slabs := by
  rw [insertSlab]
  split
  next h =>
    constructor
    · exact .inr
    · rintro (rfl | hq)
      · exact h
      · exact hq
  next => exact List.mem_orderedInsert _

theorem insertSlab_nodup {slabs : List ℤ} {p : ℤ} (h : slabs.Nodup) :
    (insertSlab slabs p).Nodup := by
  rw [insertSlab]
  split
  next => exact h
  next hp => exact (List.perm_orderedInsert _ _ _).nodup_iff.mpr (List.nodup_cons.mpr ⟨hp, h⟩)

theorem mem_carve {bufferSize stop q : ℤ} (hb : 0 < bufferSize) (rounds : ℕ) :
    ∀ (p : ℤ) (slabs : List ℤ), q ∈ carve bufferSize stop rounds p slabs ↔
      q ∈ slabs ∨ ∃ i : ℕ, i < rounds ∧ q = p + i * bufferSize ∧ q < stop := by
  induction rounds with
  | zero => simp [carve]
  | succ rounds ih =>
    intro p slabs
    rw [carve]
    split
    next hp =>
      rw [ih, mem_insertSlab]
      constructor
      · rintro ((rfl | hq) | ⟨i, hi, rfl, hq⟩)
        · exact .inr ⟨0, by omega, by simp, hp⟩
        · exact .inl hq
        · exact .inr ⟨i + 1, by omega, by push_cast; ring, hq⟩
      · rintro (hq | ⟨i, hi, rfl, hq⟩)
        · exact .inl (.inr hq)
        · cases i with
          | zero => exact .inl (.inl (by simp))
          | succ i => exact .inr ⟨i, by omega, by push_cast; ring, hq⟩
    next hp =>
      constructor
      · exact .inl
      · rintro (hq | ⟨i, _, rfl, hq⟩)
        · exact hq
        · have := mul_nonneg (Int.natCast_nonneg i) hb.le
          omega

theorem carve_nodup {bufferSize stop : ℤ} (rounds : ℕ) : ∀ (p : ℤ) (slabs : List ℤ), slabs.Nodup →
    (carve bufferSize stop rounds p slabs).Nodup := by
  induction rounds with
  | zero => exact fun _ _ h => h
  | succ rounds ih =>
    intro p slabs h
    rw [carve]
    split
    · exact ih _ _ (insertSlab_nodup h)
    · exact h

end Allocator

/-- Two stretches of memory without a common byte, each with its start and its length. -/
def Apart (x y : ℤ × ℤ) : Prop := x.1 + x.2 ≤ y.1 ∨ y.1 + y.2 ≤ x.1

instance (x y : ℤ × ℤ) : Decidable (Apart x y) := inferInstanceAs (Decidable (_ ∨ _))

/-- Where a buffer came from when `Alloc` returned it. -/
inductive Origin where
  | heap | slab
  deriving DecidableEq, Repr

/-- The allocator, the heap blocks in use on its behalf and the buffers not yet released. -/
structure Arena where
  allocator : Allocator
  blocks : List (ℤ × ℤ)
  live : List (ℤ × Origin)
  deriving DecidableEq, Repr

namespace Arena

inductive Event where
  | alloc (address : ℤ)
  | release (buffer : ℤ × Origin)
  deriving DecidableEq, Repr

def Enabled (s : Arena) : Event → Prop
  | .alloc address => s.allocator.freeSlabs = [] →
      ∀ b ∈ s.blocks, Apart (address, s.allocator.bufferSize) b
  | .release buffer => buffer ∈ s.live

instance (s : Arena) (e : Event) : Decidable (s.Enabled e) := by
  cases e <;> simp only [Enabled] <;> infer_instance

def next (s : Arena) : Event → Arena
  | .alloc address =>
    let (a, p) := s.allocator.alloc address
    if s.allocator.freeSlabs = [] then
      ⟨a, (p, s.allocator.bufferSize) :: s.blocks, (p, .heap) :: s.live⟩
    else ⟨a, s.blocks, (p, .slab) :: s.live⟩
  | .release (p, origin) =>
    { allocator := s.allocator.release p
      blocks := if s.allocator.reserves p then s.blocks
        else s.blocks.erase (p, s.allocator.bufferSize)
      live := s.live.erase (p, origin) }

def system : Transition.System Arena Event := ⟨Enabled, next⟩

instance (s : Arena) (e : Event) : Decidable (system.Enabled s e) :=
  inferInstanceAs (Decidable (s.Enabled e))

/-- A worker's allocator as the configuration makes it. -/
def start (c : Config) (address : ℤ) : Option Arena :=
  let reserved := sizeToInt c.reservedBufferSpace
  (Allocator.new (sizeToInt c.bufferSize) reserved address).map fun a =>
    ⟨a, if reserved = 0 then [] else [(address, reserved)], []⟩

/-- The buffer with its full size. -/
def extent (s : Arena) (p : ℤ) : ℤ × ℤ := (p, s.allocator.bufferSize)

def OwnBlock (s : Arena) (p : ℤ) : Prop :=
  s.extent p ∈ s.blocks ∧ ∀ r, s.allocator.reservedSpace = some r →
    Apart (s.extent p) (r, s.allocator.reservedSpaceSize)

/-- Every byte lies in the reserved space. -/
def InReserve (s : Arena) (p : ℤ) : Prop :=
  ∃ r, s.allocator.reservedSpace = some r ∧ r ≤ p ∧
    p + s.allocator.bufferSize ≤ r + s.allocator.reservedSpaceSize

structure Sound (s : Arena) : Prop where
  whole : ∀ b ∈ s.live, b.2 = .heap ∧ s.OwnBlock b.1 ∨ b.2 = .slab ∧ s.InReserve b.1
  apart : s.live.Pairwise fun b b' => Apart (s.extent b.1) (s.extent b'.1)
  /-- `Release` keeps a buffer exactly when it was a slab -/
  kept : ∀ b ∈ s.live, b.1 ∈ (s.allocator.release b.1).freeSlabs ↔ b.2 = .slab

/-- The reserved space consists of whole buffers. -/
structure Invariant (s : Arena) : Prop where
  positive : 0 < s.allocator.bufferSize
  divides : s.allocator.bufferSize ∣ s.allocator.reservedSpaceSize
  reserve : ∀ r, s.allocator.reservedSpace = some r → (r, s.allocator.reservedSpaceSize) ∈ s.blocks
  free : ∀ p ∈ s.allocator.freeSlabs, s.allocator.IsSlab p
  nodup : s.allocator.freeSlabs.Nodup
  live : ∀ b ∈ s.live, b.2 = .heap ∧ s.OwnBlock b.1 ∨
    b.2 = .slab ∧ s.allocator.IsSlab b.1 ∧ b.1 ∉ s.allocator.freeSlabs
  apart : s.live.Pairwise fun b b' => Apart (s.extent b.1) (s.extent b'.1)

end Arena

namespace Allocator
variable {a : Allocator} {p q : ℤ}

theorem IsSlab.inside (h : a.IsSlab p) (hb : 0 < a.bufferSize)
    (hd : a.bufferSize ∣ a.reservedSpaceSize) :
    ∃ r, a.reservedSpace = some r ∧ r ≤ p ∧ p + a.bufferSize ≤ r + a.reservedSpaceSize := by
  obtain ⟨r, hr, i, rfl, hlt⟩ := h
  obtain ⟨m, hm⟩ := hd
  refine ⟨r, hr, ?_, ?_⟩
  · have := mul_nonneg (Int.natCast_nonneg i) hb.le
    omega
  · have him : (i : ℤ) < m := by
      rw [hm, mul_comm] at hlt
      exact lt_of_mul_lt_mul_right (by linarith) hb.le
    have := mul_le_mul_of_nonneg_right (Int.add_one_le_of_lt him) hb.le
    rw [hm]
    linarith

theorem IsSlab.apart (hp : a.IsSlab p) (hq : a.IsSlab q) (hb : 0 < a.bufferSize) (hne : p ≠ q) :
    Apart (p, a.bufferSize) (q, a.bufferSize) := by
  obtain ⟨r, hr, i, rfl, _⟩ := hp
  obtain ⟨r', hr', j, rfl, _⟩ := hq
  obtain rfl := Option.some.inj (hr.symm.trans hr')
  rcases lt_trichotomy i j with hij | rfl | hij
  · have := mul_le_mul_of_nonneg_right (Int.ofNat_le.mpr hij) hb.le
    left
    dsimp only
    push_cast at this
    linarith
  · exact absurd rfl hne
  · have := mul_le_mul_of_nonneg_right (Int.ofNat_le.mpr hij) hb.le
    right
    dsimp only
    push_cast at this
    linarith

theorem IsSlab.reserves (h : a.IsSlab p) (hb : 0 < a.bufferSize) : a.reserves p = true := by
  obtain ⟨r, hr, i, rfl, hlt⟩ := h
  have := mul_nonneg (Int.natCast_nonneg i) hb.le
  simp only [Allocator.reserves, hr, Bool.not_eq_true', Bool.or_eq_false_iff,
    decide_eq_false_iff_not]
  omega

theorem not_reserves (hb : 0 < a.bufferSize) (h : ∀ r, a.reservedSpace = some r →
    Apart (p, a.bufferSize) (r, a.reservedSpaceSize)) : a.reserves p = false := by
  rw [Allocator.reserves]
  split
  · rfl
  next r hr =>
    have := h r hr
    simp only [Apart] at this
    simp only [Bool.not_eq_false', Bool.or_eq_true, decide_eq_true_eq]
    omega

end Allocator

namespace Arena
variable {s : Arena} {address p q r : ℤ} {origin : Origin}

theorem apart_symm {x y : ℤ × ℤ} (h : Apart x y) : Apart y x := h.symm

theorem ne_of_apart (h : Apart (s.extent p) (s.extent q)) (hb : 0 < s.allocator.bufferSize) :
    p ≠ q := by
  simp only [Apart, extent] at h
  omega

theorem OwnBlock.apart_slab (hp : s.OwnBlock p) (hq : s.allocator.IsSlab q) (h : s.Invariant) :
    Apart (s.extent p) (s.extent q) := by
  obtain ⟨r, hr, hle, hin⟩ := hq.inside h.positive h.divides
  have := hp.2 r hr
  simp only [Apart, extent] at this ⊢
  omega

theorem next_alloc_heap (hf : s.allocator.freeSlabs = []) :
    s.next (.alloc address) =
      ⟨s.allocator, s.extent address :: s.blocks, (address, .heap) :: s.live⟩ := by
  simp only [next, Allocator.alloc, hf, if_pos, extent]

theorem next_alloc_slab {ps : List ℤ} (hf : s.allocator.freeSlabs = p :: ps) :
    s.next (.alloc address) =
      ⟨{ s.allocator with freeSlabs := ps }, s.blocks, (p, .slab) :: s.live⟩ := by
  simp [next, Allocator.alloc, hf]

theorem next_release_heap (hr : s.allocator.reserves p = false) :
    s.next (.release (p, origin)) =
      ⟨s.allocator, s.blocks.erase (s.extent p), s.live.erase (p, origin)⟩ := by
  simp [next, Allocator.release, hr, extent]

theorem next_release_slab (hr : s.allocator.reserves p = true) :
    s.next (.release (p, origin)) =
      ⟨{ s.allocator with freeSlabs := Allocator.insertSlab s.allocator.freeSlabs p }, s.blocks,
        s.live.erase (p, origin)⟩ := by
  simp [next, Allocator.release, hr]

theorem alloc_heap_invariant (h : s.Invariant) (hf : s.allocator.freeSlabs = [])
    (he : ∀ b ∈ s.blocks, Apart (s.extent address) b) : (s.next (.alloc address)).Invariant := by
  have hown : OwnBlock ⟨s.allocator, s.extent address :: s.blocks, (address, .heap) :: s.live⟩
      address :=
    ⟨List.mem_cons_self, fun r hr => he _ (h.reserve r hr)⟩
  rw [next_alloc_heap hf]
  refine ⟨h.positive, h.divides, fun r hr => List.mem_cons_of_mem _ (h.reserve r hr), h.free,
    h.nodup, ?_, List.pairwise_cons.mpr ⟨?_, h.apart⟩⟩
  · intro b hb
    rcases List.mem_cons.mp hb with rfl | hb
    · exact .inl ⟨rfl, hown⟩
    · rcases h.live b hb with ⟨ho, hblock, hout⟩ | hslab
      · exact .inl ⟨ho, List.mem_cons_of_mem _ hblock, hout⟩
      · exact .inr hslab
  · intro b hb
    rcases h.live b hb with ⟨_, hblock, _⟩ | ⟨_, hslab, _⟩
    · exact he _ hblock
    · obtain ⟨r, hr, hle, hin⟩ := hslab.inside h.positive h.divides
      have := he _ (h.reserve r hr)
      simp only [Apart, extent] at this ⊢
      omega

theorem alloc_slab_invariant {ps : List ℤ} (h : s.Invariant)
    (hf : s.allocator.freeSlabs = p :: ps) : (s.next (.alloc address)).Invariant := by
  have hnodup := h.nodup
  rw [hf, List.nodup_cons] at hnodup
  have hp : s.allocator.IsSlab p := h.free p (hf ▸ List.mem_cons_self)
  rw [next_alloc_slab hf]
  refine ⟨h.positive, h.divides, h.reserve, fun q hq => h.free q (hf ▸ List.mem_cons_of_mem _ hq),
    hnodup.2, ?_, List.pairwise_cons.mpr ⟨?_, h.apart⟩⟩
  · intro b hb
    rcases List.mem_cons.mp hb with rfl | hb
    · exact .inr ⟨rfl, hp, hnodup.1⟩
    · rcases h.live b hb with hheap | ⟨ho, hslab, hfree⟩
      · exact .inl hheap
      · exact .inr ⟨ho, hslab, fun hmem => hfree (hf ▸ List.mem_cons_of_mem _ hmem)⟩
  · intro b hb
    rcases h.live b hb with ⟨_, hown⟩ | ⟨_, hslab, hfree⟩
    · exact apart_symm (hown.apart_slab hp h)
    · refine hp.apart hslab h.positive ?_
      rintro rfl
      exact hfree (hf ▸ List.mem_cons_self)

theorem ne_of_mem_erase (h : s.Invariant) {b b' : ℤ × Origin} (hb : b ∈ s.live)
    (hb' : b' ∈ s.live.erase b) : b' ∈ s.live ∧ b'.1 ≠ b.1 := by
  have hnodup : s.live.Nodup := h.apart.imp fun hapart heq =>
    ne_of_apart hapart h.positive (congrArg Prod.fst heq)
  obtain ⟨hne, hmem⟩ := (List.Nodup.mem_erase_iff hnodup).mp hb'
  refine ⟨hmem, ?_⟩
  have hsymm : Std.Symm fun b b' : ℤ × Origin => Apart (s.extent b.1) (s.extent b'.1) :=
    ⟨fun _ _ => apart_symm⟩
  exact ne_of_apart (h.apart.forall hmem hb hne) h.positive

theorem release_invariant (h : s.Invariant) (he : (p, origin) ∈ s.live) :
    (s.next (.release (p, origin))).Invariant := by
  have hapart := h.apart.sublist (List.erase_sublist (a := (p, origin)))
  rcases h.live _ he with ⟨_, hown⟩ | ⟨_, hslab, _⟩
  · rw [next_release_heap (Allocator.not_reserves h.positive hown.2)]
    refine ⟨h.positive, h.divides, fun r hr => ?_, h.free, h.nodup, fun b hb => ?_, hapart⟩
    · refine (List.mem_erase_of_ne ?_).mpr (h.reserve r hr)
      intro heq
      have := hown.2 r hr
      rw [heq] at this
      simp only [Apart, extent] at this
      have := h.positive
      omega
    · obtain ⟨hmem, hne⟩ := ne_of_mem_erase h he hb
      rcases h.live b hmem with ⟨ho, hblock, hout⟩ | hslab
      · refine .inl ⟨ho, (List.mem_erase_of_ne ?_).mpr hblock, hout⟩
        intro heq
        exact hne (Prod.mk.inj heq).1
      · exact .inr hslab
  · rw [next_release_slab (hslab.reserves h.positive)]
    refine ⟨h.positive, h.divides, h.reserve, fun q hq => ?_, Allocator.insertSlab_nodup h.nodup,
      fun b hb => ?_, hapart⟩
    · rcases Allocator.mem_insertSlab.mp hq with rfl | hq
      · exact hslab
      · exact h.free q hq
    · obtain ⟨hmem, hne⟩ := ne_of_mem_erase h he hb
      rcases h.live b hmem with hheap | ⟨ho, hb, hfree⟩
      · exact .inl hheap
      · refine .inr ⟨ho, hb, fun hin => ?_⟩
        rcases Allocator.mem_insertSlab.mp hin with heq | hin
        · exact hne heq
        · exact hfree hin

theorem step_invariant {e : Event} (h : s.Invariant) (he : s.Enabled e) : (s.next e).Invariant := by
  cases e with
  | alloc address =>
    cases hf : s.allocator.freeSlabs with
    | nil => exact alloc_heap_invariant h hf (he hf)
    | cons p ps => exact alloc_slab_invariant h hf
  | release b => exact release_invariant h he

theorem Invariant.sound (h : s.Invariant) : s.Sound where
  whole b hb := by
    rcases h.live b hb with hheap | ⟨ho, hslab, _⟩
    · exact .inl hheap
    · exact .inr ⟨ho, hslab.inside h.positive h.divides⟩
  apart := h.apart
  kept b hb := by
    rcases h.live b hb with ⟨ho, hown⟩ | ⟨ho, hslab, _⟩
    · rw [Allocator.release, if_neg (by simp [Allocator.not_reserves h.positive hown.2]), ho]
      refine iff_of_false (fun hfree => ?_) (by decide)
      exact ne_of_apart (hown.apart_slab (h.free _ hfree) h) h.positive rfl
    · rw [Allocator.release, if_pos (hslab.reserves h.positive), ho]
      exact iff_of_true (Allocator.mem_insertSlab.mpr (.inl rfl)) rfl

variable {c : Config} {makeAddress : Bytes → Option UInt32} {s₀ : Arena}

/-- The reserved space is off or has room for a buffer. -/
def Fits (c : Config) : Prop := c.reservedBufferSpace = 0 ∨ c.bufferSize ≤ c.reservedBufferSpace

instance (c : Config) : Decidable (Fits c) := inferInstanceAs (Decidable (_ ∨ _))

theorem sizeToInt_accepted {k : ℕ} (hk : k ≤ 20) :
    sizeToInt (1024 * 2 ^ k) = ((1024 * 2 ^ k : ℕ) : ℤ) := by
  have := Nat.pow_le_pow_right (n := 2) (by decide) hk
  exact sizeToInt_eq (by omega)

theorem fits_dvd (hc : c.Sized) (hfit : Fits c) : 0 < sizeToInt c.bufferSize ∧
    (sizeToInt c.reservedBufferSpace < 0 ∨
      sizeToInt c.bufferSize ∣ sizeToInt c.reservedBufferSpace) := by
  obtain ⟨k, hk, hbuf⟩ := hc.buffer
  have hres := hc.reserved
  rw [Config.AcceptedReservedSpace] at hres
  rw [Fits, hbuf] at hfit
  rw [hbuf, sizeToInt_accepted (by omega)]
  refine ⟨by positivity, ?_⟩
  rcases hres with hr | ⟨j, hj, hr⟩ | hr
  · right
    rw [hr]
    exact dvd_zero _
  · right
    rw [hr, sizeToInt_accepted hj]
    rw [hr] at hfit
    have hle : 2 ^ k ≤ 2 ^ j := by
      have := Nat.one_le_two_pow (n := j)
      omega
    have hkj := (Nat.pow_le_pow_iff_right (by decide)).mp hle
    exact Int.natCast_dvd_natCast.mpr (Nat.mul_dvd_mul_left _ (Nat.pow_dvd_pow 2 hkj))
  · left
    rw [hr]
    decide

theorem start_invariant (hc : c.Sized) (hfit : Fits c) (hs : start c address = some s) :
    s.Invariant := by
  obtain ⟨hpos, hdvd⟩ := fits_dvd hc hfit
  rw [start] at hs
  generalize sizeToInt c.bufferSize = b at hpos hdvd hs
  generalize sizeToInt c.reservedBufferSpace = n at hdvd hs
  obtain ⟨a, ha, rfl⟩ := Option.map_eq_some_iff.mp hs
  rw [Allocator.new] at ha
  split at ha
  next hn =>
    subst hn
    obtain rfl := Option.some.inj ha
    exact ⟨hpos, dvd_zero _, nofun, nofun, List.nodup_nil, nofun, .nil⟩
  next hn =>
    split at ha
    next => cases ha
    next hneg =>
      obtain rfl := Option.some.inj ha
      refine ⟨hpos, hdvd.resolve_left hneg, ?_, ?_, Allocator.carve_nodup _ _ _ List.nodup_nil,
        nofun, .nil⟩
      · rintro r ⟨⟩
        rw [if_neg hn]
        exact List.mem_singleton_self _
      · intro p hp
        rcases (Allocator.mem_carve hpos _ _ _).mp hp with hp | ⟨i, _, hi, hlt⟩
        · cases hp
        · exact ⟨address, rfl, i, hi, hlt⟩

theorem not_fits_unsound (hc : c.Sized) (hfit : ¬ Fits c) (address : ℤ) :
    ∃ s₀, start c address = some s₀ ∧ s₀.Enabled (.alloc address) ∧
      ¬ (s₀.next (.alloc address)).Sound := by
  obtain ⟨k, hk, hbuf⟩ := hc.buffer
  have hres := hc.reserved
  rw [Config.AcceptedReservedSpace] at hres
  rw [Fits, hbuf] at hfit
  have hpow := Nat.pow_le_pow_right (n := 2) (by decide) hk
  obtain ⟨j, hj, hr⟩ : ∃ j ≤ 20, c.reservedBufferSpace = 1024 * 2 ^ j := by
    rcases hres with hr | hr | hr
    · exact absurd (.inl hr) hfit
    · exact hr
    · exact absurd (.inr (by omega)) hfit
  have hone := Nat.one_le_two_pow (n := j)
  have hpos : (0 : ℤ) < sizeToInt c.bufferSize := by
    rw [hbuf, sizeToInt_accepted (by omega)]
    positivity
  have hlt : sizeToInt c.reservedBufferSpace < sizeToInt c.bufferSize := by
    rw [hr, hbuf, sizeToInt_accepted hj, sizeToInt_accepted (by omega)]
    omega
  have hn : 0 < sizeToInt c.reservedBufferSpace := by
    rw [hr, sizeToInt_accepted hj]
    omega
  generalize hb : sizeToInt c.bufferSize = b at hpos hlt
  generalize hm : sizeToInt c.reservedBufferSpace = n at hlt hn
  have hstart : start c address = some ⟨⟨b, some address, n,
      Allocator.carve b (address + n) n.toNat address []⟩, [(address, n)], []⟩ := by
    simp only [start, hb, hm, Allocator.new]
    rw [if_neg (by omega), if_neg (by omega), if_neg (by omega)]
    rfl
  have hmem : ∀ p, p ∈ Allocator.carve b (address + n) n.toNat address [] ↔
      p ∈ ([] : List ℤ) ∨ ∃ i : ℕ, i < n.toNat ∧ p = address + i * b ∧ p < address + n :=
    fun p => Allocator.mem_carve hpos n.toNat address []
  cases hf : Allocator.carve b (address + n) n.toNat address [] with
  | nil =>
    have hfirst := (hmem address).mpr (.inr ⟨0, by omega, by simp, by omega⟩)
    rw [hf] at hfirst
    cases hfirst
  | cons p ps =>
    rw [hf] at hstart
    refine ⟨_, hstart, nofun, fun hsound => ?_⟩
    have hp : address ≤ p := by
      rcases (hmem p).mp (hf ▸ List.mem_cons_self) with hp | ⟨i, _, hi, _⟩
      · cases hp
      · have := mul_nonneg (Int.natCast_nonneg i) hpos.le
        omega
    rw [next_alloc_slab rfl] at hsound
    rcases hsound.whole _ List.mem_cons_self with ⟨ho, _⟩ | ⟨_, r, hr, _, hin⟩
    · cases ho
    · obtain rfl := Option.some.inj hr
      dsimp only at hin
      omega

/-- Exactly when every buffer of every history is whole and its own: the reserved space is off
or at least as large as a buffer. -/
theorem buffers_sound_iff (hc : c.Loaded makeAddress) :
    (∀ address s₀ s, start c address = some s₀ →
      Transition.Execution system Transition.Unrestricted s₀ s → s.Sound) ↔ Fits c := by
  constructor
  · intro hall
    by_contra hfit
    obtain ⟨s₀, hs, he, hbad⟩ := not_fits_unsound hc.sized hfit 0
    have hrun : Transition.Execution system Transition.Unrestricted s₀
        (system.next s₀ (.alloc 0)) :=
      .tail .refl he trivial
    exact hbad (hall 0 s₀ _ hs hrun)
  · intro hfit address s₀ s hs hrun
    have hinv : s.Invariant := hrun.invariant (start_invariant hc.sized hfit hs)
      fun _ _ h he _ => step_invariant h he
    exact hinv.sound

/-- Buffers of one kilobyte, two of them in reserve. -/
def twoSlabs : Config := { Config.new with bufferSize := 1024, reservedBufferSpace := 2048 }

theorem twoSlabs_loaded : twoSlabs.Loaded fun _ => none :=
  ⟨[ascii "worker \x7b", ascii "buffer_size 1", ascii "reserved_buffer_space 2", ascii "\x7d"],
    by decide +kernel⟩

theorem twoSlabs_sound : (twoSlabs.Loaded fun _ => none) ∧ Fits twoSlabs ∧
    ((∀ address s₀ s, start twoSlabs address = some s₀ →
      Transition.Execution system Transition.Unrestricted s₀ s → s.Sound) ↔ Fits twoSlabs) :=
  ⟨twoSlabs_loaded, by decide, buffers_sound_iff twoSlabs_loaded⟩

/-- Buffers of 64 kilobytes, one kilobyte in reserve. -/
def shortReserve : Config := { Config.new with bufferSize := 65536, reservedBufferSpace := 1024 }

/-- The first buffer is the reserved kilobyte and what lies behind it, where the heap may place
the second one. -/
theorem shortReserve_overlaps : (shortReserve.Loaded fun _ => none) ∧
    ∃ s₀ s, start shortReserve 4096 = some s₀ ∧
      Transition.Execution system Transition.Unrestricted s₀ s ∧
      s.live = [(5120, .heap), (4096, .slab)] ∧ ¬ s.InReserve 4096 ∧
      ¬ Apart (s.extent 5120) (s.extent 4096) := by
  let s₀ : Arena := ⟨⟨65536, some 4096, 1024, [4096]⟩, [(4096, 1024)], []⟩
  refine ⟨⟨[ascii "worker \x7b", ascii "buffer_size 64", ascii "reserved_buffer_space 1",
    ascii "\x7d"], by decide +kernel⟩, s₀,
    Transition.runTrace system s₀ [.alloc 0, .alloc 5120], by decide +kernel,
    Transition.ValidTrace.execution .refl (by decide +kernel), by decide +kernel, ?_,
    by decide +kernel⟩
  rintro ⟨r, hr, _, hin⟩
  obtain rfl := Option.some.inj hr
  exact absurd hin (by decide +kernel)

end Arena
end Yarmproxy
