import Mathlib.Algebra.Order.Ring.Int
import Mathlib.Data.List.Basic
import Mathlib.Data.List.TakeWhile
import Yarmproxy.Lists

/-! The C++ vocabulary of the proxy: bytes, `size_t` and `int` conversions on a 64-bit
target with signed `char`, and the few library calls that look at text. -/
namespace Yarmproxy

abbrev Bytes := List UInt8

def ch (c : Char) : UInt8 := c.toNat.toUInt8

def ascii (s : String) : Bytes := s.toList.map ch

def addSize (a b : ℕ) : ℕ := (a + b) % 2 ^ 64

/-- `size_t` difference. -/
def subSize (a b : ℕ) : ℕ := (a + (2 ^ 64 - b % 2 ^ 64)) % 2 ^ 64

/-- A `size_t` stored into an `int`. -/
def sizeToInt (n : ℕ) : ℤ := Int.bmod n (2 ^ 32)

/-- An `int` stored into a `size_t`. -/
def intToSize (i : ℤ) : ℕ := (i % 2 ^ 64).toNat

theorem addSize_eq {a b : ℕ} (h : a + b < 2 ^ 64) : addSize a b = a + b :=
  Nat.mod_eq_of_lt h

theorem subSize_eq {a b : ℕ} (h : b ≤ a) (ha : a < 2 ^ 64) : subSize a b = a - b := by
  unfold subSize
  omega

theorem sizeToInt_eq {n : ℕ} (h : n < 2 ^ 31) : sizeToInt n = n := by
  unfold sizeToInt
  rw [Int.bmod_eq_of_le] <;> omega

theorem sizeToInt_lt (n : ℕ) : sizeToInt n < 2 ^ 31 := Int.bmod_lt (by decide)

theorem intToSize_natCast {n : ℕ} (h : n < 2 ^ 64) : intToSize n = n := by
  unfold intToSize
  omega

def isDigit (c : UInt8) : Bool := 48 ≤ c && c ≤ 57

def isSpace (c : UInt8) : Bool := c == 32 || (9 ≤ c && c ≤ 13)

def toLower (c : UInt8) : UInt8 := if 65 ≤ c && c ≤ 90 then c + 32 else c

/-- `memchr(p, c, n)` as an offset from `p`. -/
def memchr (bs : Bytes) (c : UInt8) (n : ℕ) : Option ℕ := (bs.take n).findIdx? (· == c)

def digitsToNat (acc : ℕ) (ds : Bytes) : ℕ := ds.foldl (fun a c => a * 10 + (c.toNat - 48)) acc

/-- The number `strtol` finds in base ten, without its saturation. -/
def strtol (bs : Bytes) : Option ℤ :=
  match bs.dropWhile isSpace with
  | [] => none
  | c :: cs =>
    let signed := c = ch '-' ∨ c = ch '+'
    let ds := (if signed then cs else c :: cs).takeWhile isDigit
    if ds = [] then none
    else some (if c = ch '-' then -(digitsToNat 0 ds : ℤ) else digitsToNat 0 ds)

/-- `std::stoi`; `none` stands for either of its exceptions. -/
def stoi (bs : Bytes) : Option ℤ :=
  match strtol bs with
  | none => none
  | some v => if -2 ^ 31 ≤ v ∧ v < 2 ^ 31 then some v else none

/-- `std::atoi` of the C library: the saturated `long` cut to an `int`. -/
def atoi (bs : Bytes) : ℤ :=
  match strtol bs with
  | none => 0
  | some v => Int.bmod (max (-2 ^ 63) (min v (2 ^ 63 - 1))) (2 ^ 32)

theorem getD_of_take {m e : Bytes} {n i : ℕ} (h : m.take n = e.take n) (hi : i < n) (d : UInt8) :
    m.getD i d = e.getD i d := by
  have := congrArg (·[i]?) h
  simp only [List.getElem?_take_of_lt hi] at this
  simp only [List.getD_eq_getElem?_getD, this]

theorem memchr_of_take {m q text rest : Bytes} {c : UInt8} (hc : c ∉ text)
    (hq : q <+: text ++ c :: rest) (hm : m.take q.length = q) :
    memchr m c q.length = if text.length < q.length then some text.length else none := by
  rw [memchr, hm]
  have hne : ∀ l : Bytes, c ∉ l → ∀ d ∈ l, (d == c) = false := by
    intro l hl d hd
    simp only [beq_eq_false_iff_ne]
    rintro rfl
    exact hl hd
  split
  next h =>
    obtain ⟨q', rfl⟩ : ∃ q', q = text ++ c :: q' := by
      obtain ⟨t, ht⟩ := hq
      have hline : text ++ [c] <+: text ++ c :: rest := by simp
      have hpre : text ++ [c] <+: q := by
        apply List.prefix_of_prefix_length_le hline ⟨t, ht⟩
        simp only [List.length_append, List.length_cons, List.length_nil]
        omega
      obtain ⟨q', hq'⟩ := hpre
      exact ⟨q', by simp [← hq']⟩
    exact Lists.findIdx?_stops (hne text hc) (by simp)
  next h =>
    have hpre : q <+: text := by
      apply List.prefix_of_prefix_length_le hq (List.prefix_append _ _)
      omega
    exact List.findIdx?_eq_none_iff.mpr (hne q fun hmem => hc (hpre.subset hmem))

/-- What `operator<<` and `std::to_string` print for an unsigned number. -/
def dec (n : ℕ) : Bytes := (Nat.toDigits 10 n).map ch

def crlf : Bytes := [13, 10]

theorem ch_toNat {c : Char} (h : c.isDigit) : (ch c).toNat = c.toNat := by
  have : c.toNat ≤ 57 := by
    simp only [Char.isDigit, Bool.and_eq_true, decide_eq_true_eq] at h
    exact h.2
  simp only [ch, Nat.toUInt8, UInt8.toNat_ofNat']
  omega

theorem isDigit_ch {c : Char} (h : c.isDigit) : isDigit (ch c) = true := by
  have hn := ch_toNat h
  have hd : 48 ≤ c.toNat ∧ c.toNat ≤ 57 := by
    simp only [Char.isDigit, Bool.and_eq_true, decide_eq_true_eq] at h
    exact h
  simp only [isDigit, Bool.and_eq_true, decide_eq_true_eq, UInt8.le_iff_toNat_le, hn]
  exact hd

theorem dec_isDigit {n : ℕ} : ∀ c ∈ dec n, isDigit c = true := by
  intro c hc
  obtain ⟨d, hd, rfl⟩ := List.mem_map.mp hc
  exact isDigit_ch (Nat.isDigit_of_mem_toDigits (by decide) le_rfl hd)

theorem dec_ne_nil (n : ℕ) : dec n ≠ [] := by
  simp [dec, Nat.toDigits_ne_nil]

theorem length_dec_le {n k : ℕ} (hk : 0 < k) (h : n < 10 ^ k) : (dec n).length ≤ k := by
  rw [dec, List.length_map]
  exact (Nat.length_toDigits_le_iff (by decide) hk).mpr h

theorem digitsToNat_map_ch (acc : ℕ) (ds : List Char) (h : ∀ c ∈ ds, c.isDigit) :
    digitsToNat acc (ds.map ch) = Nat.ofDigitChars 10 ds acc := by
  induction ds generalizing acc with
  | nil => rfl
  | cons c ds ih =>
    have hc := ch_toNat (h c (by simp))
    have hz : '0'.toNat = 48 := by decide
    simp only [List.map_cons, digitsToNat, List.foldl_cons, hc] at ih ⊢
    rw [ih _ (fun d hd => h d (by simp [hd])), Nat.ofDigitChars_cons, hz, Nat.mul_comm]

@[simp] theorem digitsToNat_dec (n : ℕ) : digitsToNat 0 (dec n) = n := by
  rw [dec, digitsToNat_map_ch _ _
    (fun c hc => Nat.isDigit_of_mem_toDigits (by decide) le_rfl hc)]
  exact Nat.ofDigitChars_ten_toDigits

theorem isDigit_ne {c d : UInt8} (h : isDigit c = true) (hd : isDigit d = false) : c ≠ d := by
  rintro rfl
  simp [h] at hd

theorem isDigit_iff {c : UInt8} : isDigit c = true ↔ 48 ≤ c.toNat ∧ c.toNat ≤ 57 := by
  simp [isDigit, UInt8.le_iff_toNat_le]

theorem isSpace_of_isDigit {c : UInt8} (h : isDigit c = true) : isSpace c = false := by
  have hc := isDigit_iff.mp h
  have h32 : c ≠ 32 := by
    rintro rfl
    exact absurd hc (by decide)
  have h13 : ¬ c ≤ 13 := by
    rw [UInt8.le_iff_toNat_le]
    have : (13 : UInt8).toNat = 13 := rfl
    omega
  simp [isSpace, h32, h13]

theorem strtol_digits {ds rest : Bytes} (hd : ∀ c ∈ ds, isDigit c = true) (hn : ds ≠ [])
    (hr : ∀ c ∈ rest.head?, isDigit c = false) :
    strtol (ds ++ rest) = some (digitsToNat 0 ds : ℤ) := by
  obtain ⟨c, cs, rfl⟩ := List.exists_cons_of_ne_nil hn
  have hc := hd c (by simp)
  have hs := isSpace_of_isDigit hc
  have hm : c ≠ ch '-' := isDigit_ne hc (by decide)
  have hp : c ≠ ch '+' := isDigit_ne hc (by decide)
  have ht : (c :: cs ++ rest).takeWhile isDigit = c :: cs := by
    rw [List.takeWhile_append_of_pos hd]
    cases rest with
    | nil => simp
    | cons x xs => simp [hr x (by simp)]
  simp only [List.cons_append] at ht ⊢
  simp [strtol, hs, hm, hp, ht]

theorem stoi_bounds {bs : Bytes} {v : ℤ} (h : stoi bs = some v) : -2 ^ 31 ≤ v ∧ v < 2 ^ 31 := by
  rw [stoi] at h
  split at h
  · cases h
  · split at h
    next hv =>
      obtain rfl := Option.some.inj h
      exact hv
    next => cases h

theorem stoi_digits {ds rest : Bytes} (hd : ∀ c ∈ ds, isDigit c = true) (hn : ds ≠ [])
    (hr : ∀ c ∈ rest.head?, isDigit c = false) (hb : digitsToNat 0 ds < 2 ^ 31) :
    stoi (ds ++ rest) = some (digitsToNat 0 ds : ℤ) := by
  rw [stoi, strtol_digits hd hn hr]
  simp only
  rw [if_pos (by omega)]

theorem stoi_large {ds rest : Bytes} (hd : ∀ c ∈ ds, isDigit c = true) (hn : ds ≠ [])
    (hr : ∀ c ∈ rest.head?, isDigit c = false) (hb : 2 ^ 31 ≤ digitsToNat 0 ds) :
    stoi (ds ++ rest) = none := by
  rw [stoi, strtol_digits hd hn hr]
  simp only
  rw [if_neg (by omega)]

theorem stoi_dec {n : ℕ} (hn : n < 2 ^ 31) {rest : Bytes}
    (hr : ∀ c ∈ rest.head?, isDigit c = false) : stoi (dec n ++ rest) = some (n : ℤ) := by
  rw [stoi_digits dec_isDigit (dec_ne_nil n) hr (by rwa [digitsToNat_dec]), digitsToNat_dec]

end Yarmproxy
