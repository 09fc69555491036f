import Yarmproxy.RedisSoundness
import Mathlib.Algebra.Order.BigOperators.Group.List
import Mathlib.Algebra.Order.Ring.Int
import Mathlib.Data.List.Chain

/-! # The loop over the bulks of an array

`ParseBulkItems` moves its cursor by sizes that come from the client. The sizes are accumulated
modulo 2^64, added to a pointer, cut to an `int` and summed up in one. `found` reads the bulks off
the bytes with sizes that are not bounded; the loop keeps these bulks, moves forward and returns the
sum of the sizes exactly when the sizes behave. -/
namespace Yarmproxy

def digitValue (c : UInt8) : ℤ := (if c < 128 then (c.toNat : ℤ) else c.toNat - 256) - 48

inductive ItemForm where
  | unfinished
  | malformed
  /-- the header is there and announces `size` bytes, those of the header included -/
  | bulk (size : ℤ)
  deriving DecidableEq, Repr

def itemForm (bs : Bytes) : ItemForm :=
  if bs.length < 4 then .unfinished
  else if bs.getD 0 0 ≠ ch '$' then .malformed
  else if bs.getD 1 0 = ch '-' then
    if bs.getD 2 0 ≠ ch '1' then .malformed
    else if bs.length < 5 then .unfinished
    else if bs.getD 3 0 ≠ ch '\r' ∨ bs.getD 4 0 ≠ ch '\n' then .malformed
    else .bulk 5
  else
    let text := (bs.drop 1).takeWhile (· ≠ ch '\r')
    if bs.getD (text.length + 1) 0 = ch '\r' ∧ bs.getD (text.length + 2) 0 = ch '\n' then
      .bulk (text.foldl (fun total c => total * 10 + digitValue c) 0 + text.length + 5)
    else .unfinished

namespace ItemForm

def size : ItemForm → ℤ
  | .bulk size => size
  | _ => 0

/-- What the constructor of `Bulk` makes of it, with `n` bytes at hand. -/
def presentSize (n : ℕ) : ItemForm → ℤ
  | .unfinished => 0
  | .malformed => sizeParseError
  | .bulk size => sizeToInt (min n (size % 2 ^ 64).toNat)

/-- The size is positive, and the part of it that is in `n` bytes counts as a positive `int`. -/
def Positive (n : ℕ) : ItemForm → Prop
  | .bulk size => 0 < size ∧ 0 < sizeToInt (min n size.toNat)
  | _ => True

instance (n : ℕ) : ∀ form, Decidable (Positive n form)
  | .bulk _ => inferInstanceAs (Decidable (_ ∧ _))
  | .unfinished | .malformed => .isTrue trivial

end ItemForm

/-- The form of a bulk in an array that ends at offset `last`. -/
def Bulk.form (last : ℕ) (b : Bulk) : ItemForm := itemForm (b.rawData.bytes (last - b.rawData.off))

section Loop
variable (data : Ptr) (bytes : ℕ)

def itemAt (p : Ptr) : Bulk := Bulk.parse p (data.off + bytes - p.off)

def advance (p : Ptr) : Option Ptr := (itemAt data bytes p).totalSize.bind p.add

def cursors : ℕ → Ptr → List Ptr
  | 0, _ => []
  | fuel + 1, p =>
    if p.off < data.off + bytes then
      p :: if 0 < (itemAt data bytes p).presentSize then
        match advance data bytes p with
        | none => []
        | some q => cursors fuel q
      else []
    else []

/-- The bulks in the bytes from offset `off` on, one behind the other; a malformed one is the last.
-/
def found : ℕ → ℕ → List (ℕ × ItemForm)
  | 0, _ => []
  | fuel + 1, off =>
    if off < data.off + bytes then
      match itemForm (Ptr.bytes ⟨data.mem, off⟩ (data.off + bytes - off)) with
      | .unfinished => []
      | .malformed => [(off, .malformed)]
      | .bulk size => (off, .bulk size) :: found fuel (off + size.toNat)
    else []

/-- The items are the bulks of `bulks`, each between `first` and `last` and behind the one before;
the result adds their sizes to `parsed`, or is the error. -/
structure ExactItems (bulks : List (ℕ × ItemForm)) (first last : ℕ) (parsed ret : ℤ)
    (items : List Bulk) : Prop where
  kept : items.map (fun b => (b.rawData.off, b.form last)) = bulks
  inside : ∀ b ∈ items, first ≤ b.rawData.off ∧ b.rawData.off < last
  behind : items.IsChain fun a b => (a.rawData.off : ℤ) + (a.form last).size ≤ b.rawData.off
  sizes : ∀ b ∈ items, b.form last ≠ .malformed →
    ∃ total, b.totalSize = some total ∧ (total : ℤ) = (b.form last).size
  sum : ret = -1 ∧ (∃ b ∈ items, b.form last = .malformed) ∨
    (∀ b ∈ items, b.form last ≠ .malformed) ∧
      ret = parsed + (items.map fun b => (b.form last).size).sum

structure MovesForward (maxBulks : ℕ) : Prop where
  advances : ∀ p ∈ cursors data bytes maxBulks data, 0 < (itemAt data bytes p).presentSize →
    ∃ q, advance data bytes p = some q ∧ p.off < q.off
  rounds : (cursors data bytes maxBulks data).length ≤ bytes
  result : ∃ ret items, parseBulkItems data bytes maxBulks = some (ret, items) ∧
    ExactItems (found data bytes maxBulks data.off) data.off (data.off + bytes) 0 ret items

/-- Behind a sum of `sum`, the sizes of the bulks are positive and, unless one of the bulks is
malformed, the sum stays in the range of an `int`. -/
def ModestFrom (fuel off : ℕ) (sum : ℤ) : Prop :=
  (∀ e ∈ found data bytes fuel off, e.2.Positive (data.off + bytes - e.1)) ∧
    ((∀ e ∈ found data bytes fuel off, e.2 ≠ .malformed) →
      sum + ((found data bytes fuel off).map fun e => e.2.size).sum < 2 ^ 31)

def Modest (maxBulks : ℕ) : Prop := ModestFrom data bytes maxBulks data.off 0

instance (maxBulks : ℕ) : Decidable (Modest data bytes maxBulks) :=
  inferInstanceAs (Decidable (_ ∧ _))

end Loop

theorem accDigit_cast {t : ℕ} {z : ℤ} (h : (t : ℤ) = z % 2 ^ 64) (c : UInt8) :
    (accDigit t c : ℤ) = (z * 10 + digitValue c) % 2 ^ 64 := by
  have hd : (digitSize c : ℤ) = digitValue c % 2 ^ 64 := by
    rw [digitSize, intToSize]
    exact Int.toNat_of_nonneg (Int.emod_nonneg _ (by decide))
  rw [accDigit]
  omega

theorem foldl_accDigit_cast (ds : Bytes) : ∀ {t : ℕ} {z : ℤ}, (t : ℤ) = z % 2 ^ 64 →
    ((ds.foldl accDigit t : ℕ) : ℤ) =
      ds.foldl (fun total c => total * 10 + digitValue c) z % 2 ^ 64 := by
  induction ds with
  | nil => exact fun h => h
  | cons c ds ih => exact fun h => ih (accDigit_cast h c)

theorem getD_take {l : Bytes} {i n : ℕ} (h : i < n) : (l.take n).getD i 0 = l.getD i 0 := by
  rw [List.getD_eq_getElem?_getD, List.getD_eq_getElem?_getD, List.getElem?_take_of_lt h]

theorem lt_of_getD_take {l : Bytes} {i n : ℕ} {c : UInt8} (hc : c ≠ 0)
    (h : (l.take n).getD i 0 = c) : i < n := by
  by_contra hi
  rw [List.getD_eq_getElem?_getD, List.getElem?_eq_none (by rw [List.length_take]; omega)] at h
  exact hc h.symm

theorem header_end_iff {l : Bytes} {k n : ℕ} :
    ((l.take n).getD k 0 = ch '\r' ∧ (l.take n).getD (k + 1) 0 = ch '\n') ↔
      l.getD k 0 = ch '\r' ∧ k + 1 < n ∧ l.getD (k + 1) 0 = ch '\n' := by
  constructor
  · rintro ⟨hcr, hlf⟩
    have hlt := lt_of_getD_take (by decide) hlf
    rw [getD_take (by omega)] at hcr
    rw [getD_take hlt] at hlf
    exact ⟨hcr, hlt, hlf⟩
  · rintro ⟨hcr, hlt, hlf⟩
    rw [getD_take (by omega), getD_take hlt]
    exact ⟨hcr, hlf⟩

namespace Bulk
variable {p : Ptr} {n : ℕ}

theorem presentSize_parse (hl : n ≤ p.rest.length) :
    (parse p n).presentSize = (itemForm (p.bytes n)).presentSize n := by
  have hlen : (p.rest.take n).length = n := by rw [List.length_take, Nat.min_eq_left hl]
  rw [parse, Ptr.bytes, parseSize, itemForm, hlen]
  dsimp only
  by_cases h4 : n < 4
  · rw [if_pos h4, if_pos h4]
    rfl
  rw [if_neg h4, if_neg h4, getD_take (by omega), getD_take (by omega), getD_take (by omega)]
  by_cases h0 : p.rest.getD 0 0 ≠ ch '$'
  · rw [if_pos h0, if_pos h0]
    rfl
  rw [if_neg h0, if_neg h0]
  by_cases h1 : p.rest.getD 1 0 = ch '-'
  · rw [if_pos h1, if_pos h1]
    by_cases h2 : p.rest.getD 2 0 ≠ ch '1'
    · rw [if_pos h2, if_pos h2]
      rfl
    rw [if_neg h2, if_neg h2]
    by_cases h5 : n < 5
    · rw [if_pos h5, if_pos h5]
      rfl
    rw [if_neg h5, if_neg h5, getD_take (by omega), getD_take (by omega)]
    split
    next => rfl
    next =>
      rw [ItemForm.presentSize]
      have hmin : min n ((5 : ℤ) % 2 ^ 64).toNat = 5 := by omega
      rw [hmin]
      rfl
  rw [if_neg h1, if_neg h1]
  have hscan := scanHeader_eq n (p.rest.drop 1) 1 0 (by omega) (by rw [List.length_drop]; omega)
  rw [← List.drop_take] at hscan
  generalize ((p.rest.take n).drop 1).takeWhile (· ≠ ch '\r') = text at hscan ⊢
  rw [hscan]
  dsimp only
  rw [Nat.add_comm 1, if_congr header_end_iff rfl rfl]
  split
  next =>
    have hfold := foldl_accDigit_cast text (t := 0) (z := 0) rfl
    rw [ItemForm.presentSize]
    congr 2
    omega
  next => rfl

theorem totalSize_parse {size : ℤ} (hl : n ≤ p.rest.length)
    (h : itemForm (p.bytes n) = .bulk size) :
    ∃ total, (parse p n).totalSize = some total ∧ (total : ℤ) = size % 2 ^ 64 := by
  have hlen : (p.rest.take n).length = n := by rw [List.length_take, Nat.min_eq_left hl]
  rw [Ptr.bytes, itemForm, hlen] at h
  split at h
  · cases h
  next h4 =>
  split at h
  · cases h
  next h0 =>
  rw [getD_take (by omega)] at h h0
  split at h
  next h1 =>
    split at h
    · cases h
    split at h
    · cases h
    split at h
    · cases h
    cases h
    exact ⟨5, totalSize_nil (by simpa [isNil, parse] using h1), rfl⟩
  next h1 =>
    have hnil : (parse p n).isNil = false := by simpa [isNil, parse] using h1
    dsimp only at h
    split at h
    next hend =>
      obtain ⟨hcr, hlt, hlf⟩ := header_end_iff.mp hend
      have hcons : p.rest = ch '$' :: p.rest.drop 1 := eq_cons_of_getD (by omega) (not_not.mp h0)
      have hget : ∀ i, (p.rest.drop 1).getD i 0 = p.rest.getD (i + 1) 0 := by
        intro i
        simp [List.getD_eq_getElem?_getD]
      have hpre : ((p.rest.take n).drop 1).takeWhile (· ≠ ch '\r') <+: p.rest.drop 1 :=
        (List.takeWhile_prefix _).trans (List.drop_take ▸ List.take_prefix _ _)
      generalize hds : ((p.rest.take n).drop 1).takeWhile (· ≠ ch '\r') = text at h hpre hcr hlt hlf
      obtain ⟨tail, htail⟩ := eq_append_of_getD (d := 0) hpre (by rw [List.length_drop]; omega)
        ((hget _).trans hcr) ((hget _).trans hlf)
      have hne : ∀ c ∈ text, c ≠ ch '\r' := by
        intro c hc
        rw [← hds] at hc
        simpa using List.mem_takeWhile_imp hc
      have htext : (parse p n).headerText = text := by
        rw [headerText, parse, htail]
        exact takeWhile_append_cr hne _
      have hrest : (parse p n).rawData.rest =
          ch '$' :: ((parse p n).headerText ++ ch '\r' :: ch '\n' :: tail) := by
        rw [htext, ← htail]
        exact hcons
      refine ⟨_, totalSize_string hnil hrest, ?_⟩
      have hfold := foldl_accDigit_cast text (t := 0) (z := 0) rfl
      cases h
      rw [htext]
      omega
    next => cases h

end Bulk

section Round
variable {data : Ptr} {bytes fuel : ℕ} {p : Ptr}

theorem Ptr.add_forward {p q : Ptr} {n : ℕ} (h : p.add n = some q)
    (hq : p.off < q.off) : n < 2 ^ 63 ∧ q = ⟨p.mem, p.off + n⟩ := by
  rw [Ptr.add] at h
  split at h
  next hn => exact ⟨hn, (Option.some.inj h).symm⟩
  next hn =>
    split at h
    · cases h
      simp only at hq
      omega
    · cases h

inductive Round (data : Ptr) (bytes fuel : ℕ) (p : Ptr) : Prop where
  | ended (rounds : (cursors data bytes (fuel + 1) p).length ≤ data.off + bytes - p.off)
      (still : ∀ r ∈ cursors data bytes (fuel + 1) p, ¬ 0 < (itemAt data bytes r).presentSize)
      (found_eq : found data bytes (fuel + 1) p.off = [])
      (loop_eq : ∀ parsed, parseBulkItemsLoop data bytes (fuel + 1) p parsed [] = some (parsed, []))
  | malformed (inside : p.off < data.off + bytes) (size : (itemAt data bytes p).presentSize < 0)
      (form_eq : (itemAt data bytes p).form (data.off + bytes) = .malformed)
      (cursors_eq : cursors data bytes (fuel + 1) p = [p])
      (found_eq : found data bytes (fuel + 1) p.off = [(p.off, .malformed)])
      (loop_eq : ∀ parsed, parseBulkItemsLoop data bytes (fuel + 1) p parsed [] =
        some (-1, [itemAt data bytes p]))
  | bulk (size : ℤ) (total : ℕ) (inside : p.off < data.off + bytes)
      (form_eq : (itemAt data bytes p).form (data.off + bytes) = .bulk size)
      (total_eq : (total : ℤ) = size % 2 ^ 64)
      (present_eq : (itemAt data bytes p).presentSize =
        sizeToInt (min (data.off + bytes - p.off) total))
      (totalSize_eq : (itemAt data bytes p).totalSize = some total)
      (advance_eq : advance data bytes p = p.add total)
      (mem_cursors : p ∈ cursors data bytes (fuel + 1) p)
      (found_eq : found data bytes (fuel + 1) p.off =
        (p.off, .bulk size) :: found data bytes fuel (p.off + size.toNat))
      (cursors_eq : 0 < (itemAt data bytes p).presentSize → ∀ q, p.add total = some q →
        cursors data bytes (fuel + 1) p = p :: cursors data bytes fuel q)
      (loop_eq : 0 < (itemAt data bytes p).presentSize → ∀ parsed q, p.add total = some q →
        parseBulkItemsLoop data bytes (fuel + 1) p parsed [] =
          (parseBulkItemsLoop data bytes fuel q (Int.bmod (parsed + total) (2 ^ 32)) []).map
            fun r => (r.1, itemAt data bytes p :: r.2))
      (loop_zero : (itemAt data bytes p).presentSize = 0 → ∀ parsed,
        parseBulkItemsLoop data bytes (fuel + 1) p parsed [] = some (parsed, []))
      (loop_neg : (itemAt data bytes p).presentSize < 0 → ∀ parsed,
        parseBulkItemsLoop data bytes (fuel + 1) p parsed [] = some (-1, [itemAt data bytes p]))

theorem round (fuel : ℕ) (hm : p.mem = data.mem) (hp : data.off ≤ p.off)
    (hl : bytes ≤ data.rest.length) : Round data bytes fuel p := by
  have heq : (⟨data.mem, p.off⟩ : Ptr) = p := by rw [← hm]
  by_cases hin : p.off < data.off + bytes
  case neg =>
    have hcur : cursors data bytes (fuel + 1) p = [] := by rw [cursors, if_neg hin]
    refine .ended (hcur ▸ Nat.zero_le _) (fun r hr => ?_) ?_ fun parsed => ?_
    · rw [hcur] at hr
      cases hr
    · rw [found, if_neg hin]
    · rw [parseBulkItemsLoop, if_neg hin]
  have hrest : data.off + bytes - p.off ≤ p.rest.length := by
    rw [Ptr.rest, List.length_drop] at hl ⊢
    rw [hm]
    omega
  have hpresent : (itemAt data bytes p).presentSize =
      ((itemAt data bytes p).form (data.off + bytes)).presentSize (data.off + bytes - p.off) :=
    Bulk.presentSize_parse hrest
  have hform : itemForm (Ptr.bytes ⟨data.mem, p.off⟩ (data.off + bytes - p.off)) =
      (itemAt data bytes p).form (data.off + bytes) := by
    rw [heq]
    rfl
  -- what the loop does depends on the sign of the present size only
  have hstop : ¬ 0 < (itemAt data bytes p).presentSize → cursors data bytes (fuel + 1) p = [p] := by
    intro hs
    rw [cursors, if_pos hin, if_neg hs]
  have hzero : (itemAt data bytes p).presentSize = 0 → ∀ parsed,
      parseBulkItemsLoop data bytes (fuel + 1) p parsed [] = some (parsed, []) := by
    intro hs parsed
    rw [parseBulkItemsLoop, if_pos hin]
    exact (if_neg (show ¬ (itemAt data bytes p).presentSize < 0 by omega)).trans (if_pos hs)
  have hneg : (itemAt data bytes p).presentSize < 0 → ∀ parsed,
      parseBulkItemsLoop data bytes (fuel + 1) p parsed [] = some (-1, [itemAt data bytes p]) := by
    intro hs parsed
    rw [parseBulkItemsLoop, if_pos hin]
    exact if_pos hs
  cases hf : (itemAt data bytes p).form (data.off + bytes) with
  | unfinished =>
    rw [hf] at hpresent hform
    have hs : (itemAt data bytes p).presentSize = 0 := hpresent
    have hcur := hstop (by omega)
    refine .ended ?_ (fun r hr => ?_) ?_ (hzero hs)
    · rw [hcur, List.length_singleton]
      omega
    · rw [hcur] at hr
      cases List.mem_singleton.mp hr
      omega
    · rw [found, if_pos hin, hform]
  | malformed =>
    rw [hf] at hpresent hform
    have hs : (itemAt data bytes p).presentSize < 0 := by
      rw [hpresent, ItemForm.presentSize]
      decide
    refine .malformed hin hs hf (hstop (by omega)) ?_ (hneg hs)
    rw [found, if_pos hin, hform]
  | bulk size =>
    rw [hf] at hpresent hform
    obtain ⟨total, htotal, hcast⟩ := Bulk.totalSize_parse hrest hf
    have hadv : advance data bytes p = p.add total := by
      rw [advance, itemAt, htotal, Option.bind_some]
    have hnat : (size % 2 ^ 64).toNat = total := by omega
    refine .bulk size total hin hf hcast ?_ htotal hadv ?_ ?_ (fun hs q hq => ?_)
      (fun hs parsed q hq => ?_) hzero hneg
    · rw [hpresent, ItemForm.presentSize, hnat]
    · rw [cursors, if_pos hin]
      exact List.mem_cons_self
    · rw [found, if_pos hin, hform]
    · rw [cursors, if_pos hin, if_pos hs, hadv, hq]
    · rw [parseBulkItemsLoop, if_pos hin]
      refine ((if_neg (show ¬ (itemAt data bytes p).presentSize < 0 by omega)).trans
        (if_neg (show ¬ (itemAt data bytes p).presentSize = 0 by omega))).trans ?_
      rw [htotal, Option.bind_eq_bind, Option.bind_some, hq, Option.bind_eq_bind, Option.bind_some,
        parseBulkItemsLoop_acc]
      rfl

theorem off_lt_of_found {off : ℕ} {e : ℕ × ItemForm} (h : e ∈ found data bytes fuel off) :
    off < data.off + bytes := by
  by_contra hin
  match fuel with
  | 0 => simp [found] at h
  | fuel + 1 => simp [found, hin] at h

end Round

section Whole
variable {data : Ptr} {bytes : ℕ}

theorem lt_of_bmod_eq {sum : ℤ} (h : Int.bmod sum (2 ^ 32) = sum) : sum < 2 ^ 31 := by
  have := Int.bmod_lt (x := sum) (m := 2 ^ 32) (by decide)
  omega

namespace ExactItems
variable {bulks : List (ℕ × ItemForm)} {first last total : ℕ} {sum ret size : ℤ}
variable {b : Bulk} {items : List Bulk}

theorem nil (hret : ret = sum) : ExactItems [] first last sum ret [] := by
  refine ⟨rfl, List.forall_mem_nil _, .nil, List.forall_mem_nil _, .inr ⟨List.forall_mem_nil _, ?_⟩⟩
  rw [hret, List.map_nil, List.sum_nil, add_zero]

theorem malformed (hf : b.form last = .malformed) (hin : b.rawData.off < last) :
    ExactItems [(b.rawData.off, .malformed)] b.rawData.off last sum (-1) [b] := by
  refine ⟨?_, fun c hc => ?_, .singleton _, fun c hc hgood => ?_,
    .inl ⟨rfl, b, List.mem_singleton_self _, hf⟩⟩
  · rw [List.map_singleton, hf]
  · cases List.mem_singleton.mp hc
    exact ⟨le_refl _, hin⟩
  · cases List.mem_singleton.mp hc
    exact absurd hf hgood

theorem cons (hf : b.form last = .bulk size) (htotal : b.totalSize = some total)
    (hsize : (total : ℤ) = size) (hin : b.rawData.off < last)
    (h : ExactItems bulks (b.rawData.off + total) last (sum + size) ret items) :
    ExactItems ((b.rawData.off, .bulk size) :: bulks) b.rawData.off last sum ret (b :: items) where
  kept := by rw [List.map_cons, h.kept, hf]
  inside := by
    refine List.forall_mem_cons.mpr ⟨⟨le_refl _, hin⟩, fun c hc => ?_⟩
    have := h.inside c hc
    omega
  behind := by
    refine List.isChain_cons.mpr ⟨fun c hc => ?_, h.behind⟩
    have := h.inside c (List.mem_of_mem_head? hc)
    rw [hf, ItemForm.size, ← hsize]
    exact_mod_cast this.1
  sizes := by
    refine List.forall_mem_cons.mpr ⟨fun _ => ⟨total, htotal, ?_⟩, h.sizes⟩
    rw [hf]
    exact hsize
  sum := by
    rcases h.sum with ⟨hret, c, hc, hbad⟩ | ⟨hall, hret⟩
    · exact .inl ⟨hret, c, List.mem_cons_of_mem _ hc, hbad⟩
    · refine .inr ⟨List.forall_mem_cons.mpr ⟨by rw [hf]; rintro ⟨⟩, hall⟩, ?_⟩
      rw [hret, List.map_cons, List.sum_cons, hf, add_assoc]
      rfl

theorem tail {e : ℕ × ItemForm} (h : ExactItems (e :: bulks) first last sum ret (b :: items))
    (hf : b.form last = .bulk size) : ExactItems bulks first last (sum + size) ret items := by
  refine ⟨(List.cons.inj h.kept).2, fun c hc => h.inside c (List.mem_cons_of_mem _ hc),
    h.behind.tail, fun c hc => h.sizes c (List.mem_cons_of_mem _ hc), ?_⟩
  rcases h.sum with ⟨hret, c, hc, hbad⟩ | ⟨hall, hret⟩
  · rcases List.mem_cons.mp hc with rfl | hc
    · cases hf.symm.trans hbad
    · exact .inl ⟨hret, c, hc, hbad⟩
  · refine .inr ⟨fun c hc => hall c (List.mem_cons_of_mem _ hc), ?_⟩
    rw [List.map_cons, List.sum_cons, ← add_assoc, hf] at hret
    exact hret

/-- The error is for a malformed bulk only. -/
theorem ne_error (h : ExactItems bulks first last sum ret [b]) (hf : b.form last = .bulk size)
    (h0 : 0 ≤ sum) : ret ≠ -1 := by
  rintro rfl
  rcases h.sum with ⟨-, c, hc, hbad⟩ | ⟨-, hret⟩
  · cases List.mem_singleton.mp hc
    cases hf.symm.trans hbad
  · obtain ⟨t, -, ht⟩ := h.sizes b List.mem_cons_self (by rw [hf]; rintro ⟨⟩)
    rw [List.map_singleton, List.sum_singleton] at hret
    omega

end ExactItems

theorem modestFrom_nil {fuel off : ℕ} {sum : ℤ} (h : found data bytes fuel off = []) :
    ModestFrom data bytes fuel off sum ↔ sum < 2 ^ 31 := by
  simp [ModestFrom, h]

theorem modestFrom_cons {fuel off off' : ℕ} {sum size : ℤ}
    (h : found data bytes (fuel + 1) off = (off, .bulk size) :: found data bytes fuel off') :
    ModestFrom data bytes (fuel + 1) off sum ↔
      (ItemForm.bulk size).Positive (data.off + bytes - off) ∧
        ModestFrom data bytes fuel off' (sum + size) := by
  have hgood : ItemForm.bulk size ≠ .malformed := by rintro ⟨⟩
  rw [ModestFrom, ModestFrom, h, List.forall_mem_cons, List.forall_mem_cons, List.map_cons,
    List.sum_cons, ← add_assoc, and_assoc, and_iff_right hgood]
  rfl

theorem ItemForm.Positive.size_nonneg {n : ℕ} {form : ItemForm} (h : form.Positive n) :
    0 ≤ form.size := by
  cases form with
  | bulk size => exact h.1.le
  | unfinished => exact le_rfl
  | malformed => exact le_rfl

/-- A walk that comes to a malformed bulk is still inside the bytes; any other one counts. -/
theorem ModestFrom.off_lt_or_sum_lt {fuel off : ℕ} {sum : ℤ}
    (h : ModestFrom data bytes fuel off sum) : off < data.off + bytes ∨ sum < 2 ^ 31 := by
  by_cases hend : ∃ e ∈ found data bytes fuel off, e.2 = .malformed
  · obtain ⟨e, he, -⟩ := hend
    exact .inl (off_lt_of_found he)
  · have hcounted := h.2 fun e he hbad => hend ⟨e, he, hbad⟩
    have := List.sum_nonneg (List.forall_mem_map.mpr fun e he => (h.1 e he).size_nonneg)
    exact .inr (by omega)

theorem modestFrom_of_exact (hl : bytes ≤ data.rest.length) :
    ∀ (fuel : ℕ) (p : Ptr) (first : ℕ) (sum ret : ℤ) (items : List Bulk), p.mem = data.mem →
    data.off ≤ p.off → 0 ≤ sum →
    (∀ r ∈ cursors data bytes fuel p, 0 < (itemAt data bytes r).presentSize →
      ∃ q, advance data bytes r = some q ∧ r.off < q.off) →
    parseBulkItemsLoop data bytes fuel p (Int.bmod sum (2 ^ 32)) [] = some (ret, items) →
    ExactItems (found data bytes fuel p.off) first (data.off + bytes) sum ret items →
    ModestFrom data bytes fuel p.off sum := by
  intro fuel
  -- where the loop ends the sum has not wrapped, or the result would not be exact
  have ends : ∀ {fuel : ℕ} {p : Ptr} {first : ℕ} {sum ret : ℤ} {items : List Bulk},
      found data bytes fuel p.off = [] →
      some (Int.bmod sum (2 ^ 32), ([] : List Bulk)) = some (ret, items) →
      ExactItems (found data bytes fuel p.off) first (data.off + bytes) sum ret items →
      ModestFrom data bytes fuel p.off sum := by
    rintro fuel p first sum _ _ hnone ⟨⟩ hex
    rw [modestFrom_nil hnone]
    rcases hex.sum with ⟨-, b, hb, -⟩ | ⟨-, hret⟩
    · cases hb
    · exact lt_of_bmod_eq (hret.trans (by simp))
  induction fuel with
  | zero => exact fun p first sum ret items _ _ _ _ hloop hex => ends rfl hloop hex
  | succ fuel ih =>
    intro p first sum ret items hm hp h0 hadv hloop hex
    cases round fuel hm hp hl with
    | ended _ _ hnone hrun => exact ends hnone ((hrun _).symm.trans hloop) hex
    | malformed _ _ _ _ hfound _ =>
      rw [ModestFrom, hfound]
      refine ⟨fun e he => ?_, fun hall => absurd rfl (hall _ List.mem_cons_self)⟩
      cases List.mem_singleton.mp he
      exact trivial
    | bulk size total hin hf htotal hpresent htotalSize hadvance hmem hfound hcur hrun hzero hneg =>
      rw [hfound] at hex
      have hpos : 0 < (itemAt data bytes p).presentSize := by
        rcases Int.lt_trichotomy (itemAt data bytes p).presentSize 0 with hs | hs | hs
        · cases (hneg hs _).symm.trans hloop
          exact absurd rfl (hex.ne_error hf h0)
        · cases (hzero hs _).symm.trans hloop
          cases hex.kept
        · exact hs
      obtain ⟨q, hq, hlt⟩ := hadv p hmem hpos
      rw [hadvance] at hq
      rw [hcur hpos q hq] at hadv
      rw [hrun hpos _ q hq, Option.map_eq_some_iff] at hloop
      obtain ⟨⟨ret', items'⟩, hloop, heq⟩ := hloop
      cases heq
      obtain ⟨total', htotal', hsize⟩ := hex.sizes _ List.mem_cons_self (by rw [hf]; rintro ⟨⟩)
      cases htotalSize.symm.trans htotal'
      rw [hf, ItemForm.size] at hsize
      obtain ⟨-, rfl⟩ := Ptr.add_forward hq hlt
      simp only at hlt
      have hnat : size.toNat = total := by omega
      rw [hnat] at hfound hex
      rw [Int.bmod_add_bmod, hsize] at hloop
      have hrest := ih ⟨p.mem, p.off + total⟩ first _ ret' items' hm (by simp only; omega)
        (by omega) (fun r hr => hadv r (List.mem_cons_of_mem _ hr)) hloop (hex.tail hf)
      refine (modestFrom_cons hfound).mpr ⟨⟨by omega, ?_⟩, hrest⟩
      rw [hnat, ← hpresent]
      exact hpos

/-- What a loop over modest bulks does from the cursor `p` on. -/
structure RunsForward (data : Ptr) (bytes fuel : ℕ) (p : Ptr) (sum : ℤ) : Prop where
  advances : ∀ r ∈ cursors data bytes fuel p, 0 < (itemAt data bytes r).presentSize →
    ∃ q, advance data bytes r = some q ∧ r.off < q.off
  rounds : (cursors data bytes fuel p).length ≤ data.off + bytes - p.off
  result : ∃ ret items, parseBulkItemsLoop data bytes fuel p (Int.bmod sum (2 ^ 32)) [] =
    some (ret, items) ∧
      ExactItems (found data bytes fuel p.off) p.off (data.off + bytes) sum ret items

theorem RunsForward.ends {fuel : ℕ} {p : Ptr} {sum : ℤ} (h0 : 0 ≤ sum) (h31 : sum < 2 ^ 31)
    (hadv : ∀ r ∈ cursors data bytes fuel p, ¬ 0 < (itemAt data bytes r).presentSize)
    (hrounds : (cursors data bytes fuel p).length ≤ data.off + bytes - p.off)
    (hnone : found data bytes fuel p.off = [])
    (hloop : ∀ parsed, parseBulkItemsLoop data bytes fuel p parsed [] = some (parsed, [])) :
    RunsForward data bytes fuel p sum where
  advances r hr hs := absurd hs (hadv r hr)
  rounds := hrounds
  result := by
    refine ⟨_, _, hloop _, ?_⟩
    rw [hnone]
    exact .nil (Int.bmod_eq_of_le (by omega) (by omega))

/-- A bulk of exactly `size` bytes in front of a loop that runs forward. -/
theorem RunsForward.cons {fuel total : ℕ} {p : Ptr} {sum size : ℤ} (hpos : 0 < size)
    (hsize : (total : ℤ) = size) (hin : p.off < data.off + bytes)
    (hf : (itemAt data bytes p).form (data.off + bytes) = .bulk size)
    (htotal : (itemAt data bytes p).totalSize = some total)
    (hadvance : advance data bytes p = some ⟨p.mem, p.off + total⟩)
    (hcur : cursors data bytes (fuel + 1) p = p :: cursors data bytes fuel ⟨p.mem, p.off + total⟩)
    (hfound : found data bytes (fuel + 1) p.off =
      (p.off, .bulk size) :: found data bytes fuel (p.off + total))
    (hrun : ∀ parsed, parseBulkItemsLoop data bytes (fuel + 1) p parsed [] =
      (parseBulkItemsLoop data bytes fuel ⟨p.mem, p.off + total⟩
        (Int.bmod (parsed + total) (2 ^ 32)) []).map fun r => (r.1, itemAt data bytes p :: r.2))
    (h : RunsForward data bytes fuel ⟨p.mem, p.off + total⟩ (sum + size)) :
    RunsForward data bytes (fuel + 1) p sum where
  advances := by
    rw [hcur]
    refine List.forall_mem_cons.mpr ⟨fun _ => ⟨_, hadvance, ?_⟩, h.advances⟩
    simp only
    omega
  rounds := by
    have := h.rounds
    simp only at this
    rw [hcur, List.length_cons]
    omega
  result := by
    obtain ⟨ret, items, hloop, hex⟩ := h.result
    refine ⟨ret, itemAt data bytes p :: items, ?_, ?_⟩
    · rw [hrun, Int.bmod_add_bmod, hsize, hloop]
      rfl
    · rw [hfound]
      exact hex.cons hf htotal hsize hin

theorem runsForward_of_modest (hmem : data.mem.length < 2 ^ 63) (hl : bytes ≤ data.rest.length) :
    ∀ (fuel : ℕ) (p : Ptr) (sum : ℤ), p.mem = data.mem → data.off ≤ p.off → 0 ≤ sum →
    ModestFrom data bytes fuel p.off sum → RunsForward data bytes fuel p sum := by
  intro fuel
  have hlen : data.off + bytes ≤ data.mem.length ∨ bytes = 0 := by
    rw [Ptr.rest, List.length_drop] at hl
    omega
  induction fuel with
  | zero =>
    intro p sum _ _ h0 hmod
    exact .ends h0 ((modestFrom_nil rfl).mp hmod) (List.forall_mem_nil _) (Nat.zero_le _) rfl
      fun _ => rfl
  | succ fuel ih =>
    intro p sum hm hp h0 hmod
    cases round fuel hm hp hl with
    | ended hrounds hstill hnone hrun =>
      exact .ends h0 ((modestFrom_nil hnone).mp hmod) hstill hrounds hnone hrun
    | malformed hin hs hf hcur hfound hrun =>
      refine ⟨?_, ?_, _, _, hrun _, ?_⟩
      · rw [hcur]
        intro r hr hpos
        cases List.mem_singleton.mp hr
        omega
      · rw [hcur, List.length_singleton]
        omega
      · rw [hfound]
        exact .malformed hf hin
    | bulk size total hin hf htotal hpresent htotalSize hadvance _ hfound hcur hrun _ _ =>
      obtain ⟨⟨hpos, hint⟩, hrest⟩ := (modestFrom_cons hfound).mp hmod
      -- so the total does not wrap: the bulk ends inside the bytes, or is counted by an `int`
      have hsmall : size < 2 ^ 63 := by
        have := hrest.off_lt_or_sum_lt
        clear hpresent
        omega
      have hsize : (total : ℤ) = size := by omega
      have hnat : size.toNat = total := by omega
      rw [hnat] at hrest hint hfound
      rw [← hpresent] at hint
      have hadd : p.add total = some ⟨p.mem, p.off + total⟩ := by
        rw [Ptr.add, if_pos (by omega)]
      have htail := ih ⟨p.mem, p.off + total⟩ (sum + size) hm (by simp only; omega) (by omega) hrest
      exact htail.cons hpos hsize hin hf htotalSize (hadvance.trans hadd) (hcur hint _ hadd) hfound
        fun parsed => hrun hint parsed _ hadd

/-- The cursor moves forward, and the result is exact, exactly when the bulks in the bytes are
modest. -/
theorem items_forward_iff (memory : data.mem.length < 2 ^ 63) (within : bytes ≤ data.rest.length)
    (maxBulks : ℕ) : MovesForward data bytes maxBulks ↔ Modest data bytes maxBulks := by
  constructor
  · rintro ⟨hadv, -, ret, items, hloop, hex⟩
    exact modestFrom_of_exact within maxBulks data data.off 0 ret items rfl le_rfl le_rfl hadv hloop
      hex
  · intro hmod
    obtain ⟨hadv, hrounds, hresult⟩ :=
      runsForward_of_modest memory within maxBulks data 0 rfl le_rfl le_rfl hmod
    exact ⟨hadv, by omega, hresult⟩

end Whole

def fooAndKey : Ptr := ⟨ascii "$3\r\nfoo\r\n$1\r\nk\r\n", 0⟩

theorem fooAndKey_forward : MovesForward fooAndKey 16 2 :=
  (items_forward_iff (by decide) (by decide) 2).mpr (by decide +kernel)

def wrappedLength : Ptr := ⟨ascii "$3\r\nfoo\r\n$18446744073709551582\r\n", 0⟩

theorem wrappedLength_cursors (n : ℕ) : cursors wrappedLength 32 (n + 2) wrappedLength =
    wrappedLength :: ⟨wrappedLength.mem, 9⟩ :: cursors wrappedLength 32 n wrappedLength := by
  have hfirst : 0 < (itemAt wrappedLength 32 wrappedLength).presentSize ∧
      advance wrappedLength 32 wrappedLength = some ⟨wrappedLength.mem, 9⟩ := by decide +kernel
  have hsecond : 0 < (itemAt wrappedLength 32 ⟨wrappedLength.mem, 9⟩).presentSize ∧
      advance wrappedLength 32 ⟨wrappedLength.mem, 9⟩ = some wrappedLength := by decide +kernel
  rw [cursors, if_pos (by decide), if_pos hfirst.1, hfirst.2]
  simp only
  rw [cursors, if_pos (by decide), if_pos hsecond.1, hsecond.2]

theorem wrappedLength_rounds : ∀ n, (cursors wrappedLength 32 n wrappedLength).length = n
  | 0 => rfl
  | 1 => by decide +kernel
  | n + 2 => by
    rw [wrappedLength_cursors, List.length_cons, List.length_cons, wrappedLength_rounds n]

theorem wrappedLength_not_forward :
    (∀ maxBulks, (cursors wrappedLength 32 maxBulks wrappedLength).length = maxBulks) ∧
      ¬ MovesForward wrappedLength 32 40 := by
  refine ⟨wrappedLength_rounds, fun h => ?_⟩
  have := h.rounds
  rw [wrappedLength_rounds] at this
  omega

end Yarmproxy
