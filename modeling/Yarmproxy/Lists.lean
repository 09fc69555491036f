import Mathlib.Data.List.Flatten
import Mathlib.Data.List.Perm.Subperm
import Mathlib.Logic.Function.Basic

/-! Lists: scans and lookups, reading by position, items dealt out to numbered holders, and logs of
numbered writers. -/
namespace Lists

variable {α β γ : Type*}

/-- A scan passes over `w` and stops at the first byte it looks for. -/
theorem findIdx?_stops {p : α → Bool} {w rest : List α} {c : α}
    (hw : ∀ d ∈ w, p d = false) (hc : p c = true) :
    (w ++ c :: rest).findIdx? p = some w.length := by
  rw [List.findIdx?_append, List.findIdx?_eq_none_iff.mpr hw]
  simp [List.findIdx?_cons, hc]

theorem findIdx?_of_take {l : List α} {p : α → Bool} {n i : ℕ}
    (h : (l.take n).findIdx? p = some i) : l.findIdx? p = some i := by
  rw [← List.take_append_drop n l, List.findIdx?_append, h]
  rfl

theorem split_or (p : α → Bool) (l : List α) :
    (∀ c ∈ l, p c = false) ∨ ∃ k d r, l = k ++ d :: r ∧ (∀ c ∈ k, p c = false) ∧ p d = true := by
  induction l with
  | nil => exact Or.inl (by simp)
  | cons x xs ih =>
    by_cases hx : p x = true
    · exact Or.inr ⟨[], x, xs, rfl, by simp, hx⟩
    · rw [Bool.not_eq_true] at hx
      rcases ih with h | ⟨k, d, r, rfl, hk, hd⟩
      · exact Or.inl (by simpa [hx] using h)
      · exact Or.inr ⟨x :: k, d, r, rfl, by simpa [hx] using hk, hd⟩

theorem split_unique {p : α → Bool} {k r k' r' : List α} {d d' : α}
    (h : k ++ d :: r = k' ++ d' :: r')
    (hk : ∀ c ∈ k, p c = false) (hd : p d = true) (hk' : ∀ c ∈ k', p c = false)
    (hd' : p d' = true) :
    k = k' ∧ d = d' ∧ r = r' := by
  have hlen : k.length = k'.length := by
    have hidx : (k ++ d :: r).findIdx? p = some k.length := findIdx?_stops hk hd
    rw [h, findIdx?_stops hk' hd'] at hidx
    exact (Option.some.inj hidx).symm
  obtain ⟨hkk, hrr⟩ := List.append_inj h hlen
  obtain ⟨hdd, hr⟩ := List.cons.inj hrr
  exact ⟨hkk, hdd, hr⟩

theorem scan_past {p : α → Bool} {u tail : List α} {c : α} {n : ℕ} (hu : ∀ d ∈ u, p d = false)
    (hc : p c = false) (h : (u ++ c :: tail).findIdx? p = some n) : u.length < n := by
  obtain ⟨hn, hp, -⟩ := List.findIdx?_eq_some_iff_getElem.mp h
  by_contra hle
  rcases Nat.lt_or_ge n u.length with hlt | hge
  · rw [List.getElem_append_left hlt, hu _ (List.getElem_mem hlt)] at hp
    cases hp
  · have hn' : n = u.length := by omega
    subst hn'
    simp [hc] at hp

theorem find?_congr_mem {l : List α} {p q : α → Bool} (h : ∀ a ∈ l, p a = q a) :
    l.find? p = l.find? q := by
  induction l with
  | nil => rfl
  | cons a l ih =>
    rw [List.find?_cons, List.find?_cons, h a List.mem_cons_self,
      ih fun b hb => h b (List.mem_cons_of_mem _ hb)]

theorem mem_of_lookup [BEq α] [LawfulBEq α] {m : List (α × β)} {k : α} {v : β}
    (h : m.lookup k = some v) : (k, v) ∈ m := by
  obtain ⟨l₁, l₂, rfl, -⟩ := List.lookup_eq_some_iff.mp h
  exact List.mem_append_right _ (List.mem_cons_self ..)

theorem mem_modify {l : List α} {i : ℕ} {f : α → α} {b : α} (h : b ∈ l.modify i f) :
    b ∈ l ∨ ∃ a ∈ l, b = f a := by
  obtain ⟨j, hj⟩ := List.mem_iff_getElem?.mp h
  rw [List.getElem?_modify, Option.map_eq_map, Option.map_eq_some_iff] at hj
  obtain ⟨a, ha, rfl⟩ := hj
  have hmem := List.mem_of_getElem? ha
  split
  · exact .inr ⟨a, hmem, rfl⟩
  · exact .inl hmem

theorem mapM_congr {f g : α → Option β} {l : List α} (h : ∀ a ∈ l, f a = g a) :
    l.mapM f = l.mapM g := by
  induction l with
  | nil => rfl
  | cons a l ih =>
    rw [List.forall_mem_cons] at h
    rw [List.mapM_cons, List.mapM_cons, h.1, ih h.2]

theorem mapM_eq_none {f : α → Option β} {l : List α} {a : α} (ha : a ∈ l) (hf : f a = none) :
    l.mapM f = none := by
  induction l with
  | nil => exact absurd ha List.not_mem_nil
  | cons b l ih =>
    rw [List.mapM_cons]
    rcases List.mem_cons.mp ha with rfl | ha
    · rw [hf]
      rfl
    · rw [ih ha]
      cases f b <;> rfl

theorem mapM_getElem? {l : List α} (n : ℕ) : ∀ {i : ℕ} {as : List α},
    (List.range' i n).mapM (fun i => l[i]?) = some as → as = (l.drop i).take n := by
  induction n with
  | zero =>
    intro i as h
    obtain rfl := Option.some.inj h
    rfl
  | succ n ih =>
    intro i as h
    rw [List.range'_succ, List.mapM_cons] at h
    obtain ⟨a, ha, h⟩ := Option.bind_eq_some_iff.mp h
    obtain ⟨bs, hbs, h⟩ := Option.bind_eq_some_iff.mp h
    obtain rfl := Option.some.inj h
    obtain ⟨hi, rfl⟩ := List.getElem?_eq_some_iff.mp ha
    rw [ih hbs, List.drop_eq_getElem_cons hi, List.take_succ_cons]

theorem mapM_getElem?_some {l : List α} (n : ℕ) : ∀ {i : ℕ}, i + n ≤ l.length →
    (List.range' i n).mapM (fun i => l[i]?) = some ((l.drop i).take n) := by
  induction n with
  | zero =>
    intro i _
    rfl
  | succ n ih =>
    intro i hi
    rw [List.range'_succ, List.mapM_cons, ih (by omega), List.getElem?_eq_getElem (by omega),
      List.drop_eq_getElem_cons (by omega : i < l.length)]
    rfl

theorem map_eq_map_of_getElem? {as : List α} {bs : List β} {f : α → γ} {g : β → γ}
    (hl : as.length = bs.length)
    (h : ∀ (i : ℕ) b a, as[i]? = some a → bs[i]? = some b → f a = g b) : as.map f = bs.map g := by
  apply List.ext_getElem (by simpa using hl)
  intro i h₁ h₂
  rw [List.length_map] at h₁ h₂
  rw [List.getElem_map, List.getElem_map]
  exact h i _ _ (List.getElem?_eq_getElem h₁) (List.getElem?_eq_getElem h₂)

theorem foldlM_preserves {f : β → α → Option β} {P : β → Prop}
    (hf : ∀ s a s', P s → f s a = some s' → P s') (as : List α) {s s' : β} (hs : P s)
    (h : as.foldlM f s = some s') : P s' := by
  induction as generalizing s with
  | nil =>
    obtain rfl := Option.some.inj h
    exact hs
  | cons a as ih =>
    rw [List.foldlM_cons] at h
    obtain ⟨t, ht, h⟩ := Option.bind_eq_some_iff.mp h
    exact ih (hf s a t hs ht) h

end Lists

/-! Holders are numbered, and each has a share of the items. An item goes to a holder that is there
or to a new one; either way all the shares together are the items dealt so far. -/
namespace Shares

variable {α : Type*} {b n : ℕ} {l : List ℕ}

theorem flatMap_update (hl : l.Nodup) (hb : b ∈ l) (share : ℕ → List α) (a : α) :
    (l.flatMap (Function.update share b (share b ++ [a]))).Perm (l.flatMap share ++ [a]) := by
  induction l with
  | nil => cases hb
  | cons i l ih =>
    obtain ⟨hi, hl⟩ := List.nodup_cons.mp hl
    rw [List.flatMap_cons, List.flatMap_cons]
    by_cases he : i = b
    · subst he
      have hrest : l.flatMap (Function.update share i (share i ++ [a])) = l.flatMap share :=
        List.flatMap_congr fun j hj =>
          Function.update_of_ne (fun hji : j = i => hi (hji ▸ hj)) _ _
      rw [Function.update_self, hrest, List.append_assoc, List.append_assoc]
      exact List.perm_append_comm.append_left _
    · rw [Function.update_of_ne he, List.append_assoc]
      exact (ih hl ((List.mem_cons.mp hb).resolve_left (Ne.symm he))).append_left _

theorem grow (hb : b < n) (share : ℕ → List α) (a : α) :
    ((List.range n).flatMap (Function.update share b (share b ++ [a]))).Perm
      ((List.range n).flatMap share ++ [a]) :=
  flatMap_update List.nodup_range (List.mem_range.mpr hb) share a

theorem extend (share : ℕ → List α) (n : ℕ) (a : α) :
    (List.range (n + 1)).flatMap (Function.update share n [a]) = (List.range n).flatMap share ++
      [a] := by
  have hold : ∀ i ∈ List.range n, Function.update share n [a] i = share i :=
    fun i hi => Function.update_of_ne (Nat.ne_of_lt (List.mem_range.mp hi)) _ _
  rw [List.range_succ, List.flatMap_append, List.flatMap_singleton, Function.update_self,
    List.flatMap_congr hold]

theorem subperm (hb : b < n) (share : ℕ → List α) :
    (share b).Subperm ((List.range n).flatMap share) := by
  obtain ⟨before, after, hsplit⟩ := List.append_of_mem (List.mem_range.mpr hb)
  rw [hsplit, List.flatMap_append, List.flatMap_cons]
  exact ((List.sublist_append_left _ _).trans (List.sublist_append_right _ _)).subperm

end Shares

/-! A writer appends pieces of its text under its own number; a log whose numbers never decrease
reads as the texts of the writers one after the other. -/
namespace KeyedLog

variable {β : Type*} {l new : List (ℕ × List β)} {n : ℕ}

/-- The log as one text. -/
def text (l : List (ℕ × List β)) : List β := l.flatMap Prod.snd

/-- What the writer `k` has contributed. -/
def textOf (l : List (ℕ × List β)) (k : ℕ) : List β := text (l.filter fun r => r.1 = k)

/-- The writers take turns in the order of their numbers. -/
def Sorted (l : List (ℕ × List β)) : Prop := l.Pairwise fun r r' => r.1 ≤ r'.1

theorem text_append : text (l ++ new) = text l ++ text new := List.flatMap_append

theorem textOf_append (k : ℕ) : textOf (l ++ new) k = textOf l k ++ textOf new k := by
  rw [textOf, List.filter_append, text_append]
  rfl

theorem textOf_eq_nil {k : ℕ} (h : ∀ r ∈ l, r.1 ≠ k) : textOf l k = [] := by
  have hnone : l.filter (fun r => decide (r.1 = k)) = [] := by
    rw [List.filter_eq_nil_iff]
    intro r hr
    simpa using h r hr
  rw [textOf, hnone]
  rfl

theorem Sorted.append (hl : Sorted l) (hnew : Sorted new) (h : ∀ r ∈ l, ∀ r' ∈ new, r.1 ≤ r'.1) :
    Sorted (l ++ new) := List.pairwise_append.mpr ⟨hl, hnew, h⟩

theorem sorted_singleton (r : ℕ × List β) : Sorted [r] := List.pairwise_singleton ..

/-- The entries below `n + 1` are those below `n`, and behind them those of `n`. -/
theorem Sorted.filter_succ (h : Sorted l) (n : ℕ) :
    l.filter (fun r => decide (r.1 < n + 1)) =
      l.filter (fun r => decide (r.1 < n)) ++ l.filter fun r => decide (r.1 = n) := by
  induction l with
  | nil => rfl
  | cons r l ih =>
    obtain ⟨hr, hl⟩ := List.pairwise_cons.mp h
    rw [List.filter_cons, List.filter_cons, List.filter_cons, ih hl]
    rcases Nat.lt_trichotomy r.1 n with hlt | heq | hgt
    · rw [if_pos (decide_eq_true (by omega)), if_pos (decide_eq_true hlt), if_neg (by simp; omega)]
      rfl
    · -- nothing below `n` is left behind the first entry of `n`
      have hnone : l.filter (fun r => decide (r.1 < n)) = [] := by
        rw [List.filter_eq_nil_iff]
        intro r' hr'
        simpa [heq] using hr r' hr'
      rw [if_pos (decide_eq_true (by omega)), if_neg (by simp; omega), if_pos (decide_eq_true heq),
        hnone]
      rfl
    · rw [if_neg (by simp; omega), if_neg (by simp; omega), if_neg (by simp; omega)]

theorem Sorted.text_filter_lt (h : Sorted l) (n : ℕ) :
    text (l.filter fun r => decide (r.1 < n)) = (List.range n).flatMap (textOf l) := by
  induction n with
  | zero =>
    rw [List.filter_eq_nil_iff.mpr (by simp)]
    rfl
  | succ n ih =>
    rw [h.filter_succ, text_append, ih, List.range_succ, List.flatMap_append,
      List.flatMap_singleton]
    rfl

theorem Sorted.text_eq (h : Sorted l) (hn : ∀ r ∈ l, r.1 < n) :
    text l = (List.range n).flatMap (textOf l) := by
  rw [← h.text_filter_lt n, List.filter_eq_self.mpr fun r hr => decide_eq_true (hn r hr)]

/-- A part of a sorted log that ends with the writer `n`: the whole texts of the writers before, and
the beginning of that of `n`. -/
theorem Sorted.text_part (h : Sorted l) (hl : ∀ r ∈ l, r.1 ≤ n) (hnew : ∀ r ∈ new, n ≤ r.1) :
    text l = (List.range n).flatMap (textOf (l ++ new)) ++ textOf l n ∧
      textOf l n <+: textOf (l ++ new) n := by
  refine ⟨?_, ⟨textOf new n, (textOf_append n).symm⟩⟩
  rw [h.text_eq fun r hr => Nat.lt_succ_of_le (hl r hr), List.range_succ, List.flatMap_append,
    List.flatMap_singleton]
  congr 1
  refine List.flatMap_congr fun k hk => ?_
  have hnone : textOf new k = [] := textOf_eq_nil fun r hr => by
    have := hnew r hr
    have := List.mem_range.mp hk
    omega
  rw [textOf_append, hnone, List.append_nil]

end KeyedLog
