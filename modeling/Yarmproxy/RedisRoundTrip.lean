import Yarmproxy.RedisArrays

/-! # Decoding undoes encoding, at every cut

`BulkArray` over an encoded array, complete or cut anywhere behind its first line. The sizes
agree with the encoding as long as its length fits the `int` in which they are summed. -/
namespace Yarmproxy

/-- Where item `i` starts, counted from the first item. -/
def itemStart (its : List Item) (i : ℕ) : ℕ := (encodeItems (its.take i)).length

@[simp] theorem itemStart_zero (its : List Item) : itemStart its 0 = 0 := rfl

theorem itemStart_cons (it : Item) (its : List Item) (i : ℕ) :
    itemStart (it :: its) (i + 1) = itemSize it + itemStart its i :=
  length_encodeItems_cons it (its.take i)

theorem itemStart_succ {its : List Item} {i : ℕ} {it : Item} (h : its[i]? = some it) :
    itemStart its (i + 1) = itemStart its i + itemSize it := by
  rw [itemStart, itemStart, List.take_add_one, h, Option.toList_some]
  simp [encodeItems, itemSize]

theorem encodeItems_split (its : List Item) (i : ℕ) :
    encodeItems its = encodeItems (its.take i) ++ encodeItems (its.drop i) := by
  rw [encodeItems, encodeItems, encodeItems, ← List.flatMap_append, List.take_append_drop]

theorem itemStart_le (its : List Item) (i : ℕ) : itemStart its i ≤ (encodeItems its).length := by
  rw [itemStart, encodeItems_split its i, List.length_append]
  exact Nat.le_add_right _ _

theorem itemStart_add (its : List Item) (i j : ℕ) :
    itemStart its (i + j) = itemStart its i + itemStart (its.drop i) j := by
  rw [itemStart, itemStart, itemStart, List.take_add, encodeItems, encodeItems, encodeItems,
    List.flatMap_append, List.length_append]

theorem drop_encodeArray (its : List Item) (rest : Bytes) (i : ℕ) :
    (encodeArray its ++ rest).drop ((serializePrefix its.length).length + itemStart its i) =
      encodeItems (its.drop i) ++ rest := by
  rw [← List.drop_drop, encodeArray, List.append_assoc, List.drop_left, encodeItems_split its i,
    itemStart, List.append_assoc, List.drop_left]

theorem presentTotal_le (its : List Item) : ∀ n, presentTotal its n ≤ (encodeItems its).length := by
  induction its with
  | nil => exact fun _ => le_rfl
  | cons it its ih =>
    intro n
    have := ih (n - itemSize it)
    rw [presentTotal, length_encodeItems_cons]
    split
    · exact Nat.zero_le _
    · omega

section Present
variable {mem : Bytes} {its : List Item} {it : Item} {i : ℕ}

theorem getElem?_presentItems (mem : Bytes) :
    ∀ {its : List Item} {i : ℕ} (off n : ℕ), its[i]? = some it →
    (presentItems mem off its n)[i]? =
      if itemStart its i + headerSize it ≤ n then
        some ⟨⟨mem, off + itemStart its i⟩, (min (n - itemStart its i) (itemSize it) : ℕ)⟩
      else none := by
  intro its
  induction its with
  | nil => intro i off n h; cases h
  | cons head its ih =>
    intro i off n h
    have hle := headerSize_le head
    rw [presentItems]
    cases i with
    | zero =>
      obtain rfl : head = it := Option.some.inj h
      by_cases hn : n < headerSize head
      · rw [if_pos hn, if_neg (by simp; omega)]
        rfl
      · rw [if_neg hn, if_pos (by simp; omega)]
        rfl
    | succ i =>
      have h4 := four_le_headerSize it
      rw [itemStart_cons]
      by_cases hn : n < headerSize head
      · rw [if_pos hn, if_neg (by omega)]
        rfl
      · rw [if_neg hn, List.getElem?_cons_succ, ih (off + itemSize head) (n - itemSize head) h]
        by_cases hi : itemStart its i + headerSize it ≤ n - itemSize head
        · rw [if_pos hi, if_pos (by omega), Nat.sub_sub, Nat.add_assoc]
        · rw [if_neg hi, if_neg (by omega)]

theorem length_presentItems_le : ∀ (its : List Item) (off n : ℕ),
    (presentItems mem off its n).length ≤ its.length := by
  intro its
  induction its with
  | nil => exact fun _ _ => le_rfl
  | cons it its ih =>
    intro off n
    have := ih (off + itemSize it) (n - itemSize it)
    rw [presentItems]
    split
    · exact Nat.zero_le _
    · simp only [List.length_cons]
      omega

theorem lt_length_presentItems {off n : ℕ} : i < (presentItems mem off its n).length ↔
    ∃ it, its[i]? = some it ∧ itemStart its i + headerSize it ≤ n := by
  constructor
  · intro h
    have hi := Nat.lt_of_lt_of_le h (length_presentItems_le its off n)
    refine ⟨its[i], List.getElem?_eq_getElem hi, ?_⟩
    by_contra hn
    have := getElem?_presentItems mem off n (List.getElem?_eq_getElem hi)
    rw [if_neg hn, List.getElem?_eq_none_iff] at this
    omega
  · rintro ⟨it, hit, hn⟩
    have := getElem?_presentItems mem off n hit
    rw [if_pos hn] at this
    exact (List.getElem?_eq_some_iff.mp this).1

theorem itemStart_le_of_present {off n : ℕ} (h : i < (presentItems mem off its n).length) :
    itemStart its i ≤ n := by
  obtain ⟨_, _, hn⟩ := lt_length_presentItems.mp h
  omega

theorem rest_itemStart {rest : Bytes} : ∀ {its : List Item} {i : ℕ} (off n : ℕ), its[i]? = some it →
    (mem.drop off).take n = (encodeItems its ++ rest).take n →
    ∃ tail, (mem.drop (off + itemStart its i)).take (n - itemStart its i) =
      (encodeItem it ++ tail).take (n - itemStart its i) := by
  intro its
  induction its with
  | nil => intro i off n h; cases h
  | cons head its ih =>
    intro i off n h hm
    have hm' : (mem.drop off).take n = (encodeItem head ++ (encodeItems its ++ rest)).take n := by
      rw [hm, encodeItems, encodeItems, List.flatMap_cons, List.append_assoc]
    cases i with
    | zero =>
      obtain rfl : head = it := Option.some.inj h
      exact ⟨_, hm'⟩
    | succ i =>
      have hdrop := drop_take_eq hm' (itemSize head)
      rw [List.drop_drop, itemSize, List.drop_left] at hdrop
      obtain ⟨tail, ht⟩ := ih (off + itemSize head) (n - itemSize head) h hdrop
      rw [itemStart_cons, ← Nat.add_assoc, ← Nat.sub_sub]
      exact ⟨tail, ht⟩

theorem bulk_presentItems {rest : Bytes} {off n : ℕ} {bulk : Bulk} (hs : itemSize it < 2 ^ 31)
    (hm : (mem.drop off).take n = (encodeItems its ++ rest).take n) (hit : its[i]? = some it)
    (hb : (presentItems mem off its n)[i]? = some bulk) :
    bulk = ⟨⟨mem, off + itemStart its i⟩, (min (n - itemStart its i) (itemSize it) : ℕ)⟩ ∧
      bulk.totalSize = some (itemSize it) ∧
      bulk.absentSize = some (itemStart its (i + 1) - n) ∧
      ∃ tail, headerSize it ≤ n - itemStart its i ∧
        bulk.rawData.rest.take (n - itemStart its i) =
          (encodeItem it ++ tail).take (n - itemStart its i) := by
  rw [getElem?_presentItems _ _ _ hit] at hb
  split at hb
  next hh =>
    obtain rfl := Option.some.inj hb
    obtain ⟨tail, ht⟩ := rest_itemStart _ _ hit hm
    have htotal : Bulk.totalOf (Ptr.rest ⟨mem, off + itemStart its i⟩) = some (itemSize it) :=
      totalOf_item ht (by omega) (by omega)
    refine ⟨rfl, htotal, ?_, tail, by omega, ht⟩
    rw [absentSize_item (by omega) (by omega) htotal, itemStart_succ hit]
    congr 1
    omega
  next => cases hb

theorem completed_presentItems {rest : Bytes} {off n : ℕ} {bulk : Bulk} (hs : itemSize it < 2 ^ 31)
    (hm : (mem.drop off).take n = (encodeItems its ++ rest).take n) (hit : its[i]? = some it)
    (hb : (presentItems mem off its n)[i]? = some bulk) :
    bulk.completed = some (decide (itemStart its (i + 1) ≤ n)) := by
  obtain ⟨hbulk, _, habsent, _, hh, _⟩ := bulk_presentItems hs hm hit hb
  have h4 := four_le_headerSize it
  have hle := headerSize_le it
  have hpos : 0 < bulk.presentSize := by
    rw [hbulk]
    dsimp only
    omega
  rw [Bulk.completed, if_pos hpos, habsent]
  simp only [Option.map_some, Option.some.injEq]
  rw [Bool.eq_iff_iff, beq_iff_eq, decide_eq_true_iff]
  omega

theorem length_presentItems_eq (mem' : Bytes) (off off' n : ℕ) :
    (presentItems mem off its n).length = (presentItems mem' off' its n).length :=
  eq_of_forall_lt_iff fun i => by rw [lt_length_presentItems, lt_length_presentItems]

theorem presentTotal_eq : ∀ (its : List Item) (off n : ℕ),
    presentTotal its n = itemStart its (presentItems mem off its n).length := by
  intro its
  induction its with
  | nil => exact fun _ _ => rfl
  | cons it its ih =>
    intro off n
    rw [presentTotal, presentItems]
    split
    · rfl
    · rw [List.length_cons, itemStart_cons, ih (off + itemSize it)]

end Present

def encodeStrings (strs : List Bytes) : Bytes := encodeArray (strs.map some)

/-- Where bulk `i` starts in the encoding. -/
def bulkStart (strs : List Bytes) (i : ℕ) : ℕ :=
  (serializePrefix strs.length).length + itemStart (strs.map some) i

/-- What is reported on a complete encoding. -/
structure DecodedWhole (strs : List Bytes) (ba : BulkArray) : Prop where
  completed : ba.completed = some true
  totalBulks : ba.totalBulks = strs.length
  presentBulks : ba.presentBulks = strs.length
  totalSize : ba.totalSize = some (encodeStrings strs).length
  parsedSize : ba.parsedSize = (encodeStrings strs).length
  payload : ba.items.map Bulk.payload = strs.map some
  payloadSize : ba.items.map Bulk.payloadSize = strs.map List.length

/-- What is reported on the first `n` bytes of an encoding. -/
structure DecodedPart (strs : List Bytes) (data : Ptr) (n : ℕ) (ba : BulkArray) : Prop where
  noError : 0 ≤ ba.parsedSize
  incomplete : ba.completed = some false
  present : ∀ i, i < ba.presentBulks ↔
    ∃ v, strs[i]? = some v ∧ bulkStart strs i + headerSize (some v) ≤ n
  bulk : ∀ i bulk, ba.items[i]? = some bulk →
    bulk.rawData = ⟨data.mem, data.off + bulkStart strs i⟩ ∧
      bulk.absentSize = some (bulkStart strs (i + 1) - n)
  whole : ∀ i bulk, ba.items[i]? = some bulk → i + 1 < ba.presentBulks → bulk.absentSize = some 0

/-- The parser reads back `strs` from its encoding, whatever follows, and makes of every proper
part with the first line exactly what has arrived. -/
structure RoundTrip (strs : List Bytes) : Prop where
  whole : ∀ data n, n ≤ data.rest.length → encodeStrings strs <+: data.bytes n →
    ∃ ba, BulkArray.parse data n = some ba ∧ DecodedWhole strs ba
  part : ∀ data n, n ≤ data.rest.length → data.bytes n <+: encodeStrings strs →
    (serializePrefix strs.length).length ≤ n → n < (encodeStrings strs).length →
    ∃ ba, BulkArray.parse data n = some ba ∧ DecodedPart strs data n ba

section RoundTrip
variable {strs : List Bytes} {data : Ptr} {n : ℕ}

theorem length_encodeStrings (strs : List Bytes) : (encodeStrings strs).length =
    (serializePrefix strs.length).length + (encodeItems (strs.map some)).length := by
  rw [encodeStrings, encodeArray, List.length_append, List.length_map]

theorem itemSize_le_of_mem {its : List Item} {it : Item} (h : it ∈ its) :
    itemSize it ≤ (encodeItems its).length := by
  obtain ⟨i, hi, rfl⟩ := List.getElem_of_mem h
  have := itemStart_succ (List.getElem?_eq_getElem hi)
  have := itemStart_le its (i + 1)
  omega

theorem length_le_encodeItems (its : List Item) : its.length ≤ (encodeItems its).length := by
  induction its with
  | nil => exact le_rfl
  | cons it its ih =>
    have h4 := four_le_headerSize it
    have hle := headerSize_le it
    rw [length_encodeItems_cons, List.length_cons]
    omega

theorem length_encodeArray (its : List Item) : (encodeArray its).length =
    (serializePrefix its.length).length + (encodeItems its).length := by
  rw [encodeArray, List.length_append]

theorem length_lt_of_small {its : List Item} (h : (encodeArray its).length < 2 ^ 31) :
    its.length < 2 ^ 31 := by
  have hle := length_le_encodeItems its
  rw [length_encodeArray] at h
  omega

theorem itemSize_lt_of_small {its : List Item} (h : (encodeArray its).length < 2 ^ 31) :
    ∀ it ∈ its, itemSize it < 2 ^ 31 := by
  intro it hit
  have := itemSize_le_of_mem hit
  rw [length_encodeArray] at h
  omega

theorem parsedSize_small {its : List Item} (hs : (encodeArray its).length < 2 ^ 31) :
    (BulkArray.parsedArray data its n).parsedSize =
      ((serializePrefix its.length).length +
        presentTotal its (n - (serializePrefix its.length).length) : ℕ) := by
  rw [encodeArray, List.length_append] at hs
  have hle := presentTotal_le its (n - (serializePrefix its.length).length)
  have hb : Int.bmod (presentTotal its (n - (serializePrefix its.length).length)) (2 ^ 32) =
      (presentTotal its (n - (serializePrefix its.length).length) : ℕ) :=
    Int.bmod_eq_of_le (by omega) (by omega)
  rw [BulkArray.parsedArray, BulkArray.ofItems]
  simp only [hb]
  rw [if_neg (by omega), intToSize_natCast (by omega), addSize_eq (by omega)]
  have hlt : (serializePrefix its.length).length +
      presentTotal its (n - (serializePrefix its.length).length) < 2 ^ 31 := by omega
  exact sizeToInt_eq hlt

theorem foldlM_totalSize : ∀ (its : List Item) (bulks : List Bulk) (t : ℕ),
    bulks.map Bulk.totalSize = its.map (fun it => some (itemSize it)) →
    t + (encodeItems its).length < 2 ^ 64 →
    bulks.foldlM (fun total item => item.totalSize.map (addSize total)) t =
      some (t + (encodeItems its).length) := by
  intro its
  induction its with
  | nil =>
    intro bulks t h _
    obtain rfl : bulks = [] := by simpa using h
    rfl
  | cons it its ih =>
    intro bulks t h hb
    obtain ⟨bulk, bulks, rfl⟩ : ∃ b bs, bulks = b :: bs := by
      cases bulks with
      | nil => cases h
      | cons b bs => exact ⟨b, bs, rfl⟩
    simp only [List.map_cons, List.cons.injEq] at h
    rw [length_encodeItems_cons] at hb ⊢
    rw [List.foldlM_cons, h.1, Option.map_some, Option.bind_eq_bind, Option.bind_some,
      addSize_eq (by omega), ih bulks _ h.2 (by omega), Nat.add_assoc]

theorem bulk_parsedArray {its : List Item} {rest : Bytes} {i : ℕ} {it : Item} {bulk : Bulk}
    (hm : data.rest.take n = (encodeArray its ++ rest).take n)
    (hn : (serializePrefix its.length).length ≤ n) (hs : itemSize it < 2 ^ 31)
    (hit : its[i]? = some it) (hb : (BulkArray.parsedArray data its n).items[i]? = some bulk) :
    bulk.rawData = ⟨data.mem, data.off + (serializePrefix its.length).length + itemStart its i⟩ ∧
      bulk.totalSize = some (itemSize it) ∧
      bulk.absentSize = some ((serializePrefix its.length).length + itemStart its (i + 1) - n) ∧
      ∃ m tail, headerSize it ≤ m ∧ m = n - (serializePrefix its.length).length - itemStart its i ∧
        bulk.rawData.rest.take m = (encodeItem it ++ tail).take m := by
  rw [BulkArray.items_parsedArray] at hb
  have hdrop := drop_take_eq hm (serializePrefix its.length).length
  rw [encodeArray, List.append_assoc, List.drop_left, Ptr.rest, List.drop_drop] at hdrop
  obtain ⟨hbulk, htotal, habsent, tail, hh, hmem⟩ := bulk_presentItems hs hdrop hit hb
  refine ⟨by rw [hbulk], htotal, ?_, _, tail, hh, rfl, hmem⟩
  rw [habsent]
  congr 1
  omega

theorem completed_parsedArray {its : List Item} {rest : Bytes} (hne : its ≠ [])
    (hm : data.rest.take n = (encodeArray its ++ rest).take n)
    (hn : (serializePrefix its.length).length ≤ n) (hs : ∀ it ∈ its, itemSize it < 2 ^ 31)
    (hc : its.length < 2 ^ 31) :
    (BulkArray.parsedArray data its n).completed =
      some (decide ((encodeArray its).length ≤ n)) := by
  have htotal : (BulkArray.parsedArray data its n).totalBulks = its.length :=
    BulkArray.totalBulks_encoded BulkArray.rawData_parsedArray hm hn hc
  obtain ⟨k, hk⟩ : ∃ k, its.length = k + 1 :=
    Nat.exists_eq_add_one.mpr (List.length_pos_iff.mpr hne)
  have hlast : its[k]? = some (its.get ⟨k, by omega⟩) := List.getElem?_eq_getElem (by omega)
  have hend : itemStart its (k + 1) = (encodeItems its).length := by
    rw [itemStart, ← hk, List.take_length]
  have hlen : (encodeArray its).length =
      (serializePrefix its.length).length + (encodeItems its).length := by
    rw [encodeArray, List.length_append]
  rw [BulkArray.completed, htotal]
  by_cases hp : (BulkArray.parsedArray data its n).items.length = its.length
  · obtain ⟨bulk, hbulk⟩ : ∃ bulk, (BulkArray.parsedArray data its n).items[k]? = some bulk :=
      ⟨_, List.getElem?_eq_getElem (by omega)⟩
    obtain ⟨_, _, habsent, _⟩ := bulk_parsedArray hm hn (hs _ (List.getElem_mem _)) hlast hbulk
    have hget : (BulkArray.parsedArray data its n).items.getLast? = some bulk := by
      rw [List.getLast?_eq_getElem?, hp, hk]
      exact hbulk
    rw [hend, ← hlen] at habsent
    rw [if_neg (not_not.mpr hp), hget]
    simp only [habsent, Option.map_some]
    generalize (encodeArray its).length = total
    have hdec : (!decide (0 < total - n)) = decide (total ≤ n) := by
      rw [← decide_not]
      exact decide_eq_decide.mpr (by omega)
    exact congrArg some hdec
  · -- the header of some bulk is missing
    rw [if_pos hp, decide_eq_false]
    intro hle
    apply hp
    rw [BulkArray.items_parsedArray, presentItems_whole _ _ _ (by omega), length_wholeItems]

def WholeBulk (it : Item) (bulk : Bulk) : Prop :=
  bulk.totalSize = some (itemSize it) ∧ ∃ m tail, itemSize it ≤ m ∧ m ≤ bulk.rawData.rest.length ∧
    bulk.rawData.rest.take m = (encodeItem it ++ tail).take m

theorem item_some {i : ℕ} {it : Item} (h : (strs.map some)[i]? = some it) :
    ∃ v, strs[i]? = some v ∧ some v = it := by
  rwa [List.getElem?_map, Option.map_eq_some_iff] at h

theorem item_of_bulk {its : List Item} {i : ℕ} {bulk : Bulk}
    (hb : (BulkArray.parsedArray data its n).items[i]? = some bulk) : ∃ it, its[i]? = some it := by
  obtain ⟨hi, _⟩ := List.getElem?_eq_some_iff.mp hb
  rw [BulkArray.items_parsedArray] at hi
  obtain ⟨it, hit, _⟩ := lt_length_presentItems.mp hi
  exact ⟨it, hit⟩

theorem parse_small {its : List Item} {rest : Bytes} (hsmall : (encodeArray its).length < 2 ^ 31)
    (hl : n ≤ data.rest.length) (hm : data.rest.take n = (encodeArray its ++ rest).take n)
    (hn : (serializePrefix its.length).length ≤ n) :
    BulkArray.parse data n = some (BulkArray.parsedArray data its n) := by
  refine BulkArray.parse_encoded hm hl (fun it hit => ?_) (fun it hit => ?_)
    ((length_lt_of_small hsmall).trans (by decide)) hn
  · exact lt_of_le_of_lt (Nat.min_le_right _ _) (itemSize_lt_of_small hsmall it hit)
  · exact (itemSize_lt_of_small hsmall it hit).trans (by decide)

theorem decodedPart (hne : strs ≠ []) (hsmall : (encodeStrings strs).length < 2 ^ 31)
    (hl : n ≤ data.rest.length) (hpre : data.bytes n <+: encodeStrings strs)
    (hn : (serializePrefix strs.length).length ≤ n) (hlt : n < (encodeStrings strs).length) :
    ∃ ba, BulkArray.parse data n = some ba ∧ DecodedPart strs data n ba := by
  have hm : data.rest.take n = (encodeStrings strs ++ []).take n := by
    have hlen : (data.bytes n).length = n := by
      rw [Ptr.bytes, List.length_take]
      omega
    have := List.prefix_iff_eq_take.mp hpre
    rwa [hlen, ← List.append_nil (encodeStrings strs)] at this
  have hmap : (strs.map (some : Bytes → Item)).length = strs.length := List.length_map _
  have hsize := itemSize_lt_of_small hsmall
  refine ⟨_, parse_small hsmall hl hm (hmap ▸ hn), ?_, ?_, ?_, ?_, ?_⟩
  · rw [parsedSize_small hsmall]
    exact Int.natCast_nonneg _
  · rw [completed_parsedArray (by simpa using hne) hm (hmap ▸ hn) hsize (length_lt_of_small hsmall)]
    congr 1
    exact decide_eq_false (by rw [← encodeStrings]; omega)
  · intro i
    rw [BulkArray.presentBulks, BulkArray.items_parsedArray, lt_length_presentItems, hmap]
    constructor
    · rintro ⟨it, hit, hle⟩
      obtain ⟨v, hv, rfl⟩ := item_some hit
      exact ⟨v, hv, by rw [bulkStart]; omega⟩
    · rintro ⟨v, hv, hle⟩
      rw [bulkStart] at hle
      exact ⟨some v, by rw [List.getElem?_map, hv]; rfl, by omega⟩
  · intro i bulk hb
    obtain ⟨it, hit⟩ := item_of_bulk hb
    obtain ⟨hraw, _, habsent, _⟩ :=
      bulk_parsedArray hm (hmap ▸ hn) (hsize it (List.mem_of_getElem? hit)) hit hb
    rw [hmap] at hraw habsent
    refine ⟨by rw [hraw, bulkStart, Nat.add_assoc], by rw [habsent, bulkStart]⟩
  · intro i bulk hb hi
    obtain ⟨it, hit⟩ := item_of_bulk hb
    obtain ⟨_, _, habsent, _⟩ :=
      bulk_parsedArray hm (hmap ▸ hn) (hsize it (List.mem_of_getElem? hit)) hit hb
    rw [BulkArray.presentBulks, BulkArray.items_parsedArray] at hi
    have hnext := itemStart_le_of_present hi
    rw [hmap] at habsent hnext
    rw [habsent, Nat.sub_eq_zero_of_le (by omega)]

/-- What is reported on an array that has arrived to its last byte. -/
structure WholeArray (its : List Item) (ba : BulkArray) : Prop where
  completed : ba.completed = some true
  totalBulks : ba.totalBulks = its.length
  presentBulks : ba.presentBulks = its.length
  totalSize : ba.totalSize = some (encodeArray its).length
  parsedSize : ba.parsedSize = (encodeArray its).length
  bulk : ∀ (i : ℕ) it bulk, ba.items[i]? = some bulk → its[i]? = some it → WholeBulk it bulk
  bulkCompleted : ∀ (i : ℕ) bulk, ba.items[i]? = some bulk →
    bulk.absentSize = some 0 ∧ bulk.completed = some true

section Whole
variable {its : List Item} {rest : Bytes}

theorem bulk_whole (hsmall : (encodeArray its).length < 2 ^ 31) (hl : n ≤ data.rest.length)
    (hm : data.rest.take n = (encodeArray its ++ rest).take n) (hle : (encodeArray its).length ≤ n)
    {i : ℕ} {it : Item} {bulk : Bulk} (hit : its[i]? = some it)
    (hb : (BulkArray.parsedArray data its n).items[i]? = some bulk) :
    WholeBulk it bulk ∧ bulk.absentSize = some 0 ∧ bulk.completed = some true := by
  have hlen := length_encodeArray its
  have hsize := itemSize_lt_of_small hsmall it (List.mem_of_getElem? hit)
  have hend := itemStart_succ hit
  have hle' := itemStart_le its (i + 1)
  have hheader := four_le_headerSize it
  have hpresent : 0 < bulk.presentSize := by
    have := hb
    rw [BulkArray.items_parsedArray, getElem?_presentItems _ _ _ hit] at this
    split at this
    next hh =>
      obtain rfl := Option.some.inj this
      have := headerSize_le it
      dsimp only
      omega
    next => cases this
  obtain ⟨hraw, htotal, habsent, m, tail, hh, rfl, hmem⟩ :=
    bulk_parsedArray hm (by omega) hsize hit hb
  rw [Nat.sub_eq_zero_of_le (by omega)] at habsent
  refine ⟨⟨htotal, _, tail, by omega, ?_, hmem⟩, habsent, ?_⟩
  · rw [hraw, Ptr.rest, List.length_drop]
    rw [Ptr.rest, List.length_drop] at hl
    dsimp only
    omega
  · rw [Bulk.completed, if_pos hpresent, habsent]
    rfl

theorem totalSize_whole (hne : its ≠ []) (hsmall : (encodeArray its).length < 2 ^ 31)
    (hl : n ≤ data.rest.length) (hm : data.rest.take n = (encodeArray its ++ rest).take n)
    (hle : (encodeArray its).length ≤ n)
    (hitems : (BulkArray.parsedArray data its n).items.length = its.length)
    (htotal : (BulkArray.parsedArray data its n).totalBulks = its.length) :
    (BulkArray.parsedArray data its n).totalSize = some (encodeArray its).length := by
  have hlen := length_encodeArray its
  obtain ⟨front, tail, hfront⟩ : ∃ front tail,
      (BulkArray.parsedArray data its n).items = front :: tail := by
    apply List.exists_cons_of_length_pos
    rw [hitems]
    exact List.length_pos_iff.mpr hne
  have hfirst : its[0]? = some (its.head hne) := by
    rw [← List.head?_eq_getElem?, List.head?_eq_some_head hne]
  have hget : (BulkArray.parsedArray data its n).items[0]? = some front := by
    rw [hfront]
    rfl
  obtain ⟨hraw, _⟩ := bulk_parsedArray hm (by omega)
    (itemSize_lt_of_small hsmall _ (List.mem_of_getElem? hfirst)) hfirst hget
  have hsizes := Lists.map_eq_map_of_getElem? (f := Bulk.totalSize)
    (g := fun it => some (itemSize it))
    hitems fun i it bulk hb hit => (bulk_whole hsmall hl hm hle hit hb).1.1
  rw [BulkArray.totalSize, htotal, if_neg (by rw [hitems]; omega),
    if_neg (List.length_pos_iff.mpr hne).ne', hfront]
  simp only [hraw, BulkArray.rawData_parsedArray, itemStart_zero]
  rw [hfront] at hsizes
  rw [foldlM_totalSize its _ _ hsizes (by omega), hlen]
  exact congrArg some (by omega)

theorem wholeArray (hne : its ≠ []) (hsmall : (encodeArray its).length < 2 ^ 31)
    (hl : n ≤ data.rest.length) (hpre : encodeArray its <+: data.bytes n) :
    ∃ ba, BulkArray.parse data n = some ba ∧ WholeArray its ba := by
  have hlen := length_encodeArray its
  have hle : (encodeArray its).length ≤ n := by
    have := hpre.length_le
    rw [Ptr.bytes, List.length_take] at this
    omega
  obtain ⟨rest, hrest⟩ := hpre
  have hm : data.rest.take n = (encodeArray its ++ rest).take n := by
    rw [hrest, Ptr.bytes, List.take_take, Nat.min_self]
  have hn : (serializePrefix its.length).length ≤ n := by omega
  have hitems : (BulkArray.parsedArray data its n).items.length = its.length := by
    rw [BulkArray.items_parsedArray, presentItems_whole _ _ _ (by omega), length_wholeItems]
  have htotal : (BulkArray.parsedArray data its n).totalBulks = its.length :=
    BulkArray.totalBulks_encoded BulkArray.rawData_parsedArray hm hn (length_lt_of_small hsmall)
  refine ⟨_, parse_small hsmall hl hm hn, ?_, htotal, hitems,
    totalSize_whole hne hsmall hl hm hle hitems htotal, ?_,
    fun i it bulk hb hit => (bulk_whole hsmall hl hm hle hit hb).1, ?_⟩
  · rw [completed_parsedArray hne hm hn (itemSize_lt_of_small hsmall) (length_lt_of_small hsmall)]
    exact congrArg some (decide_eq_true hle)
  · rw [parsedSize_small hsmall, presentTotal_whole _ _ (by omega), hlen]
  · intro i bulk hb
    obtain ⟨it, hit⟩ := item_of_bulk hb
    exact (bulk_whole hsmall hl hm hle hit hb).2

theorem WholeBulk.payload {v : Bytes} {bulk : Bulk} (h : WholeBulk (some v) bulk)
    (hs : itemSize (some v) < 2 ^ 31) :
    bulk.payload = some v ∧ bulk.payloadSize = v.length := by
  obtain ⟨_, m, tail, hm₁, hm₂, hmem⟩ := h
  have hv := itemSize_some v
  exact ⟨Bulk.payload_whole hmem hm₂ hm₁ (by omega),
    Bulk.payloadSize_header hmem (by omega) (by omega)⟩

end Whole

theorem decodedWhole (hne : strs ≠ []) (hsmall : (encodeStrings strs).length < 2 ^ 31)
    (hl : n ≤ data.rest.length) (hpre : encodeStrings strs <+: data.bytes n) :
    ∃ ba, BulkArray.parse data n = some ba ∧ DecodedWhole strs ba := by
  obtain ⟨ba, hparse, h⟩ := wholeArray (by simpa using hne) hsmall hl hpre
  have hmap : (strs.map (some : Bytes → Item)).length = strs.length := List.length_map _
  have hstring : ∀ (i : ℕ) v bulk, ba.items[i]? = some bulk → strs[i]? = some v →
      bulk.payload = some v ∧ bulk.payloadSize = v.length := by
    intro i v bulk hb hv
    have hit : (strs.map some)[i]? = some (some v) := by rw [List.getElem?_map, hv]; rfl
    exact (h.bulk i _ bulk hb hit).payload
      (itemSize_lt_of_small hsmall _ (List.mem_of_getElem? hit))
  have hitems : ba.items.length = strs.length := h.presentBulks.trans hmap
  exact ⟨ba, hparse, h.completed, h.totalBulks.trans hmap, hitems, h.totalSize, h.parsedSize,
    Lists.map_eq_map_of_getElem? hitems fun i v bulk hb hv => (hstring i v bulk hb hv).1,
    Lists.map_eq_map_of_getElem? hitems fun i v bulk hb hv => (hstring i v bulk hb hv).2⟩

/-- The sizes are right exactly when the encoding is shorter than an `int` can count. -/
theorem roundTrip_iff (hne : strs ≠ []) :
    RoundTrip strs ↔ (encodeStrings strs).length < 2 ^ 31 := by
  constructor
  · intro h
    obtain ⟨ba, _, hba⟩ := h.whole ⟨encodeStrings strs, 0⟩ (encodeStrings strs).length le_rfl
      (by simp [Ptr.bytes, Ptr.rest])
    have hint : ba.parsedSize < 2 ^ 31 := sizeToInt_lt _
    rw [hba.parsedSize] at hint
    exact_mod_cast hint
  · intro h
    exact ⟨fun _ _ hl hp => decodedWhole hne h hl hp,
      fun _ _ hl hp hn hlt => decodedPart hne h hl hp hn hlt⟩

end RoundTrip

/-- `get k` as two byte strings. -/
def getStrings : List Bytes := [ascii "get", ascii "k"]

theorem getStrings_roundTrip : getStrings ≠ [] ∧
    (RoundTrip getStrings ↔ (encodeStrings getStrings).length < 2 ^ 31) :=
  ⟨by decide, roundTrip_iff (by decide)⟩

/-- One string of the greatest length an `int` can hold. -/
def longestString : List Bytes := [List.replicate (2 ^ 31 - 1) 0]

/-- The first line of its encoding and the header of its bulk. -/
def longestHeader : Ptr := ⟨ascii "*1\r\n$2147483647\r\n", 0⟩

theorem longestHeader_eq : longestHeader.bytes 17 <+: encodeStrings longestString := by
  have hlen : (List.replicate (2 ^ 31 - 1) (0 : UInt8)).length = 2147483647 :=
    List.length_replicate.trans (by omega)
  have hdec : dec 2147483647 = ascii "2147483647" := by decide
  rw [encodeStrings, longestString, List.map_singleton, encodeArray, encodeItems,
    List.flatMap_singleton, encodeItem, hlen, hdec]
  have hheader : longestHeader.bytes 17 = serializePrefix 1 ++
      (ch '$' :: (ascii "2147483647" ++ [ch '\r', ch '\n'])) := by decide
  refine ⟨List.replicate (2 ^ 31 - 1) 0 ++ crlf, ?_⟩
  rw [hheader, List.length_singleton]
  simp only [List.append_assoc, List.cons_append, List.nil_append]

/-- The seventeen bytes are reported as a parse error: the size of the bulk, 2147483662, is
negative as an `int`. -/
theorem longestHeader_refused :
    (longestString.length < 2 ^ 31 ∧ ∀ v ∈ longestString, v.length < 2 ^ 31) ∧
    longestHeader.bytes 17 <+: encodeStrings longestString ∧
    (∃ ba, BulkArray.parse longestHeader 17 = some ba ∧ ba.parsedSize = sizeParseError) ∧
    ¬ RoundTrip longestString := by
  have hparse : (BulkArray.parse longestHeader 17).map BulkArray.parsedSize =
      some sizeParseError := by
    decide
  obtain ⟨ba, hba, hsize⟩ := Option.map_eq_some_iff.mp hparse
  refine ⟨⟨by decide, ?_⟩, longestHeader_eq, ⟨ba, hba, hsize⟩, ?_⟩
  · intro v hv
    rw [List.mem_singleton.mp hv, List.length_replicate]
    decide
  · intro h
    have hlt : 17 < (encodeStrings longestString).length := by
      rw [length_encodeStrings, longestString, List.map_singleton, encodeItems,
        List.flatMap_singleton, ← itemSize, itemSize_some, List.length_replicate]
      omega
    obtain ⟨ba', hba', hpart⟩ :=
      h.part longestHeader 17 (by decide) longestHeader_eq (by decide) hlt
    obtain rfl := Option.some.inj (hba.symm.trans hba')
    have := hpart.noError
    rw [hsize] at this
    exact absurd this (by decide)

end Yarmproxy
