import Yarmproxy.RedisArity

/-! # Requests in the middle of their arrival

What `CreateCommand` makes of the first bytes of a well-formed array, cut anywhere: whether it
waits, and how many bytes it takes. Neither depends on where the bytes lie nor on the memory
behind them. -/
namespace Yarmproxy

def NeedsMore (ba : BulkArray) : RedisCommandType → Prop
  | .basic | .mget | .yarmstats => ba.completed = some false
  | .set | .del => ba.presentBulks < 2 ∨ ∃ key, ba.items[1]? = some key ∧ key.completed = some false
  | .mset => ba.presentBulks < 3
  | .unsupported => False

/-- The commands that are made only of a request that has been received to its last byte. The
three others keep track of what is still to come. -/
def Created.whole : Created → Bool
  | .redisSet _ | .redisMset _ | .memcSet _ => false
  | _ => true

section Switch
variable {ba : BulkArray} {verb : Bulk} {size k : ℕ}

theorem createRedisCommand_none_iff (t : RedisCommandType) :
    createRedisCommand ba verb size t = some (k, none) ↔ k = 0 ∧ NeedsMore ba t := by
  cases t with
  | basic | mget | yarmstats =>
    simp only [createRedisCommand, NeedsMore]
    rcases ba.completed with _ | _ | _
    · simp
    · simp [@eq_comm ℕ 0 k]
    · rcases ba.totalSize with _ | _ <;> simp
  | set =>
    simp only [createRedisCommand, NeedsMore]
    by_cases hp : ba.presentBulks < 2
    · simp [hp, @eq_comm ℕ 0 k]
    rw [if_neg hp]
    cases hk : ba.items[1]? with
    | none => simp [hp]
    | some key => rcases hc : key.completed with _ | _ | _ <;> simp [hp, hc, @eq_comm ℕ 0 k]
  | del =>
    simp only [createRedisCommand, NeedsMore]
    by_cases hp : ba.presentBulks < 2
    · simp [hp, @eq_comm ℕ 0 k]
    rw [if_neg hp]
    cases hk : ba.items[1]? with
    | none => simp [hp]
    | some key =>
      rcases hc : key.completed with _ | _ | _
      · simp [hp, hc]
      · simp [hp, hc, @eq_comm ℕ 0 k]
      · cases ba.items.getLast? with
        | none => simp [hp, hc]
        | some back =>
          rcases hb : back.completed with _ | _ | _
          · simp [hp, hc, hb]
          · cases ba.withoutBack <;> simp [hp, hc, hb]
          · simp [hp, hc, hb]
  | mset =>
    simp only [createRedisCommand, NeedsMore]
    by_cases hp : ba.presentBulks < 3
    · simp [hp, @eq_comm ℕ 0 k]
    rw [if_neg hp]
    by_cases he : ba.presentBulks % 2 = 0
    · cases ba.withoutBack <;> simp [hp, he]
    · simp [hp, he]
  | unsupported =>
    simp only [createRedisCommand, NeedsMore]
    cases verb.toString <;> simp

/-- The verb switch on an array whose verb is of type `t`. -/
def switchOn (ba : BulkArray) (size : ℕ) (t : RedisCommandType) : Option (ℕ × Option Created) :=
  match ba.items with
  | [] => some (0, none)
  | verb :: _ =>
    if verb.absentSize = some 0 then createRedisCommand ba verb size t else some (0, none)

theorem createRedis_parsed {buf : Ptr} {t : RedisCommandType}
    (hp : BulkArray.parse buf size = some ba) (ht : ba.totalBulks ≠ 0)
    (hv : ∀ verb, ba.items[0]? = some verb → (∃ absent, verb.absentSize = some absent) ∧
      (verb.absentSize = some 0 → getRedisCommandType verb = some t)) :
    createRedis buf size = switchOn ba size t := by
  rw [createRedis, hp, switchOn]
  simp only [Option.bind_eq_bind, Option.bind_some]
  rw [if_neg ht]
  cases hi : ba.items with
  | nil => rfl
  | cons verb tail =>
    obtain ⟨⟨absent, habsent⟩, htype⟩ := hv verb (by rw [hi]; rfl)
    dsimp only
    rw [habsent, Option.bind_some]
    cases absent with
    | zero => rw [if_neg (Nat.lt_irrefl 0), htype habsent, Option.bind_some, if_pos rfl]
    | succ k => rw [if_pos (Nat.succ_pos k), if_neg (by simp)]

end Switch

/-- The first `n` bytes at `buf` are those of the array `its`, its first line included. -/
structure Begun (its : List Item) (buf : Ptr) (n : ℕ) : Prop where
  nonempty : its ≠ []
  small : (encodeArray its).length < 2 ^ 31
  received : n ≤ buf.rest.length
  content : ∃ rest, buf.rest.take n = (encodeArray its ++ rest).take n
  header : (serializePrefix its.length).length ≤ n

namespace Begun
open BulkArray (parsedArray)
variable {its : List Item} {buf buf' : Ptr} {n k : ℕ}

theorem parse (h : Begun its buf n) : BulkArray.parse buf n = some (parsedArray buf its n) := by
  obtain ⟨rest, hm⟩ := h.content
  exact parse_small h.small h.received hm h.header

theorem totalBulks (h : Begun its buf n) : (parsedArray buf its n).totalBulks = its.length := by
  obtain ⟨rest, hm⟩ := h.content
  exact BulkArray.totalBulks_encoded BulkArray.rawData_parsedArray hm h.header
    (length_lt_of_small h.small)

theorem completed (h : Begun its buf n) :
    (parsedArray buf its n).completed = some (decide ((encodeArray its).length ≤ n)) := by
  obtain ⟨rest, hm⟩ := h.content
  exact completed_parsedArray h.nonempty hm h.header (itemSize_lt_of_small h.small)
    (length_lt_of_small h.small)

theorem items_content (h : Begun its buf n) :
    ∃ rest, (buf.mem.drop (buf.off + (serializePrefix its.length).length)).take
        (n - (serializePrefix its.length).length) =
      (encodeItems its ++ rest).take (n - (serializePrefix its.length).length) := by
  obtain ⟨rest, hm⟩ := h.content
  have hdrop := drop_take_eq hm (serializePrefix its.length).length
  rw [encodeArray, List.append_assoc, List.drop_left, Ptr.rest, List.drop_drop] at hdrop
  exact ⟨rest, hdrop⟩

theorem bulk_completed (h : Begun its buf n) {i : ℕ} {bulk : Bulk}
    (hb : (parsedArray buf its n).items[i]? = some bulk) :
    bulk.completed =
      some (decide ((serializePrefix its.length).length + itemStart its (i + 1) ≤ n)) := by
  obtain ⟨it, hit⟩ := item_of_bulk hb
  obtain ⟨rest, hm⟩ := h.items_content
  have hs := itemSize_lt_of_small h.small it (List.mem_of_getElem? hit)
  have hn := h.header
  rw [BulkArray.items_parsedArray] at hb
  rw [completed_presentItems hs hm hit hb]
  exact congrArg some (decide_eq_decide.mpr (by omega))

theorem presentBulks_eq (its : List Item) (buf buf' : Ptr) (n : ℕ) :
    (parsedArray buf its n).presentBulks = (parsedArray buf' its n).presentBulks := by
  rw [BulkArray.presentBulks, BulkArray.presentBulks, BulkArray.items_parsedArray,
    BulkArray.items_parsedArray]
  exact length_presentItems_eq _ _ _ _

theorem bulk_of_bulk (h : Begun its buf n) (h' : Begun its buf' n) {i : ℕ} {bulk : Bulk}
    (hb : (parsedArray buf its n).items[i]? = some bulk) :
    ∃ bulk', (parsedArray buf' its n).items[i]? = some bulk' ∧
      bulk'.completed = bulk.completed ∧ bulk'.absentSize = bulk.absentSize := by
  have hlen := presentBulks_eq its buf buf' n
  rw [BulkArray.presentBulks, BulkArray.presentBulks] at hlen
  obtain ⟨hi, _⟩ := List.getElem?_eq_some_iff.mp hb
  have hb' := List.getElem?_eq_getElem (l := (parsedArray buf' its n).items) (i := i) (by omega)
  obtain ⟨it, hit⟩ := item_of_bulk hb
  have hs := itemSize_lt_of_small h.small it (List.mem_of_getElem? hit)
  obtain ⟨rest, hm⟩ := h.content
  obtain ⟨rest', hm'⟩ := h'.content
  refine ⟨_, hb', by rw [h'.bulk_completed hb', h.bulk_completed hb], ?_⟩
  rw [(bulk_parsedArray hm h.header hs hit hb).2.2.1,
    (bulk_parsedArray hm' h.header hs hit hb').2.2.1]

theorem needsMore_congr (h : Begun its buf n) (h' : Begun its buf' n) {t : RedisCommandType}
    (hn : NeedsMore (parsedArray buf its n) t) : NeedsMore (parsedArray buf' its n) t := by
  have hlen := presentBulks_eq its buf buf' n
  cases t with
  | basic | mget | yarmstats =>
    rw [NeedsMore, h'.completed]
    rwa [NeedsMore, h.completed] at hn
  | set | del =>
    rcases hn with hp | ⟨key, hk, hc⟩
    · exact .inl (hlen ▸ hp)
    · obtain ⟨key', hk', hc', _⟩ := bulk_of_bulk h h' hk
      exact .inr ⟨key', hk', hc'.trans hc⟩
  | mset =>
    rw [NeedsMore] at hn ⊢
    omega
  | unsupported => exact False.elim hn

theorem verb_commandType (h : Begun its buf n) {verb : Bulk}
    (hv : (parsedArray buf its n).items[0]? = some verb)
    (ha : verb.absentSize = some 0) : getRedisCommandType verb = some (verbOf its) := by
  obtain ⟨it, hit⟩ := item_of_bulk hv
  have hs := itemSize_lt_of_small h.small it (List.mem_of_getElem? hit)
  obtain ⟨rest, hm⟩ := h.content
  obtain ⟨hraw, htotal, habsent, m, tail, hh, rfl, hmem⟩ := bulk_parsedArray hm h.header hs hit hv
  have hend := itemStart_succ hit
  have hr := h.received
  rw [habsent, Option.some.injEq] at ha
  rw [itemStart_zero] at hend hh hmem
  rw [Ptr.rest, List.length_drop] at hr
  have hwhole : WholeBulk it verb := by
    refine ⟨htotal, _, tail, ?_, ?_, hmem⟩
    · omega
    · rw [hraw, Ptr.rest, List.length_drop, itemStart_zero]
      dsimp only
      omega
  rw [hwhole.commandType hs, verbOf, List.head?_eq_getElem?, hit]
  rfl

theorem createRedis_eq (h : Begun its buf n) :
    createRedis buf n = switchOn (parsedArray buf its n) n (verbOf its) := by
  have ht : (parsedArray buf its n).totalBulks ≠ 0 := by
    rw [h.totalBulks]
    exact (List.length_pos_iff.mpr h.nonempty).ne'
  refine createRedis_parsed h.parse ht fun verb hv => ⟨?_, h.verb_commandType hv⟩
  obtain ⟨it, hit⟩ := item_of_bulk hv
  obtain ⟨rest, hm⟩ := h.content
  exact ⟨_, (bulk_parsedArray hm h.header
    (itemSize_lt_of_small h.small it (List.mem_of_getElem? hit)) hit hv).2.2.1⟩

theorem createRedis_waits (h : Begun its buf n) (h' : Begun its buf' n)
    (hw : createRedis buf n = some (k, none)) : createRedis buf' n = some (0, none) := by
  rw [createRedis_eq h, switchOn] at hw
  rw [createRedis_eq h', switchOn]
  have hlen := presentBulks_eq its buf buf' n
  rw [BulkArray.presentBulks, BulkArray.presentBulks] at hlen
  cases hi' : (parsedArray buf' its n).items with
  | nil => rfl
  | cons verb' tail' =>
    obtain ⟨verb, tail, hi⟩ : ∃ verb tail, (parsedArray buf its n).items = verb :: tail := by
      apply List.exists_cons_of_length_pos
      rw [hlen, hi']
      exact Nat.succ_pos _
    have hv : (parsedArray buf its n).items[0]? = some verb := by rw [hi]; rfl
    obtain ⟨bulk, hb, _, habsent⟩ := bulk_of_bulk h h' hv
    obtain rfl : verb' = bulk := by
      rw [hi'] at hb
      exact Option.some.inj hb
    rw [hi] at hw
    dsimp only at hw ⊢
    rw [habsent]
    by_cases h0 : verb.absentSize = some 0
    · rw [if_pos h0] at hw ⊢
      obtain ⟨-, hn⟩ := (createRedisCommand_none_iff _).mp hw
      exact (createRedisCommand_none_iff _).mpr ⟨rfl, needsMore_congr h h' hn⟩
    · rw [if_neg h0]

theorem parsedSize (h : Begun its buf n) : intToSize (parsedArray buf its n).parsedSize =
    (serializePrefix its.length).length + itemStart its (parsedArray buf its n).presentBulks := by
  have hle := presentTotal_le its (n - (serializePrefix its.length).length)
  have hlen := length_encodeArray its
  have hs := h.small
  rw [parsedSize_small h.small, intToSize_natCast (by omega), presentTotal_eq, ←
    BulkArray.items_parsedArray, ← BulkArray.presentBulks]

theorem back (h : Begun its buf n) {back : Bulk}
    (hb : (parsedArray buf its n).items.getLast? = some back) :
    ∃ i it, (parsedArray buf its n).presentBulks = i + 1 ∧ (parsedArray buf its n).items[i]? =
      some back ∧ its[i]? = some it ∧
      back.totalSize = some (itemSize it) ∧
      (serializePrefix its.length).length + itemStart its i ≤ n := by
  rw [List.getLast?_eq_getElem?] at hb
  obtain ⟨hi, _⟩ := List.getElem?_eq_some_iff.mp hb
  obtain ⟨it, hit⟩ := item_of_bulk hb
  obtain ⟨rest, hm⟩ := h.content
  have hs := itemSize_lt_of_small h.small it (List.mem_of_getElem? hit)
  obtain ⟨_, htotal, _, m, _, hh, hm', _⟩ := bulk_parsedArray hm h.header hs hit hb
  have h4 := four_le_headerSize it
  refine ⟨_, it, ?_, hb, hit, htotal, by omega⟩
  rw [BulkArray.presentBulks]
  omega

theorem withoutBack (h : Begun its buf n) (hp : 0 < (parsedArray buf its n).presentBulks) :
    (parsedArray buf its n).withoutBack =
    some ((serializePrefix its.length).length +
      itemStart its ((parsedArray buf its n).presentBulks - 1)) := by
  obtain ⟨back, hb⟩ : ∃ back, (parsedArray buf its n).items.getLast? = some back := by
    rw [List.getLast?_eq_getElem?]
    exact ⟨_, List.getElem?_eq_getElem (by rw [BulkArray.presentBulks] at hp; omega)⟩
  obtain ⟨i, it, hi, _, hit, htotal, _⟩ := h.back hb
  have hend := itemStart_succ hit
  have hle := itemStart_le its (i + 1)
  have hlen := length_encodeArray its
  have hs := h.small
  have hsub : subSize ((serializePrefix its.length).length + (itemStart its i + itemSize it))
      (itemSize it) = (serializePrefix its.length).length + itemStart its i := by
    rw [subSize_eq (by omega) (by omega)]
    omega
  rw [BulkArray.withoutBack, hb, Option.bind_eq_bind, Option.bind_some, htotal, Option.bind_eq_bind,
    Option.bind_some, h.parsedSize, hi, hend, Nat.add_sub_cancel, hsub]

theorem totalSize (h : Begun its buf n) (hc : (parsedArray buf its n).completed = some true) :
    (parsedArray buf its n).totalSize = some (encodeArray its).length ∧
      (encodeArray its).length ≤ n := by
  have hle : (encodeArray its).length ≤ n := by
    rw [h.completed, Option.some.injEq, decide_eq_true_iff] at hc
    exact hc
  obtain ⟨rest, hm⟩ := h.content
  have hlen := length_encodeArray its
  have hitems : (parsedArray buf its n).items.length = its.length := by
    rw [BulkArray.items_parsedArray, presentItems_whole _ _ _ (by omega), length_wholeItems]
  exact ⟨totalSize_whole h.nonempty h.small h.received hm hle hitems h.totalBulks, hle⟩

/-- A count of bytes that lies in the array, and in what has been received where the command
does not wait for the rest. -/
structure Takes (its : List Item) (n k : ℕ) (created : Created) : Prop where
  pos : 0 < k
  small : k < 2 ^ 31
  whole : created.whole = true → k ≤ n

theorem takes_start (h : Begun its buf n) {i : ℕ} {created : Created}
    (hw : created.whole = true → (serializePrefix its.length).length + itemStart its i ≤ n) :
    Takes its n ((serializePrefix its.length).length + itemStart its i) created := by
  have hle := itemStart_le its i
  have hlen := length_encodeArray its
  have hs := h.small
  have h4 := four_le_serializePrefix its.length
  exact ⟨by omega, by omega, hw⟩

theorem takes_total (h : Begun its buf n) (hc : (parsedArray buf its n).completed = some true)
    {total : ℕ}
    (ht : (parsedArray buf its n).totalSize = some total) (created : Created) :
    Takes its n total created := by
  obtain ⟨htotal, hle⟩ := h.totalSize hc
  obtain rfl := Option.some.inj (ht.symm.trans htotal)
  have hlen := length_encodeArray its
  have h4 := four_le_serializePrefix its.length
  exact ⟨by omega, h.small, fun _ => hle⟩

theorem createRedisCommand_takes (h : Begun its buf n) (hn : n < 2 ^ 31) {verb : Bulk}
    {t : RedisCommandType} {created : Created}
    (hc : createRedisCommand (parsedArray buf its n) verb n t = some (k, some created)) :
    Takes its n k created := by
  have h4 := four_le_serializePrefix its.length
  have hh := h.header
  cases t with
  | basic | mget | yarmstats =>
    simp only [createRedisCommand, Option.bind_eq_bind, Option.bind_eq_some_iff] at hc
    obtain ⟨done, hdone, hc⟩ := hc
    cases done with
    | false => simp at hc
    | true =>
      simp only [Bool.not_true, Bool.false_eq_true, if_false, Option.bind_eq_some_iff] at hc
      obtain ⟨total, ht, hc⟩ := hc
      obtain ⟨rfl, -⟩ := Prod.mk.inj (Option.some.inj hc)
      exact h.takes_total hdone ht created
  | set =>
    simp only [createRedisCommand] at hc
    split at hc
    · simp at hc
    simp only [Option.bind_eq_bind, Option.bind_eq_some_iff] at hc
    obtain ⟨key, _, done, _, hc⟩ := hc
    split at hc
    · simp at hc
    obtain ⟨rfl, hcr⟩ := Prod.mk.inj (Option.some.inj hc)
    obtain rfl := Option.some.inj hcr
    rw [h.parsedSize]
    exact h.takes_start (by rintro ⟨⟩)
  | mset =>
    simp only [createRedisCommand] at hc
    split at hc
    · simp at hc
    next hp =>
    split at hc
    · simp only [Option.bind_eq_bind, Option.bind_eq_some_iff] at hc
      obtain ⟨k', hk, hc⟩ := hc
      obtain ⟨rfl, hcr⟩ := Prod.mk.inj (Option.some.inj hc)
      obtain rfl := Option.some.inj hcr
      rw [h.withoutBack (by omega), Option.some.injEq] at hk
      exact hk ▸ h.takes_start (by rintro ⟨⟩)
    · obtain ⟨rfl, hcr⟩ := Prod.mk.inj (Option.some.inj hc)
      obtain rfl := Option.some.inj hcr
      rw [h.parsedSize]
      exact h.takes_start (by rintro ⟨⟩)
  | del =>
    simp only [createRedisCommand] at hc
    split at hc
    · simp at hc
    next hp =>
    simp only [Option.bind_eq_bind, Option.bind_eq_some_iff] at hc
    obtain ⟨key, _, done, _, hc⟩ := hc
    split at hc
    · simp at hc
    simp only [Option.bind_eq_some_iff] at hc
    obtain ⟨back, hback, done', hdone', hc⟩ := hc
    obtain ⟨i, it, hi, hget, _, _, hle⟩ := h.back hback
    split at hc
    next hd =>
      obtain ⟨rfl, -⟩ := Prod.mk.inj (Option.some.inj hc)
      rw [h.bulk_completed hget, hd, Option.some.injEq, decide_eq_true_iff] at hdone'
      rw [h.parsedSize, hi]
      exact h.takes_start fun _ => hdone'
    next =>
      obtain ⟨k', hk, hc⟩ := Option.bind_eq_some_iff.mp hc
      obtain ⟨rfl, -⟩ := Prod.mk.inj (Option.some.inj hc)
      rw [h.withoutBack (by omega), hi, Nat.add_sub_cancel, Option.some.injEq] at hk
      exact hk ▸ h.takes_start fun _ => hle
  | unsupported =>
    simp only [createRedisCommand, Option.bind_eq_bind, Option.bind_eq_some_iff] at hc
    obtain ⟨name, _, hc⟩ := hc
    obtain ⟨rfl, -⟩ := Prod.mk.inj (Option.some.inj hc)
    exact ⟨by omega, hn, fun _ => le_rfl⟩

theorem createRedis_takes (h : Begun its buf n) (hn : n < 2 ^ 31) {created : Created}
    (hc : createRedis buf n = some (k, some created)) : Takes its n k created := by
  rw [createRedis_eq h, switchOn] at hc
  cases hi : (parsedArray buf its n).items with
  | nil => rw [hi] at hc; cases hc
  | cons verb tail =>
    rw [hi] at hc
    dsimp only at hc
    split at hc
    · exact h.createRedisCommand_takes hn hc
    · cases hc

end Begun

/-- The bytes begin an array whose size an `int` can hold. -/
def StartsArray (bs : Bytes) : Prop :=
  ∃ its rest, its ≠ [] ∧ (encodeArray its).length < 2 ^ 31 ∧
    bs = (encodeArray its ++ rest).take bs.length

/-- The bytes begin the last `k` bulks of such an array. -/
def StartsBulks (k : ℕ) (bs : Bytes) : Prop :=
  ∃ its rest, its.length = k ∧ (encodeItems its).length < 2 ^ 31 ∧
    bs = (encodeItems its ++ rest).take bs.length

/-- `CreateCommand` waits for more than `bs`, wherever these bytes lie. -/
def Waits (bufferSize : ℕ) (bs : Bytes) : Prop :=
  ∀ buf : Ptr, buf.bytes bs.length = bs → createCommand bufferSize buf bs.length = some (0, none)

def Understood (bufferSize : ℕ) (buf : Ptr) (n : ℕ) : Prop :=
  (∃ reply, createCommand bufferSize buf n = some (n, some (.error reply))) ∨
    (buf.rest.getD 0 0 = ch '*' → ch '\n' ∈ buf.bytes n → StartsArray (buf.bytes n)) ∧
      ∀ k key, createCommand bufferSize buf n = some (k, some (.memcSet key)) → 0 < k ∧ k < 2 ^ 63

/-- What the parsing loop may take from `CreateCommand`. -/
structure Framed (bufferSize : ℕ) (buf : Ptr) (n : ℕ) : Prop where
  waits : ∀ k, createCommand bufferSize buf n = some (k, none) → Waits bufferSize (buf.bytes n)
  takes : ∀ k created, createCommand bufferSize buf n = some (k, some created) →
    0 < k ∧ k < 2 ^ 63 ∧ (created.whole = true → k ≤ n)

theorem waits_nil (bufferSize : ℕ) : Waits bufferSize [] := by
  intro buf _
  simp [createCommand, memchr]

theorem newline_not_mem_serializePrefix {m n : ℕ} {rest : Bytes}
    (h : n < (serializePrefix m).length) : ch '\n' ∉ (serializePrefix m ++ rest).take n := by
  rw [length_serializePrefix] at h
  have hsplit : serializePrefix m ++ rest = (ch '*' :: dec m ++ [ch '\r']) ++ ch '\n' :: rest := by
    rw [serializePrefix_eq]
    simp
  rw [hsplit, List.take_append_of_le_length (by simp; omega)]
  intro hmem
  have hmem := List.mem_of_mem_take hmem
  rw [List.cons_append, List.mem_cons, List.mem_append, List.mem_singleton] at hmem
  rcases hmem with hstar | hdigit | hcr
  · exact absurd hstar (by decide)
  · exact absurd (dec_isDigit _ hdigit) (by decide)
  · exact absurd hcr (by decide)

section Framed
variable {bufferSize n k : ℕ} {buf : Ptr}

theorem StartsArray.begun (hs : StartsArray (buf.bytes n)) (hn : n ≤ buf.rest.length)
    (hl : ch '\n' ∈ buf.bytes n) :
    ∃ its, ∀ buf' : Ptr, buf'.bytes n = buf.bytes n → Begun its buf' n := by
  obtain ⟨its, rest, hne, hsmall, hbs⟩ := hs
  have hlen : (buf.bytes n).length = n := by rw [Ptr.bytes, List.length_take]; omega
  rw [hlen] at hbs
  have hheader : (serializePrefix its.length).length ≤ n := by
    apply Nat.le_of_not_lt
    intro hlt
    rw [hbs, encodeArray, List.append_assoc] at hl
    exact newline_not_mem_serializePrefix hlt hl
  refine ⟨its, fun buf' hb => ⟨hne, hsmall, ?_, ⟨rest, hb.trans hbs⟩, hheader⟩⟩
  have := congrArg List.length hb
  rw [hlen, Ptr.bytes, List.length_take] at this
  omega

theorem createMemc_takes {size line : ℕ} {created : Created} (h0 : 0 < line) (hl : line ≤ size)
    (hs : size < 2 ^ 31)
    (hset : ∀ k key, createMemc buf size line = some (k, some (.memcSet key)) → 0 < k ∧ k < 2 ^ 63)
    (hc : createMemc buf size line = some (k, some created)) :
    0 < k ∧ k < 2 ^ 63 ∧ (created.whole = true → k ≤ size) := by
  have hline : ∀ m, m = line ∨ m = size → 0 < m ∧ m < 2 ^ 63 ∧
      (created.whole = true → m ≤ size) := by
    rintro m (rfl | rfl)
    · exact ⟨h0, by omega, fun _ => hl⟩
    · exact ⟨by omega, by omega, fun _ => le_rfl⟩
  have hc' := hc
  simp only [createMemc] at hc
  split at hc
  · exact hline k (.inl (Prod.mk.inj (Option.some.inj hc)).1.symm)
  · simp only [Option.bind_eq_bind, Option.bind_eq_some_iff] at hc
    obtain ⟨⟨key, body⟩, _, hc⟩ := hc
    dsimp only at hc
    split at hc
    · exact hline k (.inl (Prod.mk.inj (Option.some.inj hc)).1.symm)
    · obtain ⟨-, hcr⟩ := Prod.mk.inj (Option.some.inj hc)
      obtain rfl := Option.some.inj hcr
      obtain ⟨hpos, hlt⟩ := hset k key hc'
      exact ⟨hpos, hlt, nofun⟩
  · exact hline k (.inl (Prod.mk.inj (Option.some.inj hc)).1.symm)
  · exact hline k (.inl (Prod.mk.inj (Option.some.inj hc)).1.symm)
  · exact hline k (.inr (Prod.mk.inj (Option.some.inj hc)).1.symm)

theorem createMemc_ne_none {size line : ℕ} : createMemc buf size line ≠ some (k, none) := by
  intro hc
  simp only [createMemc] at hc
  split at hc
  · cases hc
  · simp only [Option.bind_eq_bind, Option.bind_eq_some_iff] at hc
    obtain ⟨⟨key, body⟩, _, hc⟩ := hc
    dsimp only at hc
    split at hc <;> cases hc
  · cases hc
  · cases hc
  · cases hc

theorem memchr_congr {m m' : Bytes} (h : m'.take n = m.take n) (c : UInt8) :
    memchr m' c n = memchr m c n := by rw [memchr, memchr, h]

theorem mem_of_memchr {m : Bytes} {c : UInt8} {p : ℕ} (h : memchr m c n = some p) :
    c ∈ m.take n ∧ p < n := by
  obtain ⟨hp, hc, _⟩ := List.findIdx?_eq_some_iff_getElem.mp h
  have hlen := List.length_take_le n m
  exact ⟨beq_iff_eq.mp hc ▸ List.getElem_mem hp, by omega⟩

theorem Understood.framed (h : Understood bufferSize buf n) (hn : n ≤ buf.rest.length) (h0 : 0 < n)
    (hs : n < 2 ^ 31) : Framed bufferSize buf n := by
  have hlen : (buf.bytes n).length = n := by rw [Ptr.bytes, List.length_take]; omega
  rcases h with ⟨reply, he⟩ | ⟨harray, hset⟩
  · refine ⟨fun k hk => ?_, fun k created hk => ?_⟩
    · rw [he] at hk
      cases hk
    · rw [he] at hk
      obtain ⟨rfl, -⟩ := Prod.mk.inj (Option.some.inj hk)
      exact ⟨h0, by omega, fun _ => le_rfl⟩
  cases hp : memchr buf.rest (ch '\n') n with
  | none =>
    -- no line end: the answer depends on the number of bytes only
    have hcreate : ∀ buf' : Ptr, buf'.bytes n = buf.bytes n →
        memchr buf'.rest (ch '\n') n = none := fun buf' hb => (memchr_congr hb _).trans hp
    by_cases hlong : n > bufferSize / 2
    · have hc : ∃ reply, createCommand bufferSize buf n = some (n, some (.error reply)) := by
        rw [createCommand, hp]
        exact ⟨_, if_pos hlong⟩
      obtain ⟨reply, hc⟩ := hc
      refine ⟨fun k hk => ?_, fun k created hk => ?_⟩
      · rw [hc] at hk
        cases hk
      · rw [hc] at hk
        obtain ⟨rfl, -⟩ := Prod.mk.inj (Option.some.inj hk)
        exact ⟨h0, by omega, fun _ => le_rfl⟩
    · have hc : ∀ buf' : Ptr, buf'.bytes n = buf.bytes n →
          createCommand bufferSize buf' n = some (0, none) := by
        intro buf' hb
        rw [createCommand, hcreate buf' hb]
        exact if_neg hlong
      refine ⟨fun k _ buf' hb => ?_, fun k created hk => ?_⟩
      · rw [hlen] at hb ⊢
        exact hc buf' hb
      · rw [hc buf rfl] at hk
        cases hk
  | some p =>
    obtain ⟨hmem, hlt⟩ := mem_of_memchr hp
    have hline : ∀ buf' : Ptr, buf'.bytes n = buf.bytes n →
        createCommand bufferSize buf' n = if buf'.rest.getD 0 0 = ch '*' then createRedis buf' n
          else createMemc buf' n (p + 1) := by
      intro buf' hb
      rw [createCommand, (memchr_congr hb _).trans hp]
    by_cases hstar : buf.rest.getD 0 0 = ch '*'
    · obtain ⟨its, hbegun⟩ := (harray hstar hmem).begun hn hmem
      have hc : ∀ buf' : Ptr, buf'.bytes n = buf.bytes n →
          createCommand bufferSize buf' n = createRedis buf' n := by
        intro buf' hb
        rw [hline buf' hb]
        exact if_pos ((getD_of_take hb h0 0).trans hstar)
      refine ⟨fun k hk buf' hb => ?_, fun k created hk => ?_⟩
      · rw [hlen] at hb ⊢
        rw [hc buf rfl] at hk
        rw [hc buf' hb]
        exact (hbegun buf rfl).createRedis_waits (hbegun buf' hb) hk
      · rw [hc buf rfl] at hk
        have ht := (hbegun buf rfl).createRedis_takes hs hk
        exact ⟨ht.pos, ht.small.trans (by decide), ht.whole⟩
    · have hc : createCommand bufferSize buf n = createMemc buf n (p + 1) :=
        (hline buf rfl).trans (if_neg hstar)
      rw [hc] at hset
      refine ⟨fun k hk => ?_, fun k created hk => ?_⟩
      · rw [hc] at hk
        exact absurd hk createMemc_ne_none
      · rw [hc] at hk
        exact createMemc_takes (Nat.succ_pos p) hlt hs hset hk

end Framed
end Yarmproxy
