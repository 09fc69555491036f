import Yarmproxy.RedisMsetCommand
import Yarmproxy.Requests

/-! # Keys that lie one behind the other

A split command does not copy its keys: it sends them as segments of the client buffer, and
bulks that follow each other there become one segment. -/
namespace Yarmproxy

section Segments
variable {mem : Bytes} {off start n : ℕ} {segments : List Segment}

theorem Ptr.bytes_add (mem : Bytes) (start n k : ℕ) :
    Ptr.bytes ⟨mem, start⟩ (n + k) = Ptr.bytes ⟨mem, start⟩ n ++ Ptr.bytes ⟨mem, start + n⟩ k := by
  rw [Ptr.bytes, Ptr.bytes, Ptr.bytes, Ptr.rest, Ptr.rest, List.take_add, List.drop_drop]

theorem Ptr.length_bytes (h : start + n ≤ mem.length) : (Ptr.bytes ⟨mem, start⟩ n).length = n := by
  change ((mem.drop start).take n).length = n
  rw [List.length_take, List.length_drop]
  omega

/-- The `n` bytes of `mem` at `start`. -/
def piece (mem : Bytes) (start n : ℕ) : Segment := ⟨some start, Ptr.bytes ⟨mem, start⟩ n⟩

/-- The last segment is a piece of `mem` that ends at `stop`. -/
def EndsAt (mem : Bytes) (stop : ℕ) (segments : List Segment) : Prop :=
  ∃ before start n, segments = before ++ [piece mem start n] ∧ start + n = stop ∧ stop ≤ mem.length

theorem endsAt_append (hn : off + n ≤ mem.length) :
    (segments ++ [piece mem off n]).flatMap Segment.bytes =
      segments.flatMap Segment.bytes ++ Ptr.bytes ⟨mem, off⟩ n ∧
    EndsAt mem (off + n) (segments ++ [piece mem off n]) :=
  ⟨by simp [piece], segments, off, n, rfl, rfl, hn⟩

/-- The last segment grows by `n` bytes that follow it. -/
theorem endsAt_grow {before : List Segment} {k : ℕ} (hstop : start + k = off)
    (hn : off + n ≤ mem.length) :
    (before ++ [piece mem start (k + n)]).flatMap Segment.bytes =
      (before ++ [piece mem start k]).flatMap Segment.bytes ++ Ptr.bytes ⟨mem, off⟩ n ∧
    EndsAt mem (off + n) (before ++ [piece mem start (k + n)]) := by
  refine ⟨?_, before, start, k + n, rfl, by omega, hn⟩
  simp [piece, Ptr.bytes_add, hstop]

theorem pushSegment_endsAt {adjacent : Bool} (h : adjacent = true → EndsAt mem off segments)
    (hn : off + n ≤ mem.length) :
    ∃ segments', RedisMgetCommand.pushSegment segments ⟨mem, off⟩ n adjacent = some segments' ∧
      segments'.flatMap Segment.bytes =
        segments.flatMap Segment.bytes ++ Ptr.bytes ⟨mem, off⟩ n ∧
      EndsAt mem (off + n) segments' := by
  cases adjacent with
  | false => exact ⟨_, rfl, endsAt_append hn⟩
  | true =>
    obtain ⟨before, start, k, rfl, hstop, hle⟩ := h rfl
    have hk : (Ptr.bytes ⟨mem, start⟩ k).length = k := Ptr.length_bytes (by omega)
    refine ⟨_, ?_, endsAt_grow hstop hn⟩
    simp [RedisMgetCommand.pushSegment, piece, hk]

theorem growSegments_endsAt {stop : ℕ} (h : EndsAt mem stop segments) (hn : off + n ≤ mem.length) :
    (growSegments segments ⟨mem, off⟩ n).flatMap Segment.bytes =
      segments.flatMap Segment.bytes ++ Ptr.bytes ⟨mem, off⟩ n ∧
    EndsAt mem (off + n) (growSegments segments ⟨mem, off⟩ n) := by
  obtain ⟨before, start, k, rfl, rfl, hle⟩ := h
  have hk : (Ptr.bytes ⟨mem, start⟩ k).length = k := Ptr.length_bytes (by omega)
  by_cases hadjacent : start + k = off
  · have hgrow : growSegments (before ++ [piece mem start k]) ⟨mem, off⟩ n =
        before ++ [piece mem start (k + n)] := by
      simp [growSegments, piece, hk, hadjacent]
    rw [hgrow]
    exact endsAt_grow hadjacent hn
  · have happend : growSegments (before ++ [piece mem start k]) ⟨mem, off⟩ n =
        before ++ [piece mem start k] ++ [piece mem off n] := by
      simp [growSegments, piece, hk, hadjacent]
    rw [happend]
    exact endsAt_append hn

end Segments

theorem BackendConn.writeQuery_sends {ε : Type} {k : BackendConn ε} (hk : k.aborted = false)
    (at_ : Option ℕ) (data : Bytes) :
    ∃ opened op, k.writeQuery at_ data =
        { k with writeTimerCanceled := false, socketOpen := opened, query := some op } ∧
      (op = .connecting at_ data ∨ op = .writing at_ data) := by
  rw [BackendConn.writeQuery, if_neg (by simp [hk])]
  split
  next ho => exact ⟨true, _, by rw [← ho], .inr rfl⟩
  next => exact ⟨true, _, rfl, .inl rfl⟩

/-- The memory at `off` holds `its`, one behind the other. -/
def HoldsItems (mem : Bytes) (off : ℕ) (its : List Item) : Prop := encodeItems its <+: mem.drop off

namespace HoldsItems
variable {mem : Bytes} {off : ℕ} {it : Item} {its : List Item}

theorem head (h : HoldsItems mem off (it :: its)) :
    off + itemSize it ≤ mem.length ∧ Ptr.bytes ⟨mem, off⟩ (itemSize it) = encodeItem it := by
  obtain ⟨rest, hrest⟩ := h
  rw [encodeItems, List.flatMap_cons, List.append_assoc] at hrest
  have hlen := congrArg List.length hrest
  rw [List.length_append, List.length_drop] at hlen
  have hpos := four_le_headerSize it
  have hle := headerSize_le it
  refine ⟨by rw [itemSize] at *; omega, ?_⟩
  rw [Ptr.bytes, Ptr.rest, ← hrest, itemSize, List.take_left]

theorem tail (h : HoldsItems mem off (it :: its)) : HoldsItems mem (off + itemSize it) its := by
  obtain ⟨rest, hrest⟩ := h
  rw [encodeItems, List.flatMap_cons, List.append_assoc] at hrest
  refine ⟨rest, ?_⟩
  rw [← List.drop_drop, ← hrest, itemSize, List.drop_left, encodeItems]

theorem wholeBulk (h : HoldsItems mem off (it :: its)) (hs : itemSize it < 2 ^ 31) (present : ℤ) :
    WholeBulk it ⟨⟨mem, off⟩, present⟩ := by
  obtain ⟨hle, hbytes⟩ := h.head
  have htake : (Ptr.rest ⟨mem, off⟩).take (itemSize it) = (encodeItem it ++ []).take
      (itemSize it) := by
    rw [List.append_nil, itemSize, List.take_length]
    exact hbytes
  refine ⟨totalOf_item htake (headerSize_le it)
    (by omega), itemSize it, [], Nat.le_refl _, ?_, htake⟩
  rw [Ptr.rest, List.length_drop]
  dsimp only
  omega

theorem of_take {rest : Bytes} {n m : ℕ}
    (hm : (mem.drop off).take n = (encodeItems its ++ rest).take n) (hn : itemStart its m ≤ n) :
    HoldsItems mem off (its.take m) := by
  have htake := take_append_eq_of_le hm hn
  rw [encodeItems_split its m, List.append_assoc, itemStart, List.take_left] at htake
  rw [HoldsItems, ← htake]
  exact List.take_prefix _ _

end HoldsItems

theorem presentItems_take {mem : Bytes} (its : List Item) : ∀ {off n m : ℕ}, itemStart its m ≤ n →
    (presentItems mem off its n).take m = wholeItems mem off (its.take m) := by
  induction its with
  | nil =>
    intro off n m _
    rw [presentItems, List.take_nil, List.take_nil, wholeItems]
  | cons it its ih =>
    intro off n m hn
    cases m with
    | zero => rw [List.take_zero, List.take_zero, wholeItems]
    | succ m =>
      rw [itemStart_cons] at hn
      have hle := headerSize_le it
      rw [presentItems, if_neg (by omega), List.take_succ_cons, List.take_succ_cons, wholeItems,
        ih (by omega), Nat.min_eq_right (by omega)]

section Complete
variable {bufferSize size : ℕ} {its : List Item} {buf : Ptr}

theorem CompleteRequest.length_le (h : CompleteRequest bufferSize its buf size) :
    (encodeArray its).length ≤ size := by
  have := h.whole.length_le
  rw [Ptr.bytes, List.length_take] at this
  omega

theorem CompleteRequest.begun (h : CompleteRequest bufferSize its buf size) :
    Begun its buf size := by
  obtain ⟨rest, hrest⟩ := h.whole
  have hle := h.length_le
  rw [length_encodeArray] at hle
  refine ⟨h.nonempty, h.small, h.received, ⟨rest, ?_⟩, by omega⟩
  rw [hrest, Ptr.bytes, List.take_take, Nat.min_self]

theorem CompleteRequest.holdsItems (h : CompleteRequest bufferSize its buf size) :
    HoldsItems buf.mem (buf.off + (serializePrefix its.length).length) its := by
  obtain ⟨rest, hrest⟩ := h.whole
  have hdrop := congrArg (List.drop (serializePrefix its.length).length) hrest
  rw [encodeArray, List.append_assoc, List.drop_left, Ptr.bytes, List.drop_take, Ptr.rest,
    List.drop_drop] at hdrop
  exact (List.prefix_append _ rest).trans (hdrop ▸ List.take_prefix _ _)

theorem createMemc_not_split {k n : ℕ} {created : Created}
    (h : createMemc buf size k = some (n, some created)) :
    (∀ ba, created ≠ .redisMget ba) ∧ ∀ ba, created ≠ .redisDel ba := by
  rw [createMemc] at h
  generalize getMemcCommandType (buf.bytes k) = t at h
  cases t with
  | set =>
    obtain ⟨r, -, h⟩ := Option.bind_eq_some_iff.mp h
    dsimp only at h
    split at h
    · cases (Prod.mk.inj (Option.some.inj h)).2
      exact ⟨fun _ => by rintro ⟨⟩, fun _ => by rintro ⟨⟩⟩
    · cases (Prod.mk.inj (Option.some.inj h)).2
      exact ⟨fun _ => by rintro ⟨⟩, fun _ => by rintro ⟨⟩⟩
  | _ =>
    cases (Prod.mk.inj (Option.some.inj h)).2
    exact ⟨fun _ => by rintro ⟨⟩, fun _ => by rintro ⟨⟩⟩

theorem CompleteRequest.mget (h : CompleteRequest bufferSize its buf size)
    (hv : verbOf its = .mget) :
    ∃ ba, createCommand bufferSize buf size =
        some ((encodeArray its).length, some (.redisMget ba)) ∧ WholeArray its ba ∧
      ba.items = wholeItems buf.mem (buf.off + (serializePrefix its.length).length) its := by
  have hb := h.begun
  obtain ⟨ba, hparse, hba⟩ := wholeArray h.nonempty h.small h.received h.whole
  have hparsed : ba = BulkArray.parsedArray buf its size := by
    have := hparse.symm.trans hb.parse
    rwa [Option.some.injEq] at this
  rw [hparsed] at hba
  have hle := h.length_le
  rw [length_encodeArray] at hle
  have hitems : (BulkArray.parsedArray buf its size).items =
      wholeItems buf.mem (buf.off + (serializePrefix its.length).length) its := by
    rw [BulkArray.items_parsedArray, presentItems_whole _ _ _ (by omega)]
  refine ⟨_, ?_, hba, hitems⟩
  obtain ⟨ba', verb', tail', hba', -, -, hcreate⟩ := h.createCommand_eq
  rw [hv, (createRedisCommand_whole verb' size hba').2.1] at hcreate
  have hredis : createCommand bufferSize buf size = createRedis buf size := by
    have hc := hcreate
    unfold createCommand at hc ⊢
    split at hc
    · split at hc
      · cases hc
      · cases hc
    split at hc
    next hstar => rw [if_pos hstar]
    next => exact absurd rfl ((createMemc_not_split hc).1 _)
  obtain ⟨verb, tail, hcons⟩ : ∃ verb tail, (BulkArray.parsedArray buf its size).items =
      verb :: tail := by
    apply List.exists_cons_of_length_pos
    have := hba.presentBulks
    rw [BulkArray.presentBulks] at this
    rw [this]
    exact List.length_pos_iff.mpr h.nonempty
  have habsent := (hba.bulkCompleted 0 verb (by rw [hcons]; rfl)).1
  rw [hredis, hb.createRedis_eq, switchOn, hcons, hv]
  dsimp only
  rw [if_pos habsent, (createRedisCommand_whole verb size hba).2.1]

end Complete
end Yarmproxy
