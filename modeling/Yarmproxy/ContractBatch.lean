import Yarmproxy.BufferQueue
import Yarmproxy.ContractPlain

/-! # The contract of commands whose subqueries come in batches

A batch is parsed from the bytes behind the processed ones. Its first key takes a new backend, so
the client buffer is locked when its offsets move. -/
namespace Yarmproxy

variable {ε : Type}

namespace ReadBuffer
variable {b : ReadBuffer} {p q : ℕ}

theorem recycleLocked_incRecycleLock : b.incRecycleLock.recycleLocked = true :=
  decide_eq_true (Nat.succ_pos _)

/-- The offsets of a locked buffer move over a batch. -/
theorem process_batch (hv : b.Valid) (hl : b.recycleLocked = true) (h0 : b.ahead = 0)
    (hp : p ≤ b.queued.length) (hpq : p ≤ q) (hq : q < 2 ^ 63) :
    ((b.updateProcessedBytes p).updateParsedBytes q).Valid ∧
      ((b.updateProcessedBytes p).updateParsedBytes q).queued = b.queued.drop p ∧
      ((b.updateProcessedBytes p).updateParsedBytes q).ahead = q - p := by
  have hoff := parsedOffset_le hv
  have hle := hv.processed_parsed
  have he : b.Enabled (.processUnparsed p q) := by
    refine ⟨hl, receivedBytes_eq hv ▸ hp, by omega, ?_⟩
    omega
  have hc : Orderly b (.processUnparsed p q) := by
    rw [Orderly]
    omega
  have hsim : Simulates (2 ^ 20) b ⟨b.queued, b.ahead⟩ := ⟨hv, rfl, rfl⟩
  obtain ⟨-, hs⟩ := processUnparsed_simulates hsim he hc
  refine ⟨hs.within, hs.contents, hs.ahead.trans ?_⟩
  rw [ByteQueue.next, h0, Nat.zero_add]

end ReadBuffer

section Items
variable {b : ReadBuffer} {k : ℕ}

/-- The bulks that begin at the parsed offset. -/
structure Upcoming (b : ReadBuffer) (its : List Item) : Prop where
  small : (encodeItems its).length < 2 ^ 31
  content : ∃ rest, (b.data.drop b.parsedOffset).take b.unparsed.length =
    (encodeItems its ++ rest).take b.unparsed.length

/-- The bulks of the batch. -/
abbrev Upcoming.bulks (b : ReadBuffer) (its : List Item) : List Bulk :=
  presentItems b.data b.parsedOffset its b.unparsed.length

theorem StartsBulks.upcoming (hv : b.Valid) (h : StartsBulks k b.unparsed) :
    ∃ its, its.length = k ∧ Upcoming b its := by
  obtain ⟨its, rest, hlen, hsmall, hbs⟩ := h
  exact ⟨its, hlen, hsmall, rest, (ReadBuffer.bytes_unparsedData hv).trans hbs⟩

theorem itemSize_lt_of_items {its : List Item} (hs : (encodeItems its).length < 2 ^ 31) :
    ∀ it ∈ its, itemSize it < 2 ^ 31 := by
  intro it hit
  obtain ⟨i, hi, rfl⟩ := List.getElem_of_mem hit
  have hle := itemStart_le its (i + 1)
  rw [itemStart_succ (List.getElem?_eq_getElem hi)] at hle
  omega

namespace Upcoming
variable {its : List Item}

theorem parse (h : Upcoming b its) (hv : b.Valid) :
    parseBulkItems b.unparsedData b.unparsedReceivedBytes its.length =
      some (((itemStart its (bulks b its).length : ℕ) : ℤ), bulks b its) := by
  obtain ⟨rest, hm⟩ := h.content
  have hsize := itemSize_lt_of_items h.small
  have hle := presentTotal_le its b.unparsed.length
  have hsmall := h.small
  rw [← ReadBuffer.length_unparsed hv, parseBulkItems_encoded hm (ReadBuffer.length_unparsed_le hv)
    (fun it hit => by have := hsize it hit; omega) fun it hit => by have := hsize it hit; omega]
  have hint : Int.bmod (presentTotal its b.unparsed.length) (2 ^ 32) =
      (presentTotal its b.unparsed.length : ℤ) := sizeToInt_eq (by omega)
  have htotal : presentTotal its b.unparsed.length = itemStart its (bulks b its).length :=
    presentTotal_eq its _ _
  rw [hint, htotal]
  rfl

/-- The last of the bulks up to `m`. -/
theorem last (h : Upcoming b its) {m : ℕ} (hm : m < (bulks b its).length) :
    ∃ it bulk, its[m]? = some it ∧ (bulks b its)[m]? = some bulk ∧
      bulk.totalSize = some (itemSize it) ∧
      bulk.presentSize = (min (b.unparsed.length - itemStart its m) (itemSize it) : ℕ) ∧
      bulk.completed = some (decide (itemStart its (m + 1) ≤ b.unparsed.length)) ∧
      itemStart its m ≤ b.unparsed.length ∧ itemStart its (m + 1) = itemStart its m +
        itemSize it := by
  obtain ⟨rest, hc⟩ := h.content
  obtain ⟨it, hit, hh⟩ := lt_length_presentItems.mp hm
  have hs := itemSize_lt_of_items h.small it (List.mem_of_getElem? hit)
  have hb := List.getElem?_eq_getElem hm
  obtain ⟨hbulk, htotal, -⟩ := bulk_presentItems hs hc hit hb
  refine ⟨it, _, hit, hb, htotal, ?_, completed_presentItems hs hc hit hb,
    by omega, itemStart_succ hit⟩
  rw [hbulk]

end Upcoming
end Items

namespace RedisMsetCommand
variable {x : Ctx (RedisMsetCommand ε)} {c : RedisMsetCommand ε} {i j : ℕ}

theorem conduct [DecidableEq ε] (locate : Bytes → ε) (pool : Pool) :
    Conduct (handlers locate pool) outline where
  complete _ _ h := queryRecvComplete_eq h
  core_setBackend _ _ _ := progress_setSubquery rfl
  sent b ec _ := onWriteQueryFinished_sent b ec rfl
  received b ec _ := onBackendReplyReceived_ends b ec rfl
  becomeFirst _ hf := startWriteReply_ends hf
  written b ec _ hf := match b with
    | none => .emit_fatal rfl
    | some b => onWriteReplyFinished_ends b ec hf rfl

/-- Between two handlers no subquery waits to be started. -/
def Started (c : RedisMsetCommand ε) : Prop := c.waitingSubqueries = []

theorem tells [DecidableEq ε] (locate : Bytes → ε) (pool : Pool) :
    Tells (handlers locate pool) outline Started tailComplete := by
  refine ⟨fun c c' h hi => ?_, fun c c' h => ?_, fun c c' h => ?_⟩
  · exact (Progress.mk.inj h).2.2.2.trans hi
  · simp only [handlers, queryParsingComplete, (Progress.mk.inj h).1]
  · obtain ⟨-, h₂, h₃, -⟩ := Progress.mk.inj h
    simp only [tailComplete, h₂, fun b => congrFun h₃ b]

section Activate
variable {buffer : ReadBuffer}

theorem received_setComplete : ((c.setComplete i).subquery j).queryRecvComplete =
    (decide (j = i) || (c.subquery j).queryRecvComplete) := by
  simp only [setComplete, setSubquery]
  by_cases h : j = i
  · rw [h, Function.update_self, decide_eq_true rfl, Bool.true_or]
  · rw [Function.update_of_ne h, decide_eq_false h, Bool.false_or]

theorem received_setBackend {k : BackendConn ε} :
    ((c.setBackend i k).subquery j).queryRecvComplete = (c.subquery j).queryRecvComplete := by
  have hp : (c.setBackend i k).progress = c.progress := progress_setSubquery rfl
  exact congrFun (Progress.mk.inj hp).2.2.1 j

theorem tailComplete_iff : c.tailComplete = true ↔
    ∃ i, c.tailQuery = some i ∧ (c.subquery i).queryRecvComplete = true := by
  rw [tailComplete]
  cases c.tailQuery <;> simp

theorem tailQuery_activate : (activate buffer c i).tailQuery = c.tailQuery := by
  unfold activate
  dsimp only
  split <;> rfl

theorem unparsedBulks_activate : (activate buffer c i).unparsedBulks = c.unparsedBulks := by
  unfold activate
  dsimp only
  split <;> rfl

/-- The tail is complete when all that has been parsed is there. -/
theorem tailComplete_activate : (activate buffer c i).tailComplete = true ↔
    c.tailComplete = true ∨ buffer.parsedUnreceivedBytes = 0 ∧ c.tailQuery = some i := by
  rw [tailComplete_iff, tailComplete_iff, tailQuery_activate]
  unfold activate
  dsimp only
  simp only [received_setBackend]
  split
  next hi =>
    simp only [received_setComplete, Bool.or_eq_true, decide_eq_true_eq]
    constructor
    · rintro ⟨j, hj, rfl | hr⟩
      · exact .inr ⟨hi.resolve_left fun h => h hj, hj⟩
      · exact .inl ⟨j, hj, hr⟩
    · rintro (⟨j, hj, hr⟩ | ⟨-, ht⟩)
      · exact ⟨j, hj, .inr hr⟩
      · exact ⟨i, ht, .inl rfl⟩
  next hi =>
    rw [or_iff_left]
    exact fun ⟨h0, _⟩ => hi (.inr h0)

theorem foldl_activate (buffer : ReadBuffer) (c : RedisMsetCommand ε) (is : List ℕ) :
    (is.foldl (activate buffer) c).unparsedBulks = c.unparsedBulks ∧
      (is.foldl (activate buffer) c).tailQuery = c.tailQuery ∧
      ((is.foldl (activate buffer) c).tailComplete = true ↔
        c.tailComplete = true ∨ buffer.parsedUnreceivedBytes = 0 ∧
          ∃ i ∈ is, c.tailQuery = some i) := by
  induction is generalizing c with
  | nil => simp
  | cons i is ih =>
    obtain ⟨hu, ht, hc⟩ := ih (activate buffer c i)
    refine ⟨hu.trans unparsedBulks_activate, ht.trans tailQuery_activate, hc.trans ?_⟩
    rw [tailComplete_activate, tailQuery_activate, or_assoc, ← and_or_left]
    simp only [List.mem_cons, exists_eq_or_imp]

end Activate

theorem tailComplete_checkTail (buffer : ReadBuffer) (ht : c.tailQuery = some i) :
    (c.checkTail buffer i).tailComplete = true ↔
      c.tailComplete = true ∨ buffer.parsedUnreceivedBytes = 0 := by
  unfold checkTail
  split
  next h0 =>
    refine iff_of_true (tailComplete_iff.mpr ⟨i, ht, ?_⟩) (.inr h0)
    rw [received_setComplete, decide_eq_true rfl, Bool.true_or]
  next h0 => rw [or_iff_left h0]

theorem checkTail_request (c : RedisMsetCommand ε) (buffer : ReadBuffer) (i : ℕ) :
    (c.checkTail buffer i).tailQuery = c.tailQuery ∧
      (c.checkTail buffer i).unparsedBulks = c.unparsedBulks ∧
      (c.checkTail buffer i).waitingSubqueries = c.waitingSubqueries := by
  unfold checkTail
  split <;> exact ⟨rfl, rfl, rfl⟩

section Contract
variable [DecidableEq ε] {locate : Bytes → ε} {pool : Pool}

theorem startWriteQuery_sends (hv : x.buffer.Valid) (hx : x.effects = []) :
    Terminal (startWriteQuery x).1.effects ∨
      Sends (handlers locate pool) Started tailComplete x (startWriteQuery x).1 := by
  unfold startWriteQuery
  split
  · refine .inl ?_
    rw [Ctx.emit, hx]
    exact .single rfl
  next i ht =>
    obtain ⟨htail, hbulks, hwaiting⟩ := checkTail_request x.cmd x.buffer i
    obtain ⟨hu, -, hc⟩ := foldl_activate x.buffer (x.cmd.checkTail x.buffer i)
      (x.cmd.checkTail x.buffer i).waitingSubqueries
    rw [tailComplete_checkTail x.buffer ht] at hc
    refine .inr ⟨.refl hv, rfl, ?_, fun _ h0 => hc.mpr (.inl (.inr h0)), fun hr => ?_, ?_⟩
    · simp only [handlers, queryParsingComplete, activateWaitingSubquery, hu, hbulks]
    · rcases hc.mp hr with hr | hr
      · exact hr
      · exact .inr hr.1
    · rw [hx]
      rintro _ ⟨⟩

theorem continueWriteQuery_sends (hi : Started x.cmd) (hv : x.buffer.Valid) (hx : x.effects = []) :
    Terminal (continueWriteQuery x).1.effects ∨
      Sends (handlers locate pool) Started tailComplete x (continueWriteQuery x).1 := by
  unfold continueWriteQuery
  split
  · refine .inl ?_
    rw [Ctx.emit, hx]
    exact .single rfl
  next i ht =>
    obtain ⟨htail, hbulks, hwaiting⟩ := checkTail_request x.cmd x.buffer i
    have hc := tailComplete_checkTail x.buffer ht
    -- what happens behind the check leaves the request alone
    have hsends : ∀ y : Ctx (RedisMsetCommand ε),
        outline.core y.cmd = outline.core (x.cmd.checkTail x.buffer i) → x.buffer.Kept y.buffer →
        (∀ e ∈ y.effects, e.plain x.first true = true) →
        Sends (handlers locate pool) Started tailComplete x y := by
      intro y hcore hk he
      have hr := (tells locate pool).received _ _ hcore
      refine ⟨hk, (tells locate pool).inv _ _ hcore (hwaiting.trans hi), ?_, fun _ h0 => ?_,
        fun h => ?_, he⟩
      · rw [(tells locate pool).parsed _ _ hcore]
        simp only [handlers, queryParsingComplete, hbulks]
      · exact hr.trans (hc.mpr (.inr h0))
      · exact hc.mp (hr.symm.trans h)
    have hkept := ReadBuffer.Kept.refl hv
    dsimp only
    split
    · refine .inr ?_
      split
      · exact hsends _ rfl hkept (by rw [hx]; rintro _ ⟨⟩)
      split
      · have hs := replyOrWait_steps (k := true)
          (x := { x with cmd := x.cmd.checkTail x.buffer i }) i
        obtain ⟨es, he, hp⟩ := hs.effects
        refine hsends _ hs.still.core (.of_eq hv hs.buffer) fun e hm => ?_
        rw [he, hx] at hm
        exact (hp e hm).1
      · exact hsends _ rfl hkept (by rw [hx]; rintro _ ⟨⟩)
    split
    · refine .inl ?_
      rw [Ctx.emit, hx]
      exact .single rfl
    · refine .inr (hsends _ ?_ hkept.incRecycleLock (by rw [hx]; rintro _ ⟨⟩))
      exact progress_setSubquery rfl

/-- The state of the loop over the pairs of a batch. -/
structure Pushing (b : ReadBuffer) (n : ℕ) (s : ReadBuffer × RedisMsetCommand ε) : Prop where
  kept : b.Kept s.1
  unparsed : s.2.unparsedBulks = n
  incomplete : ∀ i ∈ s.2.waitingSubqueries, (s.2.subquery i).queryRecvComplete = false
  begun : s.2.waitingSubqueries ≠ [] → s.1.recycleLocked = true ∧
    ∃ i ∈ s.2.waitingSubqueries, s.2.tailQuery = some i

theorem Pushing.pushSubquery {b : ReadBuffer} {n bytes : ℕ} {ep : ε} {data : Ptr}
    {s : ReadBuffer × RedisMsetCommand ε} (h : Pushing b n s) :
    Pushing b n (pushSubquery pool ep data bytes s) ∧
      (RedisMsetCommand.pushSubquery pool ep data bytes s).2.waitingSubqueries ≠ [] := by
  obtain ⟨buffer, c⟩ := s
  unfold RedisMsetCommand.pushSubquery
  dsimp only
  split
  · refine ⟨⟨h.kept.incRecycleLock, h.unparsed, fun i hi => ?_, fun _ =>
      ⟨ReadBuffer.recycleLocked_incRecycleLock, c.count, by simp, rfl⟩⟩, by simp⟩
    by_cases hc : i = c.count
    · simp only [setSubquery, hc, Function.update_self]
    · simp only [setSubquery, Function.update_of_ne hc]
      rcases List.mem_append.mp hi with hi | hi
      · exact h.incomplete i hi
      · exact absurd (List.mem_singleton.mp hi) hc
  next i hf =>
    have hmem := List.mem_of_find?_eq_some hf
    have hne : c.waitingSubqueries ≠ [] := List.ne_nil_of_mem hmem
    refine ⟨⟨h.kept, h.unparsed, fun j hj => ?_, fun _ => ⟨(h.begun hne).1, i, hmem, rfl⟩⟩, hne⟩
    by_cases hc : j = i
    · simp only [setSubquery, hc, Function.update_self]
      exact h.incomplete i hmem
    · simp only [setSubquery, Function.update_of_ne hc]
      exact h.incomplete j hj

theorem Pushing.pushPair {b : ReadBuffer} {n : ℕ} {pair : Bulk × Bulk}
    {s s' : ReadBuffer × RedisMsetCommand ε} (h : Pushing b n s)
    (hp : pushPair locate pool s pair = some s') :
    Pushing b n s' ∧ s'.2.waitingSubqueries ≠ [] := by
  obtain ⟨key, -, hp⟩ := Option.bind_eq_some_iff.mp hp
  obtain rfl := Option.some.inj hp
  exact h.pushSubquery

theorem Pushing.pushPairs {b : ReadBuffer} {n : ℕ} {pairs : List (Bulk × Bulk)} (hne : pairs ≠ [])
    {s s' : ReadBuffer × RedisMsetCommand ε} (h : Pushing b n s)
    (hp : pairs.foldlM (RedisMsetCommand.pushPair locate pool) s = some s') :
    Pushing b n s' ∧ s'.2.waitingSubqueries ≠ [] := by
  obtain ⟨pair, pairs, rfl⟩ := List.exists_cons_of_ne_nil hne
  rw [List.foldlM_cons] at hp
  obtain ⟨t, ht, hp⟩ := Option.bind_eq_some_iff.mp hp
  exact Lists.foldlM_preserves (P := fun s => Pushing b n s ∧ s.2.waitingSubqueries ≠ [])
    (fun _ _ _ hs hp => hs.1.pushPair hp) pairs (h.pushPair ht) hp

theorem takeUnparsed_upcoming {b : ReadBuffer} {its : List Item} (h : Upcoming b its) :
    ∃ m ≤ (Upcoming.bulks b its).length, m % 2 = 0 ∧
      takeUnparsed (itemStart its (Upcoming.bulks b its).length : ℕ) (Upcoming.bulks b its) =
        some (((itemStart its m : ℕ) : ℤ), (Upcoming.bulks b its).take m) := by
  unfold takeUnparsed
  split
  next hodd =>
    have hlt : (Upcoming.bulks b its).length - 1 < (Upcoming.bulks b its).length := by omega
    obtain ⟨it, bulk, -, hb, htotal, -, -, -, hnext⟩ := h.last hlt
    have hle := itemStart_le its (Upcoming.bulks b its).length
    have hs := h.small
    rw [Nat.sub_add_cancel (by omega)] at hnext
    refine ⟨(Upcoming.bulks b its).length - 1, by omega, by omega, ?_⟩
    rw [List.getLast?_eq_getElem?, hb, Option.bind_eq_bind, Option.bind_some, htotal,
      Option.bind_eq_bind, Option.bind_some, intToSize_natCast (by omega), hnext,
      subSize_eq (by omega) (by omega), Nat.add_sub_cancel, sizeToInt_eq (by omega),
      List.dropLast_eq_take]
  next heven =>
    exact ⟨_, le_rfl, by omega, by rw [List.take_length]⟩

theorem bulkPairs_ne_nil {bulks : List Bulk} (h : 2 ≤ bulks.length) : bulkPairs bulks ≠ [] := by
  match bulks, h with
  | _ :: _ :: _, _ => exact nofun

theorem activateUnparsed_processes {its : List Item} {m : ℕ} {y : Ctx (RedisMsetCommand ε)}
    (h : Upcoming x.buffer its) (hi : Started x.cmd) (hv : x.buffer.Valid) (h0 : x.buffer.ahead = 0)
    (hm : m ≤ (Upcoming.bulks x.buffer its).length) (h2 : 2 ≤ m)
    (hy : activateUnparsed locate pool (itemStart its m : ℕ)
      ((Upcoming.bulks x.buffer its).take m) x =
      some y) (hx : x.effects = []) :
    Processes (handlers locate pool) Started tailComplete y ∧
      y.buffer.queued <:+ x.buffer.queued := by
  have hlen : ((Upcoming.bulks x.buffer its).take m).length = m := by
    rw [List.length_take, Nat.min_eq_left hm]
  obtain ⟨⟨buffer, c⟩, hpush, hy⟩ := Option.bind_eq_some_iff.mp hy
  obtain ⟨back, hback, hy⟩ := Option.bind_eq_some_iff.mp hy
  obtain ⟨total, htotal, hy⟩ := Option.bind_eq_some_iff.mp hy
  obtain ⟨it, bulk, -, hb, htotal', hpresent, -, hstart, hnext⟩ := h.last (m := m - 1) (by omega)
  rw [Nat.sub_add_cancel (by omega)] at hnext
  rw [List.getLast?_eq_getElem?, hlen, List.getElem?_take, if_pos (by omega), hb,
    Option.some.injEq] at hback
  obtain rfl := hback
  obtain rfl := Option.some.inj (htotal'.symm.trans htotal)
  have hpushing : Pushing x.buffer x.cmd.unparsedBulks (x.buffer, x.cmd) :=
    ⟨.refl hv, rfl, by rw [hi]; rintro _ ⟨⟩, fun hne => absurd hi hne⟩
  obtain ⟨hp, hne⟩ := hpushing.pushPairs (bulkPairs_ne_nil (hlen.symm ▸ h2)) hpush
  obtain ⟨hlock, i, hmem, htail⟩ := hp.begun hne
  have hle := itemStart_le its m
  have hsmall := h.small
  have hun : x.buffer.unparsed.length = x.buffer.queued.length := by
    rw [ReadBuffer.unparsed, h0, List.drop_zero]
  -- all that has been received of the batch is processed
  have hprocess : addSize (subSize (intToSize (itemStart its m : ℕ)) (itemSize it))
      (intToSize bulk.presentSize) = min x.buffer.queued.length (itemStart its m) := by
    rw [hpresent, intToSize_natCast (by omega), intToSize_natCast (by omega),
      subSize_eq (by omega) (by omega), addSize_eq (by omega)]
    omega
  rw [hprocess, intToSize_natCast (by omega)] at hy
  obtain ⟨hvalid, hqueued, hahead⟩ := ReadBuffer.process_batch hp.kept.valid hlock
    (hp.kept.ahead.trans h0) (p := min x.buffer.queued.length (itemStart its m))
    (q := itemStart its m) (by rw [hp.kept.queued]; omega) (by omega) (by omega)
  dsimp only at hy
  generalize hB :
    (buffer.updateProcessedBytes (min x.buffer.queued.length (itemStart its m))).updateParsedBytes
    (itemStart its m) = B at hy hvalid hqueued hahead
  generalize subSize c.unparsedBulks ((Upcoming.bulks x.buffer its).take m).length = u at hy
  obtain rfl := Option.some.inj hy
  have hq : B.queued.length = x.buffer.queued.length - min x.buffer.queued.length
      (itemStart its m) := by
    rw [hqueued, hp.kept.queued, List.length_drop]
  have hpu := ReadBuffer.parsedUnreceivedBytes_eq hvalid
  have hrecv : (activateWaitingSubquery B { c with unparsedBulks := u }).tailComplete = true ↔
      B.parsedUnreceivedBytes = 0 := by
    have hc := (foldl_activate B { c with unparsedBulks := u } c.waitingSubqueries).2.2
    refine hc.trans ⟨?_, fun h0 => .inr ⟨h0, i, hmem, htail⟩⟩
    rintro (hr | hr)
    · obtain ⟨j, hj, hr⟩ := tailComplete_iff.mp hr
      obtain rfl := Option.some.inj (htail.symm.trans hj)
      exact absurd ((hp.incomplete i hmem).symm.trans hr) Bool.false_ne_true
    · exact hr.1
  refine ⟨⟨hvalid, rfl, fun hr => ?_, fun _ hr => ?_, .inl hx⟩, ?_⟩
  · have := hrecv.mp hr
    dsimp only
    omega
  · have : B.parsedUnreceivedBytes ≠ 0 := fun h0 => by
      rw [hrecv.mpr h0] at hr
      cases hr
    dsimp only
    omega
  · dsimp only
    rw [hqueued, hp.kept.queued]
    exact List.drop_suffix ..

theorem processUnparsedPart_processes (hi : Started x.cmd) (hv : x.buffer.Valid)
    (hx : x.effects = []) (hp : x.cmd.queryParsingComplete = false) (h0 : x.buffer.ahead = 0)
    (hR : StartsBulks x.cmd.unparsedBulks x.buffer.unparsed) :
    Terminal (processUnparsedPart locate pool x).1.effects ∨
      (processUnparsedPart locate pool x).2 = true ∧
        Processes (handlers locate pool) Started tailComplete
          (processUnparsedPart locate pool x).1 ∧
        (processUnparsedPart locate pool x).1.buffer.queued <:+ x.buffer.queued := by
  obtain ⟨its, hlen, hup⟩ := hR.upcoming hv
  obtain ⟨m, hm, heven, htake⟩ := takeUnparsed_upcoming hup
  have hparse := hup.parse hv
  rw [hlen] at hparse
  unfold processUnparsedPart processUnparsed
  simp only [hparse, Option.bind_eq_bind, Option.bind_some]
  rw [if_neg (by omega), htake, Option.bind_some]
  dsimp only
  split
  · refine .inr ⟨rfl, ?_⟩
    have hinc : (handlers locate pool).queryRecvComplete x.cmd = false := by
      simp only [handlers, queryRecvComplete, hp, Bool.and_false]
    have hpc : ∀ h : (handlers locate pool).queryParsingComplete x.cmd = true, False := fun h =>
      absurd (hp.symm.trans h) Bool.false_ne_true
    simp only [Option.getD_some]
    split
    · exact ⟨⟨hv, hi, fun _ => h0, fun h => (hpc h).elim, .inl hx⟩, List.suffix_rfl⟩
    · refine ⟨⟨hv, hi, fun _ => h0, fun h => (hpc h).elim, .inr ⟨?_, hinc⟩⟩, List.suffix_rfl⟩
      rw [Ctx.emit, hx]
      rfl
  next hne =>
    cases hact : activateUnparsed locate pool (itemStart its m : ℕ)
        ((Upcoming.bulks x.buffer its).take m) x with
    | none =>
      refine .inl ?_
      rw [Option.bind_none, Option.getD_none, Ctx.emit, hx]
      exact .single rfl
    | some y =>
      refine .inr ⟨rfl, activateUnparsed_processes hup hi hv h0 hm ?_ hact hx⟩
      have : m ≠ 0 := by
        rintro rfl
        exact hne rfl
      omega

end Contract

theorem disciplined [DecidableEq ε] (locate : Bytes → ε) (pool : Pool) :
    Disciplined (handlers locate pool) Started tailComplete (fun _ => True)
      fun c bs => StartsBulks c.unparsedBulks bs where
  complete _ _ := rfl
  start _ _ hv hx := startWriteQuery_sends hv hx
  continue_ _ hi hv hx _ := continueWriteQuery_sends hi hv hx
  parse _ hi hv hx _ _ := .inr (.inr ⟨rfl, hv, rfl, rfl, hi, rfl, le_rfl, fun _ => rfl, .inl, hx⟩)
  process _ hi hv hx hp h0 hR :=
    (processUnparsedPart_processes hi hv hx hp h0 hR).imp_right fun h => .inr ⟨h.1, h.2.1⟩
  becomeFirst _ hi hv hx hf :=
    (conduct locate pool).becomeFirst_minor (tells locate pool) hi hv hx hf
  written b ec _ hi hv hx hf :=
    (conduct locate pool).written_minor (tells locate pool) b ec hi hv hx hf
  backend b e _ hi hv hx := (conduct locate pool).backend_minor (tells locate pool) b e hi hv hx

end RedisMsetCommand

namespace RedisDelCommand
variable {x : Ctx (RedisDelCommand ε)} {c : RedisDelCommand ε}

theorem conduct [DecidableEq ε] (locate : Bytes → ε) (pool : Pool) :
    Conduct (handlers locate pool) outline where
  complete _ _ h := queryRecvComplete_eq h
  core_setBackend _ _ _ := rfl
  sent b ec _ := onWriteQueryFinished_sent b ec rfl
  received b ec _ := onBackendReplyReceived_ends b ec rfl
  becomeFirst _ hf := startWriteReply_ends hf
  written b ec _ hf := match b with
    | none => .emit_fatal rfl
    | some b => onWriteReplyFinished_ends b ec hf rfl

/-- Between two handlers no subquery waits to be started. -/
def Started (c : RedisDelCommand ε) : Prop := c.waitingSubqueries = []

theorem tells [DecidableEq ε] (locate : Bytes → ε) (pool : Pool) :
    Tells (handlers locate pool) outline Started fun _ => true :=
  ⟨fun _ _ h hi => (Prod.mk.inj h).2.trans hi, fun _ _ h => queryRecvComplete_eq h,
    fun _ _ _ => rfl⟩

theorem unparsedBulks_foldl (is : List ℕ) :
    (is.foldl activate c).unparsedBulks = c.unparsedBulks := by
  induction is generalizing c with
  | nil => rfl
  | cons i is ih => exact ih

section Contract
variable [DecidableEq ε] {locate : Bytes → ε} {pool : Pool}

theorem startWriteQuery_sends (hv : x.buffer.Valid) (hx : x.effects = []) :
    Sends (handlers locate pool) Started (fun _ => true) x (startWriteQuery x).1 := by
  refine ⟨.refl hv, rfl, ?_, fun _ _ => rfl, fun _ => .inl rfl, ?_⟩
  · simp only [handlers, queryParsingComplete, startWriteQuery, activateWaitingSubquery,
      unparsedBulks_foldl]
  · rw [startWriteQuery, hx]
    rintro _ ⟨⟩

/-- The state of the loop over the keys of a batch. -/
structure Pushing (b : ReadBuffer) (s : ReadBuffer × RedisDelCommand ε) : Prop where
  kept : b.Kept s.1
  begun : s.2.waitingSubqueries ≠ [] → s.1.recycleLocked = true

theorem Pushing.pushKey {b : ReadBuffer} {bulk : Bulk} {s s' : ReadBuffer × RedisDelCommand ε}
    (h : Pushing b s) (hp : pushKey locate pool s bulk = some s') :
    Pushing b s' ∧ s'.2.waitingSubqueries ≠ [] := by
  obtain ⟨key, -, hp⟩ := Option.bind_eq_some_iff.mp hp
  obtain rfl := Option.some.inj hp
  obtain ⟨buffer, c⟩ := s
  unfold RedisDelCommand.pushSubquery
  dsimp only
  split
  · exact ⟨⟨h.kept.incRecycleLock, fun _ => ReadBuffer.recycleLocked_incRecycleLock⟩, by simp⟩
  next i hf => exact ⟨⟨h.kept, h.begun⟩, List.ne_nil_of_mem (List.mem_of_find?_eq_some hf)⟩

theorem Pushing.pushKeys {b : ReadBuffer} {bulks : List Bulk} (hne : bulks ≠ [])
    {s s' : ReadBuffer × RedisDelCommand ε} (h : Pushing b s)
    (hp : bulks.foldlM (RedisDelCommand.pushKey locate pool) s = some s') :
    Pushing b s' ∧ s'.2.waitingSubqueries ≠ [] := by
  obtain ⟨bulk, bulks, rfl⟩ := List.exists_cons_of_ne_nil hne
  rw [List.foldlM_cons] at hp
  obtain ⟨t, ht, hp⟩ := Option.bind_eq_some_iff.mp hp
  exact Lists.foldlM_preserves (P := fun s => Pushing b s ∧ s.2.waitingSubqueries ≠ [])
    (fun _ _ _ hs hp => hs.1.pushKey hp) bulks (h.pushKey ht) hp

theorem takeUnparsed_upcoming {b : ReadBuffer} {its : List Item} (h : Upcoming b its) :
    ∃ m ≤ (Upcoming.bulks b its).length, itemStart its m ≤ b.unparsed.length ∧
      takeUnparsed (itemStart its (Upcoming.bulks b its).length : ℕ) (Upcoming.bulks b its) =
        some (((itemStart its m : ℕ) : ℤ), (Upcoming.bulks b its).take m) := by
  unfold takeUnparsed
  rw [List.getLast?_eq_getElem?]
  by_cases hlt : (Upcoming.bulks b its).length - 1 < (Upcoming.bulks b its).length
  · obtain ⟨it, bulk, -, hb, htotal, -, hdone, hstart, hnext⟩ := h.last hlt
    have hle := itemStart_le its (Upcoming.bulks b its).length
    have hs := h.small
    rw [Nat.sub_add_cancel (by omega)] at hnext hdone
    rw [hb]
    dsimp only
    rw [hdone, Option.bind_eq_bind, Option.bind_some]
    split
    next hd => exact ⟨_, le_rfl, of_decide_eq_true hd, by rw [List.take_length]⟩
    next hd =>
      refine ⟨(Upcoming.bulks b its).length - 1, by omega, hstart, ?_⟩
      rw [htotal, Option.bind_eq_bind, Option.bind_some, intToSize_natCast (by omega), hnext,
        subSize_eq (by omega) (by omega), Nat.add_sub_cancel, sizeToInt_eq (by omega),
        List.dropLast_eq_take]
  · have hnil : Upcoming.bulks b its = [] := List.eq_nil_of_length_eq_zero (by omega)
    rw [hnil]
    exact ⟨0, le_rfl, Nat.zero_le _, rfl⟩

theorem activateUnparsed_processes {its : List Item} {m : ℕ} {y : Ctx (RedisDelCommand ε)}
    (h : Upcoming x.buffer its) (hi : Started x.cmd) (hv : x.buffer.Valid) (h0 : x.buffer.ahead = 0)
    (hm : itemStart its m ≤ x.buffer.unparsed.length)
    (hne : (Upcoming.bulks x.buffer its).take m ≠ [])
    (hy : activateUnparsed locate pool (itemStart its m : ℕ)
      ((Upcoming.bulks x.buffer its).take m) x =
      some y) (hx : x.effects = []) :
    Processes (handlers locate pool) Started (fun _ => true) y ∧
      y.buffer.queued <:+ x.buffer.queued := by
  obtain ⟨⟨buffer, c⟩, hpush, hy⟩ := Option.bind_eq_some_iff.mp hy
  have hpushing : ∀ u, Pushing x.buffer (x.buffer, { x.cmd with unparsedBulks := u }) := fun u =>
    ⟨.refl hv, fun hne => absurd hi hne⟩
  obtain ⟨hp, hwaiting⟩ := (hpushing _).pushKeys hne hpush
  have hle := itemStart_le its m
  have hsmall := h.small
  rw [ReadBuffer.unparsed, h0, List.drop_zero] at hm
  rw [intToSize_natCast (by omega)] at hy
  obtain ⟨hvalid, hqueued, hahead⟩ := ReadBuffer.process_batch hp.kept.valid (hp.begun hwaiting)
    (hp.kept.ahead.trans h0) (p := itemStart its m) (q := itemStart its m)
    (by rw [hp.kept.queued]; exact hm) le_rfl (by omega)
  obtain rfl := Option.some.inj hy
  refine ⟨⟨hvalid, rfl, fun _ => hahead.trans (Nat.sub_self _),
    fun _ h => absurd h Bool.false_ne_true.symm, .inl hx⟩, ?_⟩
  dsimp only
  rw [hqueued, hp.kept.queued]
  exact List.drop_suffix ..

theorem processUnparsedPart_processes (hi : Started x.cmd) (hv : x.buffer.Valid)
    (hx : x.effects = []) (hp : x.cmd.queryParsingComplete = false) (h0 : x.buffer.ahead = 0)
    (hR : StartsBulks x.cmd.unparsedBulks x.buffer.unparsed) :
    Terminal (processUnparsedPart locate pool x).1.effects ∨
      (processUnparsedPart locate pool x).2 = true ∧
        Processes (handlers locate pool) Started (fun _ => true)
          (processUnparsedPart locate pool x).1 ∧
        (processUnparsedPart locate pool x).1.buffer.queued <:+ x.buffer.queued := by
  obtain ⟨its, hlen, hup⟩ := hR.upcoming hv
  obtain ⟨m, -, hm, htake⟩ := takeUnparsed_upcoming hup
  have hparse := hup.parse hv
  rw [hlen] at hparse
  unfold processUnparsedPart processUnparsed
  simp only [hparse, Option.bind_eq_bind, Option.bind_some]
  rw [if_neg (by omega), htake, Option.bind_some]
  dsimp only
  split
  · refine .inr ⟨rfl, ?_⟩
    simp only [Option.getD_some]
    split
    · exact ⟨⟨hv, hi, fun _ => h0, nofun, .inl hx⟩, List.suffix_rfl⟩
    · refine ⟨⟨hv, hi, fun _ => h0, nofun, .inr ⟨?_, hp⟩⟩, List.suffix_rfl⟩
      rw [Ctx.emit, hx]
      rfl
  next hne =>
    cases hact : activateUnparsed locate pool (itemStart its m : ℕ)
        ((Upcoming.bulks x.buffer its).take m) x with
    | none =>
      refine .inl ?_
      rw [Option.bind_none, Option.getD_none, Ctx.emit, hx]
      exact .single rfl
    | some y =>
      refine .inr ⟨rfl, activateUnparsed_processes hup hi hv h0 hm ?_ hact hx⟩
      exact fun hnil => hne (by rw [hnil]; rfl)

end Contract

theorem disciplined [DecidableEq ε] (locate : Bytes → ε) (pool : Pool) :
    Disciplined (handlers locate pool) Started (fun _ => true) (fun _ => True)
      fun c bs => StartsBulks c.unparsedBulks bs where
  complete _ _ := (Bool.true_and _).symm
  start _ _ hv hx := .inr (startWriteQuery_sends hv hx)
  continue_ _ _ _ _ hr := nomatch hr
  parse _ hi hv hx _ _ := .inr (.inr ⟨rfl, hv, rfl, rfl, hi, rfl, le_rfl, fun _ => rfl, .inl, hx⟩)
  process _ hi hv hx hp h0 hR :=
    (processUnparsedPart_processes hi hv hx hp h0 hR).imp_right fun h => .inr ⟨h.1, h.2.1⟩
  becomeFirst _ hi hv hx hf :=
    (conduct locate pool).becomeFirst_minor (tells locate pool) hi hv hx hf
  written b ec _ hi hv hx hf :=
    (conduct locate pool).written_minor (tells locate pool) b ec hi hv hx hf
  backend b e _ hi hv hx := (conduct locate pool).backend_minor (tells locate pool) b e hi hv hx

end RedisDelCommand
end Yarmproxy
