import Yarmproxy.RedisArity
import Yarmproxy.RedisMgetBackend

/-! # The nil replies of `MGET`

The reply made up for a backend that fails is copied into its buffer without a look at the size of
either. It fits since a nil bulk is shorter than any key bulk of the request. -/
namespace Yarmproxy

variable {ε : Type}

namespace RedisMgetCommand

/-- The subqueries and their numbers of keys are the same. -/
structure SameKeys (c c' : RedisMgetCommand ε) : Prop where
  count : c'.count = c.count
  keyCount : ∀ b, (c'.subquery b).keyCount = (c.subquery b).keyCount

namespace SameKeys

theorem refl (c : RedisMgetCommand ε) : SameKeys c c := ⟨rfl, fun _ => rfl⟩

theorem trans {c c' c'' : RedisMgetCommand ε} (h : SameKeys c c') (h' : SameKeys c' c'') :
    SameKeys c c'' :=
  ⟨h'.count.trans h.count, fun b => (h'.keyCount b).trans (h.keyCount b)⟩

theorem of_eq {c c' : RedisMgetCommand ε} (hc : c'.count = c.count)
    (hs : c'.subquery = c.subquery) :
    SameKeys c c' :=
  ⟨hc, fun b => by rw [hs]⟩

end SameKeys

section Handlers
variable {c c' : RedisMgetCommand ε} {x : Ctx (RedisMgetCommand ε)} {b : ℕ} {ok : Bool}
  {s s' : MgetSubquery ε} {r : Round}

theorem setSubquery_sameKeys (h : s.keyCount = (c.subquery b).keyCount) :
    SameKeys c (c.setSubquery b s) := by
  refine ⟨rfl, fun i => ?_⟩
  change (Function.update c.subquery b s i).keyCount = _
  by_cases hi : i = b
  · rw [hi, Function.update_self, h]
  · rw [Function.update_of_ne hi]

theorem setBackend_sameKeys (k : BackendConn ε) : SameKeys c (c.setBackend b k) :=
  setSubquery_sameKeys rfl

theorem takeFirst_keyCount {ba : BulkArray} {first : Bulk}
    (h : takeFirst s ba first = some (s', r)) : s'.keyCount = s.keyCount := by
  unfold takeFirst at h
  obtain ⟨total, -, h⟩ := Option.bind_eq_some_iff.mp h
  dsimp only at h
  split at h
  · cases h
    rfl
  · split at h
    · obtain ⟨completed, -, h⟩ := Option.bind_eq_some_iff.mp h
      exact congrArg (fun r => r.1.keyCount) (Option.some.inj h).symm
    · exact congrArg (fun r => r.1.keyCount) (Option.some.inj h).symm

theorem parseRound_keyCount (h : parseRound s = some (s', r)) : s'.keyCount = s.keyCount := by
  unfold parseRound at h
  split at h
  · unfold parseFirst at h
    obtain ⟨ba, -, h⟩ := Option.bind_eq_some_iff.mp h
    split at h
    · cases h
      rfl
    split at h
    · cases h
      rfl
    split at h
    · cases h
      rfl
    · exact takeFirst_keyCount h
  · unfold parseNext at h
    dsimp only at h
    split at h
    · cases h
      rfl
    split at h
    · cases h
      rfl
    obtain ⟨total, -, h⟩ := Option.bind_eq_some_iff.mp h
    split at h
    · obtain ⟨completed, -, h⟩ := Option.bind_eq_some_iff.mp h
      exact congrArg (fun r => r.1.keyCount) (Option.some.inj h).symm
    · exact congrArg (fun r => r.1.keyCount) (Option.some.inj h).symm

theorem takeBulk_sameKeys (h : takeBulk c = some (c', ok)) : SameKeys c c' := by
  unfold takeBulk at h
  split at h
  · cases h
    exact .of_eq rfl rfl
  · cases h

theorem parseReplyLoop_sameKeys : ∀ (fuel : ℕ) {c : RedisMgetCommand ε},
    parseReplyLoop b fuel c = some (c', ok) → SameKeys c c' := by
  intro fuel
  induction fuel with
  | zero =>
    intro c h
    rw [parseReplyLoop] at h
    split at h
    · cases h
      exact .refl _
    · cases h
  | succ fuel ih =>
    intro c h
    rw [parseReplyLoop] at h
    split at h
    · cases h
      exact .refl _
    obtain ⟨⟨s, round⟩, hs, h⟩ := Option.bind_eq_some_iff.mp h
    have hset : SameKeys c (c.setSubquery b s) := setSubquery_sameKeys (parseRound_keyCount hs)
    cases round with
    | failed =>
      cases h
      exact hset
    | waiting =>
      cases h
      exact hset
    | bulk =>
      obtain ⟨⟨d, used⟩, htake, h⟩ := Option.bind_eq_some_iff.mp h
      have hd := hset.trans (takeBulk_sameKeys htake)
      dsimp only at h
      split at h
      · cases h
        exact hd
      · exact hd.trans (ih h)

theorem parseReply_sameKeys (h : c.parseReply b = some (c', ok)) : SameKeys c c' := by
  unfold parseReply at h
  dsimp only at h
  split at h
  · obtain ⟨rfl, -⟩ := Prod.mk.inj (Option.some.inj h)
    split
    · exact setBackend_sameKeys _
    · exact .refl _
  · exact parseReplyLoop_sameKeys _ h

theorem afterParse_sameKeys {result : Option (RedisMgetCommand ε × Bool)} (hx : SameKeys c x.cmd)
    (h : ∀ d ok, result = some (d, ok) → SameKeys x.cmd d) :
    SameKeys c (afterParse b x result).cmd := by
  rcases result with _ | ⟨d, ok⟩
  · exact hx
  have hd := hx.trans (h d ok rfl)
  simp only [afterParse]
  split
  · exact hd
  split
  · exact hd.trans (setBackend_sameKeys _)
  · exact (hd.trans (setBackend_sameKeys _)).trans (.of_eq rfl rfl)

theorem backendReadyToReply_sameKeys (hx : SameKeys c x.cmd) :
    SameKeys c (backendReadyToReply b x).cmd := by
  unfold backendReadyToReply
  split
  · exact hx
  split
  · exact hx
  split
  · exact hx
  split
  · exact hx
  · exact afterParse_sameKeys (hx.trans (.of_eq rfl rfl)) fun _ _ h => parseReply_sameKeys h

theorem nextBackendStartReply_sameKeys (hx : SameKeys c x.cmd) :
    SameKeys c (nextBackendStartReply x).cmd := by
  unfold nextBackendStartReply
  split
  · exact hx
  split
  · exact hx
  split
  · exact backendReadyToReply_sameKeys hx
  · exact hx

theorem popRun_sameKeys : SameKeys c c.popRun := by
  unfold popRun
  split
  · exact .of_eq rfl rfl
  · exact .refl _

theorem onWriteReplyFinished_sameKeys {backend : Option ℕ} {ec : ErrorCode}
    (hx : SameKeys c x.cmd) : SameKeys c (onWriteReplyFinished backend ec x).cmd := by
  unfold onWriteReplyFinished
  split
  · exact hx
  split
  · exact nextBackendStartReply_sameKeys (hx.trans (.of_eq rfl rfl))
  next b =>
    have hdone : SameKeys c (x.cmd.writeDone b) :=
      (hx.trans (setBackend_sameKeys _)).trans (.of_eq rfl rfl)
    split
    · exact hx
    dsimp only
    split
    · exact hdone
    split
    · unfold rotateReplyingBackend
      split
      · exact hdone.trans popRun_sameKeys
      · exact nextBackendStartReply_sameKeys (hdone.trans popRun_sameKeys)
    · exact hdone.trans (setBackend_sameKeys _)

theorem onBackendRecoverableError_sameKeys (hx : SameKeys c x.cmd) :
    SameKeys c (onBackendRecoverableError b x).cmd :=
  backendReadyToReply_sameKeys (hx.trans (setBackend_sameKeys _))

theorem onBackendReplyReceived_sameKeys {ec : ErrorCode} (hx : SameKeys c x.cmd) :
    SameKeys c (onBackendReplyReceived b ec x).cmd := by
  unfold onBackendReplyReceived
  split
  · split
    · exact hx
    · exact onBackendRecoverableError_sameKeys hx
  · exact backendReadyToReply_sameKeys hx

theorem onWriteQueryFinished_sameKeys {ec : ErrorCode} (hx : SameKeys c x.cmd) :
    SameKeys c (onWriteQueryFinished b ec x).cmd := by
  unfold onWriteQueryFinished
  split
  · split
    · exact onBackendRecoverableError_sameKeys hx
    · exact hx
  · dsimp only
    split
    · exact hx.trans (setSubquery_sameKeys rfl)
    · exact hx.trans (setSubquery_sameKeys rfl)

theorem onBackend_sameKeys {e : BackendEvent} (hx : SameKeys c x.cmd) :
    SameKeys c (handlers.onBackend b e x).cmd :=
  Handlers.onBackend_rule (P := fun y : Ctx (RedisMgetCommand ε) => SameKeys c y.cmd)
    (fun _ _ hy => hy.trans (setBackend_sameKeys _))
    (fun _ _ hy => onWriteQueryFinished_sameKeys hy)
      (fun _ _ hy => onBackendReplyReceived_sameKeys hy) hx

theorem foldl_writePrefix_sameKeys (bs : List ℕ) : ∀ d : RedisMgetCommand ε, SameKeys c d →
    SameKeys c (bs.foldl writePrefix d) := by
  induction bs with
  | nil => exact fun _ hd => hd
  | cons b bs ih => exact fun d hd => ih _ (hd.trans (setSubquery_sameKeys rfl))

theorem startWriteQuery_sameKeys (hx : SameKeys c x.cmd) :
    SameKeys c (startWriteQuery x).1.cmd := by
  have hfold := foldl_writePrefix_sameKeys (List.range x.cmd.count) x.cmd hx
  unfold startWriteQuery
  dsimp only
  split
  · exact hfold
  · exact hfold

end Handlers

section Run
variable {c : RedisMgetCommand ε} {w : World (RedisMgetCommand ε)}

theorem run_sameKeys {buf : ReadBuffer} {f : Ctx (RedisMgetCommand ε) → Ctx (RedisMgetCommand ε)}
    (h : SameKeys c (f ⟨buf, w.first, w.cmd, []⟩).cmd) : SameKeys c (w.run handlers buf f).cmd := by
  unfold World.run
  dsimp only
  rwa [foldl_apply_cmd]

theorem next_sameKeys (hw : SameKeys c w.cmd) (e : World.Event) :
    SameKeys c (w.next handlers e).cmd := by
  cases e with
  | start buf => exact run_sameKeys (startWriteQuery_sameKeys hw)
  | parse buf => exact run_sameKeys hw
  | continue_ buf => exact run_sameKeys hw
  | process buf => exact run_sameKeys hw
  | becomeFirst buf => exact run_sameKeys hw
  | backend buf b e => exact run_sameKeys (onBackend_sameKeys hw)
  | writeDone buf =>
    unfold World.next
    dsimp only
    split
    · exact hw
    · exact run_sameKeys (onWriteReplyFinished_sameKeys hw)
  | writeFailed buf =>
    unfold World.next
    dsimp only
    split
    · exact hw
    · exact run_sameKeys (onWriteReplyFinished_sameKeys hw)

/-- Every state of every run, whatever the backends send. -/
theorem reachable_sameKeys {A : World.Answers (RedisMgetCommand ε)} {cmd : RedisMgetCommand ε}
    {first : Bool} (h : Transition.Execution (World.system handlers A) Transition.Unrestricted
      (World.init cmd first) w) : SameKeys cmd w.cmd :=
  h.invariant (I := fun w => SameKeys cmd w.cmd) (.refl _) fun _ e ih _ _ => next_sameKeys ih e

end Run

section Grouping
variable [DecidableEq ε] {locate : Bytes → ε} {pool : Pool} {keys : List Bytes} {key : Bytes}
  {c c' : RedisMgetCommand ε}

/-- There is one subquery for each endpoint of a key, and it counts the keys located there. -/
structure Grouped (locate : Bytes → ε) (keys : List Bytes) (c : RedisMgetCommand ε) : Prop where
  distinct : ∀ i < c.count, ∀ j < c.count,
    (c.backend i).remoteEndpoint = (c.backend j).remoteEndpoint → i = j
  located : ∀ key ∈ keys, ∃ b < c.count, (c.backend b).remoteEndpoint = locate key
  nonempty : ∀ b < c.count, 0 < (c.subquery b).keyCount
  keyCount : ∀ b < c.count, (c.subquery b).keyCount =
    keys.countP fun key => locate key = (c.backend b).remoteEndpoint

/-- One more key, for subquery `b`, which is the only one at its endpoint. -/
theorem Grouped.push {b : ℕ} (h : Grouped locate keys c) (hle : c.count ≤ c'.count)
    (hb : b < c'.count) (hcount : ∀ i < c'.count, i ≠ b → i < c.count)
    (hother : ∀ i, i ≠ b → c'.subquery i = c.subquery i)
    (hfree : ∀ i < c.count, i ≠ b → (c.backend i).remoteEndpoint ≠ locate key)
    (hold : b < c.count → (c.backend b).remoteEndpoint = locate key)
    (hep : (c'.backend b).remoteEndpoint = locate key)
    (hkeys : (c'.subquery b).keyCount = keys.countP (fun k => locate k = locate key) + 1) :
    Grouped locate (keys ++ [key]) c' := by
  have hbackend : ∀ i, i ≠ b → c'.backend i = c.backend i := fun i hi => by
    rw [backend, backend, hother i hi]
  have hne : ∀ i < c'.count, i ≠ b → (c'.backend i).remoteEndpoint ≠ locate key := by
    intro i hi hib
    rw [hbackend i hib]
    exact hfree i (hcount i hi hib) hib
  refine ⟨fun i hi j hj heq => ?_, fun k hk => ?_, fun i hi => ?_, fun i hi => ?_⟩
  · by_cases hib : i = b <;> by_cases hjb : j = b
    · rw [hib, hjb]
    · rw [hib, hep] at heq
      exact absurd heq.symm (hne j hj hjb)
    · rw [hjb, hep] at heq
      exact absurd heq (hne i hi hib)
    · rw [hbackend i hib, hbackend j hjb] at heq
      exact h.distinct i (hcount i hi hib) j (hcount j hj hjb) heq
  · rcases List.mem_append.mp hk with hk | hk
    · obtain ⟨i, hi, heq⟩ := h.located k hk
      by_cases hib : i = b
      · exact ⟨b, hb, by rw [hep, ← heq, hib, hold (hib ▸ hi)]⟩
      · exact ⟨i, by omega, by rw [hbackend i hib, heq]⟩
    · cases List.mem_singleton.mp hk
      exact ⟨b, hb, hep⟩
  · by_cases hib : i = b
    · rw [hib, hkeys]
      exact Nat.succ_pos _
    · rw [hother i hib]
      exact h.nonempty i (hcount i hi hib)
  · rw [List.countP_append, List.countP_singleton]
    by_cases hib : i = b
    · rw [hib, hep, hkeys]
      simp
    · rw [hother i hib, hbackend i hib, h.keyCount i (hcount i hi hib)]
      have := hfree i (hcount i hi hib) hib
      simp [Ne.symm this]

theorem pushKey_grouped {s s' : Building ε} {bulk : Bulk} (hs : Grouped locate keys s.cmd)
    (hkey : bulk.payload = some key) (h : pushKey locate pool s bulk = some s') :
    Grouped locate (keys ++ [key]) s'.cmd := by
  unfold pushKey at h
  rw [hkey, Option.bind_eq_bind, Option.bind_some] at h
  dsimp only at h
  cases hfind : (List.range s.cmd.count).find? fun b =>
      (s.cmd.backend b).remoteEndpoint = locate key with
  | some b =>
    rw [hfind] at h
    obtain ⟨total, -, h⟩ := Option.bind_eq_some_iff.mp h
    obtain ⟨segments, -, h⟩ := Option.bind_eq_some_iff.mp h
    obtain rfl := Option.some.inj h
    have hep : (s.cmd.backend b).remoteEndpoint = locate key := by
      simpa using List.find?_some hfind
    have hb : b < s.cmd.count := List.mem_range.mp (List.mem_of_find?_eq_some hfind)
    refine hs.push (b := b) le_rfl hb (fun i hi _ => hi) (fun i hi => ?_) (fun i hi hib heq => ?_)
      (fun _ => hep) ?_ ?_
    · exact Function.update_of_ne hi ..
    · exact hib (hs.distinct i hi b hb (heq.trans hep.symm))
    · simpa [backend, setSubquery] using hep
    · simpa [setSubquery, ← hep] using hs.keyCount b hb
  | none =>
    rw [hfind] at h
    obtain ⟨total, -, h⟩ := Option.bind_eq_some_iff.mp h
    obtain ⟨segments, -, h⟩ := Option.bind_eq_some_iff.mp h
    obtain rfl := Option.some.inj h
    have hnone : ∀ i < s.cmd.count, (s.cmd.backend i).remoteEndpoint ≠ locate key := by
      intro i hi heq
      have := List.find?_eq_none.mp hfind i (List.mem_range.mpr hi)
      simp [heq] at this
    have hzero : keys.countP (fun k => locate k = locate key) = 0 := by
      rw [List.countP_eq_zero]
      intro k hk heq
      obtain ⟨i, hi, hep⟩ := hs.located k hk
      exact hnone i hi (hep.trans (by simpa using heq))
    refine hs.push (b := s.cmd.count) (Nat.le_succ _) (Nat.lt_succ_self _) (fun i hi hib => ?_)
      (fun i hi => ?_) (fun i hi _ => hnone i hi) (fun hlt => absurd hlt (Nat.lt_irrefl _)) ?_ ?_
    · simp only [setSubquery] at hi
      omega
    · simp [setSubquery, Function.update_of_ne hi]
    · simp [backend, setSubquery, Pool.allocate, BackendConn.allocated]
    · simp [setSubquery, hzero]

theorem foldlM_pushKey_grouped (bulks : List Bulk) : ∀ {keys more : List Bytes} {s s' : Building ε},
    Grouped locate keys s.cmd → bulks.map Bulk.payload = more.map some →
    bulks.foldlM (pushKey locate pool) s = some s' → Grouped locate (keys ++ more) s'.cmd := by
  induction bulks with
  | nil =>
    intro keys more s s' hs hm h
    obtain rfl := List.map_eq_nil_iff.mp hm.symm
    obtain rfl := Option.some.inj h
    rwa [List.append_nil]
  | cons bulk bulks ih =>
    intro keys more s s' hs hm h
    obtain ⟨key, more, rfl, hkey, hm⟩ := List.map_eq_cons_iff.mp hm.symm
    rw [List.foldlM_cons] at h
    obtain ⟨t, ht, h⟩ := Option.bind_eq_some_iff.mp h
    have := ih (pushKey_grouped hs hkey.symm ht) hm.symm h
    rwa [List.append_assoc] at this

end Grouping

end RedisMgetCommand

theorem WholeArray.payloads {strs : List Bytes} {ba : BulkArray}
    (h : WholeArray (strs.map some) ba) (hs : (encodeStrings strs).length < 2 ^ 31) :
    ba.items.map Bulk.payload = strs.map some := by
  refine Lists.map_eq_map_of_getElem? (h.presentBulks.trans (List.length_map _))
    fun i v bulk hb hv => ?_
  have hit : (strs.map some)[i]? = some (some v) := by
    rw [List.getElem?_map, hv]
    rfl
  exact ((h.bulk i _ bulk hb hit).payload
    (itemSize_lt_of_small hs _ (List.mem_of_getElem? hit))).1

namespace RedisMgetCommand
variable [DecidableEq ε] [Inhabited ε] {locate : Bytes → ε} {pool : Pool}
  {buffer buffer' : ReadBuffer} {verb : Bytes} {keys : List Bytes} {ba : BulkArray}
  {c : RedisMgetCommand ε}

theorem new_grouped (hba : WholeArray ((verb :: keys).map some) ba)
    (hs : (encodeStrings (verb :: keys)).length < 2 ^ 31)
    (h : new locate pool buffer ba = some (buffer', c)) : Grouped locate keys c := by
  unfold new at h
  obtain ⟨bulks, hb, h⟩ := Option.bind_eq_some_iff.mp h
  obtain ⟨s, hs', h⟩ := Option.bind_eq_some_iff.mp h
  obtain ⟨-, rfl⟩ := Prod.mk.inj (Option.some.inj h)
  have hitems : ba.items.map Bulk.payload = some verb :: keys.map some := hba.payloads hs
  obtain ⟨first, rest, hcons, -, hrest⟩ := List.map_eq_cons_iff.mp hitems
  have htotal : ba.totalBulks - 1 = rest.length := by
    have := congrArg List.length hrest
    rw [hba.totalBulks]
    simp only [List.length_map, List.length_cons, Nat.add_sub_cancel] at this ⊢
    exact this.symm
  have hbulks : bulks = rest := by
    rw [Lists.mapM_getElem? _ hb, hcons, htotal]
    simp
  have hgroup : Grouped locate ([] ++ keys) s.cmd := by
    refine foldlM_pushKey_grouped bulks ⟨?_, ?_, ?_, ?_⟩ (hbulks ▸ hrest) hs'
    · exact fun i hi => absurd hi (Nat.not_lt_zero i)
    · exact fun key hkey => absurd hkey List.not_mem_nil
    · exact fun i hi => absurd hi (Nat.not_lt_zero i)
    · exact fun i hi => absurd hi (Nat.not_lt_zero i)
  exact hgroup

end RedisMgetCommand

theorem length_errorReplyBody (n : ℕ) :
    (RedisMgetCommand.errorReplyBody n).length = (dec n).length + 3 + 5 * n := by
  rw [RedisMgetCommand.errorReplyBody_eq, encodeArray, List.length_append, List.length_replicate,
    length_serializePrefix]
  congr 1
  induction n with
  | zero => rfl
  | succ n ih =>
    rw [List.replicate_succ, length_encodeItems_cons, ih, itemSize_none]
    omega

theorem six_mul_le_encodeItems (strs : List Bytes) :
    6 * strs.length ≤ (encodeItems (strs.map some)).length := by
  induction strs with
  | nil => exact Nat.zero_le _
  | cons v strs ih =>
    have := four_le_headerSize (some v)
    rw [List.map_cons, length_encodeItems_cons, itemSize_some, List.length_cons]
    omega

/-- Nils for some of the keys are shorter than the request. -/
theorem errorReplyBody_le {n : ℕ} {verb : Bytes} {keys : List Bytes} (h : n ≤ keys.length) :
    (RedisMgetCommand.errorReplyBody n).length ≤ (encodeStrings (verb :: keys)).length := by
  have hdec : (dec n).length ≤ n + 1 := by
    refine length_dec_le (Nat.succ_pos n) ?_
    exact Nat.lt_of_succ_lt (Nat.lt_pow_self (by decide))
  have hprefix := four_le_serializePrefix (verb :: keys).length
  have hitems := six_mul_le_encodeItems (verb :: keys)
  rw [length_errorReplyBody, length_encodeStrings]
  simp only [List.length_cons] at hprefix hitems ⊢
  omega

/-- What `SetReplyData` makes of the reply for `keyCount` keys in a buffer of `bufferSize` bytes:
it stays inside, and the parser finds the nils again. -/
structure NilReply (ε : Type) (bufferSize keyCount : ℕ) : Prop where
  fits : (RedisMgetCommand.errorReplyBody keyCount).length ≤ bufferSize
  inside : ∀ k : BackendConn ε, k.buffer.data.length = bufferSize →
    (k.setReplyData (RedisMgetCommand.errorReplyBody keyCount) false).buffer.data.length =
      bufferSize
  parsed : ∀ k : BackendConn ε, k.buffer.data.length = bufferSize →
    ∃ ba, BulkArray.parse
        (k.setReplyData (RedisMgetCommand.errorReplyBody keyCount) false).buffer.unparsedData
        (k.setReplyData (RedisMgetCommand.errorReplyBody keyCount) false).buffer.unparsedBytes =
          some ba ∧
      ba.completed = some true ∧ ba.totalBulks = keyCount ∧ ba.presentBulks = keyCount ∧
      ba.parsedSize = (RedisMgetCommand.errorReplyBody keyCount).length ∧
      ∀ bulk ∈ ba.items, bulk.rawData.bytes 5 = ascii "$-1\r\n" ∧ bulk.completed = some true

theorem nilReply {bufferSize keyCount : ℕ} (hpos : 0 < keyCount)
    (hb : bufferSize < 2 ^ 31)
    (hfits : (RedisMgetCommand.errorReplyBody keyCount).length ≤ bufferSize) :
    NilReply ε bufferSize keyCount := by
  have hadd : addSize 0 (RedisMgetCommand.errorReplyBody keyCount).length =
      (RedisMgetCommand.errorReplyBody keyCount).length := by
    rw [addSize_eq (by omega), Nat.zero_add]
  refine ⟨hfits, fun k hk => ?_, fun k hk => ?_⟩
  · simp only [BackendConn.setReplyData, ReadBuffer.pushReplyData, ReadBuffer.reset,
      List.length_append, List.length_drop, hk]
    omega
  have hne : List.replicate keyCount (none : Item) ≠ [] := by
    intro hnil
    have := congrArg List.length hnil
    rw [List.length_replicate, List.length_nil] at this
    omega
  have hlen : (List.replicate keyCount (none : Item)).length = keyCount := List.length_replicate
  have hbody := RedisMgetCommand.errorReplyBody_eq keyCount
  have hbytes :
      (k.setReplyData (RedisMgetCommand.errorReplyBody keyCount) false).buffer.unparsedBytes =
      (RedisMgetCommand.errorReplyBody keyCount).length := hadd
  have hrest :
      (k.setReplyData (RedisMgetCommand.errorReplyBody keyCount) false).buffer.unparsedData.rest
      = RedisMgetCommand.errorReplyBody keyCount ++
        k.buffer.data.drop (RedisMgetCommand.errorReplyBody keyCount).length := rfl
  rw [hbytes]
  obtain ⟨ba, hparse, hba⟩ : ∃ ba, BulkArray.parse
      (k.setReplyData (RedisMgetCommand.errorReplyBody keyCount) false).buffer.unparsedData
      (RedisMgetCommand.errorReplyBody keyCount).length = some ba ∧
      WholeArray (List.replicate keyCount none) ba := by
    refine wholeArray hne ?_ ?_ ?_
    · rw [← hbody]
      omega
    · rw [hrest, List.length_append]
      exact Nat.le_add_right _ _
    · refine ⟨[], ?_⟩
      rw [List.append_nil, Ptr.bytes, hrest, List.take_left, ← hbody]
  refine ⟨ba, hparse, hba.completed, hba.totalBulks.trans hlen, hba.presentBulks.trans hlen,
    hba.parsedSize.trans (by rw [hbody]), fun bulk hmem => ?_⟩
  obtain ⟨i, hi⟩ := List.getElem?_of_mem hmem
  have hlt : i < keyCount := by
    have := (List.getElem?_eq_some_iff.mp hi).1
    have hp := hba.presentBulks
    rw [BulkArray.presentBulks, hlen] at hp
    omega
  obtain ⟨tail, htail⟩ := (hba.bulk i none bulk hi (by simp [hlt])).nil_rest
  refine ⟨?_, (hba.bulkCompleted i bulk hi).2⟩
  rw [Ptr.bytes, htail]
  rfl

namespace RedisMgetCommand
variable [DecidableEq ε] [Inhabited ε]

/-- A complete `MGET` that fits a client buffer: at every moment of every run, the nil reply for
any of the subqueries fits a backend buffer of the same size and is parsed as the nils of the keys
located at its endpoint. -/
theorem nilReply_fits {bufferSize size : ℕ} {verb : Bytes} {keys : List Bytes} {buf : Ptr}
    (h : CompleteRequest bufferSize ((verb :: keys).map some) buf size)
    (hv : redisCommandTypeOf verb = .mget) :
    ∃ ba, createCommand bufferSize buf size =
        some ((encodeStrings (verb :: keys)).length, some (.redisMget ba)) ∧
      ∀ (locate : Bytes → ε) (pool : Pool) (buffer buffer' : ReadBuffer) (c : RedisMgetCommand ε)
        (first : Bool) (A : World.Answers (RedisMgetCommand ε)) (w : World (RedisMgetCommand ε)),
        new locate pool buffer ba = some (buffer', c) →
        Transition.Execution (World.system handlers A) Transition.Unrestricted
          (World.init c first) w →
        ∀ b < w.cmd.count,
          (w.cmd.subquery b).keyCount =
            keys.countP (fun key => locate key = (c.backend b).remoteEndpoint) ∧
          NilReply ε bufferSize (w.cmd.subquery b).keyCount := by
  obtain ⟨ba, bulk, tail, hba, -, -, hcreate⟩ := h.createCommand_eq
  rw [show verbOf ((verb :: keys).map some) = .mget from hv,
    (createRedisCommand_whole bulk size hba).2.1] at hcreate
  refine ⟨ba, hcreate, fun locate pool buffer buffer' c first A w hnew hw b hb => ?_⟩
  have hgroup := new_grouped hba h.small hnew
  have hsame := reachable_sameKeys hw
  rw [hsame.count] at hb
  rw [hsame.keyCount]
  have hcount := hgroup.keyCount b hb
  refine ⟨hcount, nilReply (hgroup.nonempty b hb) ?_ ?_⟩
  · have := h.accepted.bounds
    omega
  · have hle : (c.subquery b).keyCount ≤ keys.length := hcount ▸ List.countP_le_length
    have hwhole := h.whole.length_le
    have hfits := h.fits
    rw [Ptr.bytes, List.length_take] at hwhole
    have hbody : (errorReplyBody (c.subquery b).keyCount).length ≤
        (encodeStrings (verb :: keys)).length := errorReplyBody_le hle
    rw [encodeStrings] at hbody
    omega

/-- `MGET` of two keys. -/
def twoKeys : Ptr := ⟨encodeStrings [ascii "mget", ascii "a", ascii "b"], 0⟩

def twoKeysArray : BulkArray :=
  ⟨twoKeys, 28, [⟨⟨twoKeys.mem, 4⟩, 10⟩, ⟨⟨twoKeys.mem, 14⟩, 7⟩, ⟨⟨twoKeys.mem, 21⟩, 7⟩]⟩

theorem twoKeys_nilReply :
    createCommand 1024 twoKeys 28 = some (28, some (.redisMget twoKeysArray)) ∧
    ∃ buffer c, new (fun _ => 1) (fun _ => ([], true)) (.new []) twoKeysArray = some (buffer, c) ∧
      c.count = 1 ∧ (c.subquery 0).keyCount = 2 ∧ NilReply ℕ 1024 2 := by
  have hrequest : CompleteRequest 1024 ([ascii "mget", ascii "a", ascii "b"].map some) twoKeys 28 :=
    ⟨⟨0, by decide, rfl⟩, by decide, by decide, by decide, by decide⟩
  have hcreate : createCommand 1024 twoKeys 28 = some (28, some (.redisMget twoKeysArray)) := by
    decide +kernel
  have hcounts : (new (fun _ => 1) (fun _ => ([], true)) (.new []) twoKeysArray).map
      (fun r => (r.2.count, (r.2.subquery 0).keyCount)) = some (1, 2) := by decide +kernel
  obtain ⟨⟨buffer, c⟩, hnew, hcount⟩ := Option.map_eq_some_iff.mp hcounts
  obtain ⟨hone, htwo⟩ : c.count = 1 ∧ (c.subquery 0).keyCount = 2 := Prod.mk.inj hcount
  obtain ⟨ba, hba, hfits⟩ := nilReply_fits (ε := ℕ) hrequest (by decide)
  cases hcreate.symm.trans hba
  have hreply := hfits _ _ _ _ c true (fun _ _ _ => True) _ hnew .refl 0
    (show 0 < c.count by omega)
  exact ⟨hcreate, buffer, c, hnew, hone, htwo, htwo ▸ hreply.2⟩

end RedisMgetCommand
end Yarmproxy
