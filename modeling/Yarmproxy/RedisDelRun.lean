import Yarmproxy.RedisDelReply

/-! # Runs of a Redis `DEL`

The request may arrive in any pieces. Whatever the order in which the backends answer, the client
is told one number: how many of the keys are held at the places where they are located. -/
namespace Yarmproxy
namespace RedisDelCommand

variable {ε : Type} {held : ε → Bytes → Bool} {locate : Bytes → ε} {pool : Pool}
  {verb : Bytes} {keys : List Bytes} {buf : Ptr} {size n bufferSize : ℕ} {ba : BulkArray}

theorem createRedisCommand_del {ba' : BulkArray} {bulk : Bulk} {t : RedisCommandType}
    (h : createRedisCommand ba' bulk size t = some (n, some (.redisDel ba))) :
    ba' = ba ∧ 2 ≤ ba.presentBulks ∧ ∃ key, ba.items[1]? = some key ∧
      key.completed = some true := by
  cases t with
  | basic | mget | yarmstats =>
    simp only [createRedisCommand, Option.bind_eq_bind, Option.bind_eq_some_iff] at h
    obtain ⟨done, -, h⟩ := h
    split at h
    · cases h
    · obtain ⟨total, -, h⟩ := Option.bind_eq_some_iff.mp h
      cases h
  | set =>
    simp only [createRedisCommand] at h
    split at h
    · cases h
    simp only [Option.bind_eq_bind, Option.bind_eq_some_iff] at h
    obtain ⟨key, -, done, -, h⟩ := h
    split at h
    · cases h
    · cases (Prod.mk.inj (Option.some.inj h)).2
  | mset =>
    simp only [createRedisCommand] at h
    split at h
    · cases h
    split at h
    · simp only [Option.bind_eq_bind, Option.bind_eq_some_iff] at h
      obtain ⟨k, -, h⟩ := h
      cases (Prod.mk.inj (Option.some.inj h)).2
    · cases (Prod.mk.inj (Option.some.inj h)).2
  | unsupported =>
    simp only [createRedisCommand, Option.bind_eq_bind, Option.bind_eq_some_iff] at h
    obtain ⟨text, -, h⟩ := h
    cases h
  | del =>
    simp only [createRedisCommand] at h
    split at h
    · cases h
    next hp =>
    simp only [Option.bind_eq_bind, Option.bind_eq_some_iff] at h
    obtain ⟨key, hkey, done, hdone, h⟩ := h
    split at h
    · cases h
    next hd =>
    have hd : done = true := by simpa using hd
    subst hd
    obtain ⟨back, -, h⟩ := Option.bind_eq_some_iff.mp h
    obtain ⟨done', -, h⟩ := Option.bind_eq_some_iff.mp h
    have hba : ba' = ba := by
      split at h
      · exact Created.redisDel.inj (Option.some.inj (Prod.mk.inj (Option.some.inj h)).2)
      · obtain ⟨k, -, h⟩ := Option.bind_eq_some_iff.mp h
        exact Created.redisDel.inj (Option.some.inj (Prod.mk.inj (Option.some.inj h)).2)
    subst hba
    exact ⟨rfl, by omega, key, hkey, hdone⟩

theorem createCommand_del {its : List Item} (h : Begun its buf size)
    (hc : createCommand bufferSize buf size = some (n, some (.redisDel ba))) :
    ba = BulkArray.parsedArray buf its size ∧ 2 ≤ ba.presentBulks ∧
      (∀ verb, ba.items[0]? = some verb → verb.absentSize = some 0) ∧
      ∃ key, ba.items[1]? = some key ∧ key.completed = some true := by
  have hredis : createRedis buf size = some (n, some (.redisDel ba)) := by
    unfold createCommand at hc
    split at hc
    · split at hc
      · cases hc
      · cases hc
    split at hc
    next => exact hc
    next => exact absurd rfl ((createMemc_not_split hc).2 ba)
  rw [h.createRedis_eq, switchOn] at hredis
  cases hi : (BulkArray.parsedArray buf its size).items with
  | nil =>
    rw [hi] at hredis
    cases hredis
  | cons bulk tail =>
    rw [hi] at hredis
    dsimp only at hredis
    split at hredis
    next h0 =>
      obtain ⟨hba, hp, hkey⟩ := createRedisCommand_del hredis
      refine ⟨hba.symm, hp, fun verb hverb => ?_, hkey⟩
      rw [← hba, hi] at hverb
      exact Option.some.inj hverb ▸ h0
    next => cases hredis

theorem items_whole (h : Begun ((verb :: keys).map some) buf size) {m : ℕ}
    (hm : (serializePrefix (keys.length + 1)).length + itemStart ((verb :: keys).map some) (m + 1) ≤
      size) :
    ∃ off, (BulkArray.parsedArray buf ((verb :: keys).map some) size).items.take (m + 1) =
        wholeItems buf.mem off (some verb :: (keys.take m).map some) ∧
      HoldsItems buf.mem off (some verb :: (keys.take m).map some) := by
  have hlen : ((verb :: keys).map some).length = keys.length + 1 := by simp
  have htake : ((verb :: keys).map some).take (m + 1) = some verb :: (keys.take m).map some := by
    rw [List.map_cons, List.take_succ_cons, List.map_take]
  obtain ⟨rest, hcontent⟩ := h.items_content
  rw [hlen] at hcontent
  have hstart : itemStart ((verb :: keys).map some) (m + 1) ≤
      size - (serializePrefix (keys.length + 1)).length := by omega
  have hmem := HoldsItems.of_take hcontent hstart
  rw [htake] at hmem
  refine ⟨_, ?_, hmem⟩
  rw [BulkArray.items_parsedArray, hlen, presentItems_take _ hstart, htake]

theorem arrived_keys (h : Begun ((verb :: keys).map some) buf size)
    (hba : ba = BulkArray.parsedArray buf ((verb :: keys).map some) size) (hp : 2 ≤ ba.presentBulks)
    (hkey : ∃ key, ba.items[1]? = some key ∧ key.completed = some true) :
    ∃ back done m off, (ba.items.drop 1).getLast? = some back ∧ back.completed = some done ∧
      0 < m ∧ m ≤ keys.length ∧ HoldsItems buf.mem off (some verb :: (keys.take m).map some) ∧
      ba.items.head? = some ⟨⟨buf.mem, off⟩, itemSize (some verb)⟩ ∧
      (if done then ba.items.drop 1 else (ba.items.drop 1).dropLast) =
        wholeItems buf.mem (off + itemSize (some verb)) ((keys.take m).map some) ∧
      (if done then ba.absentBulks else addSize ba.absentBulks 1) = keys.length - m := by
  have hlen : ((verb :: keys).map some).length = keys.length + 1 := by simp
  have htotal := h.totalBulks
  have hsmall := length_lt_of_small h.small
  rw [hlen] at htotal hsmall
  have hmost : ba.items.length ≤ keys.length + 1 := by
    rw [hba, BulkArray.items_parsedArray, ← hlen]
    exact length_presentItems_le _ _ _
  have habsent : ba.absentBulks = keys.length + 1 - ba.items.length := by
    rw [BulkArray.absentBulks, BulkArray.presentBulks, hba, htotal,
      subSize_eq (hba ▸ hmost) (by omega)]
  rw [BulkArray.presentBulks] at hp
  obtain ⟨back, hback⟩ : ∃ back, ba.items.getLast? = some back := by
    rw [List.getLast?_eq_getElem?]
    exact ⟨_, List.getElem?_eq_getElem (by omega)⟩
  obtain ⟨i, it, hi, hget, -, -, hstart⟩ := h.back (hba ▸ hback)
  have hdone := h.bulk_completed hget
  rw [BulkArray.presentBulks, ← hba] at hi
  rw [hlen] at hstart hdone
  -- the bulks up to `m`, that of the verb apart
  have hwhole : ∀ m, 0 < m → (serializePrefix (keys.length + 1)).length +
      itemStart ((verb :: keys).map some) (m + 1) ≤ size → ∃ off,
        HoldsItems buf.mem off (some verb :: (keys.take m).map some) ∧
        ba.items.head? = some ⟨⟨buf.mem, off⟩, itemSize (some verb)⟩ ∧
        (ba.items.take (m + 1)).drop 1 =
          wholeItems buf.mem (off + itemSize (some verb)) ((keys.take m).map some) := by
    intro m hm hle
    obtain ⟨off, htake, hmem⟩ := items_whole h hle
    rw [← hba] at htake
    refine ⟨off, hmem, ?_, ?_⟩
    · have hhead := congrArg List.head? htake
      rwa [List.head?_take, if_neg (by omega), wholeItems, List.head?_cons] at hhead
    · rw [htake, wholeItems, List.drop_one, List.tail_cons]
  have hlast : (ba.items.drop 1).getLast? = some back := by
    rw [List.getLast?_drop, if_neg (by omega), hback]
  by_cases hend : (serializePrefix (keys.length + 1)).length + itemStart ((verb :: keys).map some)
    (i + 1) ≤ size
  · obtain ⟨off, hmem, hhead, hdrop⟩ := hwhole i (by omega) hend
    refine ⟨back, true, i, off, hlast, ?_, by omega, by omega, hmem, hhead, ?_, ?_⟩
    · rw [hdone, decide_eq_true hend]
    · rw [if_pos rfl, ← hdrop, ← hi, List.take_length]
    · rw [if_pos rfl, habsent]
      omega
  · have hone : i ≠ 1 := by
      rintro rfl
      obtain ⟨key, hkey, hcompleted⟩ := hkey
      rw [← hba] at hget
      cases hget.symm.trans hkey
      rw [hdone, decide_eq_false hend] at hcompleted
      cases hcompleted
    obtain ⟨j, rfl⟩ : ∃ j, i = j + 1 := ⟨i - 1, by omega⟩
    obtain ⟨off, hmem, hhead, hdrop⟩ := hwhole j (by omega) hstart
    refine ⟨back, false, j, off, hlast, ?_, by omega, by omega, hmem, hhead, ?_, ?_⟩
    · rw [hdone, decide_eq_false hend]
    · rw [if_neg (by simp), ← hdrop, List.dropLast_eq_take, List.length_drop, List.drop_take, hi]
      rfl
    · rw [if_neg (by simp), habsent, addSize_eq (by omega)]
      omega

theorem Split.take {taken : List Bytes} {m : ℕ} (h : Split keys taken m) :
    keys.take (keys.length - m) = taken := by
  obtain ⟨rest, rfl, hrest⟩ := h
  rw [List.length_append, hrest, Nat.add_sub_cancel, List.take_left]

theorem Slot.whole {name : Bytes} {q : DelSubquery ε} (h : Slot name keys q)
    (hq : q.backend.query = none) :
    q.backend.sent = encodeStrings (name :: keys) :=
  h.sent.2 (h.busy.resolve_left (· hq))

/-- The keys of `share b` are located at backend `b`, which is asked for them and for nothing else.
-/
structure SharedOut (locate : Bytes → ε) (name : Bytes) (taken : List Bytes)
    (share : ℕ → List Bytes) (c : RedisDelCommand ε) : Prop where
  partition : ((List.range c.count).flatMap share).Perm taken
  located : ∀ b < c.count, ∀ key ∈ share b, locate key = (c.backend b).remoteEndpoint
  sent : ∀ b < c.count, (c.backend b).sent <+: encodeStrings (name :: share b)
  whole : ∀ b < c.count, (c.backend b).noRecycle = false → (c.backend b).query = none →
    (c.backend b).sent = encodeStrings (name :: share b)

theorem Last.sharedOut {name : Bytes} {share : ℕ → List Bytes} {i : ℕ} {c : RedisDelCommand ε}
    (h : Last held locate name keys share i c) :
    SharedOut locate name (keys.take (keys.length - c.unparsedBulks)) share c := by
  have hmem : ∀ b < c.count, b ∈ c.released ++ [i] :=
    fun b hb => h.accounted.mem_iff.mpr (List.mem_range.mpr hb)
  refine ⟨?_, h.ledger.located, fun b hb => (h.ledger.asked b (hmem b hb)).1,
    fun b hb he _ => (h.ledger.asked b (hmem b hb)).2 he⟩
  rw [h.parsed, Nat.sub_zero, List.take_length]
  exact h.ledger.shares

theorem Stands.sharedOut {name out : Bytes} {writing : Option (Option ℕ)} {first : Bool}
    {c : RedisDelCommand ε} (h : Stands held locate pool name keys out writing first c) :
    ∃ share, SharedOut locate name (keys.take (keys.length - c.unparsedBulks)) share c := by
  cases h with
  | @gathering _ _ share _ _ hsplit _ hw _ hg =>
    -- a subquery has been handed back or is under way
    have hmem : ∀ b < c.count, b ∈ c.released ∨ b ∈ c.pendingSubqueries := by
      intro b hb
      have hmem := hg.accounted.mem_iff.mpr (List.mem_range.mpr hb)
      rw [hw, List.append_nil] at hmem
      exact List.mem_append.mp hmem
    refine ⟨share, hsplit.take.symm ▸ hg.ledger.shares, hg.ledger.located, fun b hb => ?_,
      fun b hb he hq => ?_⟩
    · rcases hmem b hb with hr | hp
      · exact (hg.ledger.asked b hr).1
      · exact (hg.pending b hp).sent.1
    · rcases hmem b hb with hr | hp
      · exact (hg.ledger.asked b hr).2 he
      · exact (hg.pending b hp).whole hq
  | ready _ _ _ _ _ hlast => exact ⟨_, hlast.sharedOut⟩
  | replied _ _ _ _ hlast => exact ⟨_, hlast.sharedOut⟩

/-- The keys are counted where they are located, apart from those that were `lost`. -/
def Counted (held : ε → Bytes → Bool) (locate : Bytes → ε) (keys lost : List Bytes) (out : Bytes) :
    Prop :=
  ∃ counted, (counted ++ lost).Perm keys ∧
    out = countReply (counted.countP fun key => held (locate key) key)

theorem Last.counted {name : Bytes} {share : ℕ → List Bytes} {b : ℕ} {c : RedisDelCommand ε}
    (h : Last held locate name keys share b c) (hk : keys.length < 2 ^ 31) :
    ∃ lost, Counted held locate keys lost (replyCount c.totalDelCount) ∧
      ∀ key ∈ lost, ∃ i < c.count, (c.backend i).remoteEndpoint = locate key ∧
        (c.backend i).noRecycle = true := by
  obtain ⟨htotal, hle⟩ := h.total
  let refused : ℕ → Bool := fun i => (c.backend i).noRecycle
  refine ⟨(List.range c.count).flatMap fun i => if refused i then share i else [],
    ⟨(List.range c.count).flatMap fun i => if refused i then [] else share i, ?_, ?_⟩, ?_⟩
  · refine (List.flatMap_append_perm _ _ _).trans (List.Perm.trans (.of_eq ?_) h.ledger.shares)
    refine List.flatMap_congr fun i _ => ?_
    cases refused i with
    | true => rfl
    | false => exact List.append_nil _
  · rw [htotal, replyCount_natCast (Nat.lt_of_le_of_lt hle hk), List.countP_flatMap]
    refine congrArg (fun l : List ℕ => countReply l.sum) (List.map_congr_left fun i hi => ?_)
    rw [worth, Function.comp_apply]
    split
    next => rw [List.countP_nil]
    next =>
      refine List.countP_congr fun key hkey => ?_
      rw [h.ledger.located i (List.mem_range.mp hi) key hkey]
  · intro key hkey
    obtain ⟨i, hi, hkey⟩ := List.mem_flatMap.mp hkey
    have hi := List.mem_range.mp hi
    split at hkey
    next hr => exact ⟨i, hi, (h.ledger.located i hi key hkey).symm, hr⟩
    next => cases hkey

theorem Stands.bytes {name out : Bytes} {writing : Option (Option ℕ)} {first : Bool}
    {c : RedisDelCommand ε} (h : Stands held locate pool name keys out writing first c)
    (hk : keys.length < 2 ^ 31) : out = [] ∨ ∃ lost, Counted held locate keys lost out := by
  cases h with
  | gathering hout => exact .inl hout
  | ready hout => exact .inl hout
  | replied hout _ _ _ hlast =>
    obtain ⟨lost, hc, -⟩ := hlast.counted hk
    exact .inr ⟨lost, hout ▸ hc⟩

section Run
variable [DecidableEq ε]

/-- The client connection hands over what comes behind the keys that were taken. -/
def Delivers (keys : List Bytes) (w : World (RedisDelCommand ε)) : World.Event → Prop
  | .process buf => Delivered keys w.cmd.unparsedBulks buf
  | _ => True

instance (b : ReadBuffer) (cap : ℕ) : Decidable (b.Within cap) :=
  decidable_of_iff (b.data.length = b.bufferSize ∧ b.bufferSize ≤ cap ∧ b.bufferSize < 2 ^ 64 ∧
      b.processedOffset ≤ b.receivedOffset ∧ b.receivedOffset ≤ b.bufferSize ∧
      b.processedOffset ≤ b.parsedOffset ∧ b.parsedOffset < 2 ^ 64)
    ⟨fun h => ⟨h.1, h.2.1, h.2.2.1, h.2.2.2.1, h.2.2.2.2.1, h.2.2.2.2.2.1, h.2.2.2.2.2.2⟩,
      fun h => ⟨h.1, h.2, h.3, h.4, h.5, h.6, h.7⟩⟩

instance (keys : List Bytes) (n : ℕ) (buffer : ReadBuffer) : Decidable (Delivered keys n buffer) :=
  inferInstanceAs (Decidable (buffer.Within (2 ^ 20) ∧ (_ <+: _ ∨ _ <+: _)))

instance (keys : List Bytes) (w : World (RedisDelCommand ε)) : ∀ e, Decidable (Delivers keys w e)
  | .process buf => inferInstanceAs (Decidable (Delivered keys w.cmd.unparsedBulks buf))
  | .start _ | .parse _ | .continue_ _ | .becomeFirst _ | .backend _ _ _ | .writeDone _
  | .writeFailed _ => .isTrue trivial

instance (held : ε → Bytes → Bool) (c : RedisDelCommand ε) (b : ℕ) (bytes : Bytes) :
    Decidable (answers held c b bytes) :=
  inferInstanceAs (Decidable (_ <+: _))

theorem handlers_keep {cmd : RedisDelCommand ε} {name mem : Bytes} {m : ℕ} {share : ℕ → List Bytes}
    (hpool : ∀ k, AcceptedBufferSize (pool k).1.length)
    (hs : (encodeStrings (name :: keys)).length < 2 ^ 31)
    (h : Gathering held locate pool mem name (keys.take m) share cmd)
    (hn : cmd.replyingBackend = none)
    (hu : cmd.unparsedBulks = keys.length - m) (hw : cmd.waitingSubqueries ≠ []) :
    Keeps (handlers locate pool) (answers held) (Delivers keys) cmd
      (fun o wr f c => Stands held locate pool name keys o wr f c)
        (Finished held locate name keys) where
  start := by
    rintro w buf - rfl
    refine .quiet rfl (h.started hpool ⟨keys.drop m, ?_, ?_⟩ hw hn w.first)
    · exact (List.take_append_drop m keys).symm
    · rw [List.length_drop, hu]
  parse := fun w buf _ _ hst => .quiet rfl hst
  continue_ := fun w buf _ _ _ => .stopped rfl (.inr (.inl rfl))
  process := fun w buf hd hq hst =>
    processUnparsedPart_acted (x := ⟨buf, w.first, w.cmd, []⟩) hpool hs hst hq hd rfl
  becomeFirst := fun w buf _ hst =>
    startWriteReply_acted (x := ⟨buf, true, w.cmd, []⟩) hst (length_keys_lt hs) rfl rfl
  backend := by
    rintro w buf b e k - hst hk hen ha
    obtain ⟨hb, rfl⟩ : b ∈ w.cmd.pendingSubqueries ∧ w.cmd.backend b = k := by
      simp only [handlers] at hk
      split at hk
      next hb => exact ⟨hb, Option.some.inj hk⟩
      next => cases hk
    exact onBackend_acted (x := ⟨buf, w.first, w.cmd, []⟩) hst hs hb hen ha rfl
  writeDone := by
    rintro w buf (_ | b) - hst
    · exact .stopped rfl (.inr (.inr rfl))
    · exact onWriteReplyFinished_acted (x := ⟨buf, w.first, w.cmd, []⟩) hst rfl
  writeFailed := by
    rintro w buf (_ | b) - _
    · exact .stopped rfl (.inr (.inr rfl))
    · exact .stopped rfl (.inl rfl)

variable [Inhabited ε]

theorem new_eq {verb' back : Bulk} {name : Bytes} {done : Bool}
    (hhead : ba.items.head? = some verb')
    (hname : verb'.payload = some name) (hback : (ba.items.drop 1).getLast? = some back)
    (hdone : back.completed = some done) (buffer : ReadBuffer) :
    new locate pool buffer ba =
      (if done then ba.items.drop 1 else (ba.items.drop 1).dropLast).foldlM (pushKey locate pool)
        (buffer, ⟨name.map toLower, if done then ba.absentBulks else addSize ba.absentBulks 1, 0,
          fun k => ⟨pool.allocate k default, 0, .sendingPrefix, []⟩, [], [], 0, .idle, none,
            []⟩) := by
  unfold new
  simp only [hhead, hname, hback, hdone, Option.bind_eq_bind, Option.bind_some, Option.map_some]
  cases done with
  | true => rfl
  | false => rfl

theorem new_gathering (held : ε → Bytes → Bool) (locate : Bytes → ε) (pool : Pool)
    (h : Begun ((verb :: keys).map some) buf size)
    (hba : ba = BulkArray.parsedArray buf ((verb :: keys).map some) size) (hp : 2 ≤ ba.presentBulks)
    (hkey : ∃ key, ba.items[1]? = some key ∧ key.completed = some true) (buffer : ReadBuffer) :
    ∃ m share buffer' c, new locate pool buffer ba = some (buffer', c) ∧
      Gathering held locate pool buf.mem (verb.map toLower) (keys.take m) share c ∧
      c.replyingBackend = none ∧ c.unparsedBulks = keys.length - m ∧ c.waitingSubqueries ≠ [] := by
  obtain ⟨back, done, m, off, hback, hdone, hpos, hm, hmem, hhead, hitems, hunparsed⟩ :=
    arrived_keys h hba hp hkey
  have hsize : ∀ key ∈ verb :: keys, itemSize (some key) < 2 ^ 31 := fun key hmem =>
    itemSize_lt_of_small h.small _ (List.mem_map_of_mem hmem)
  have hverb := hsize verb List.mem_cons_self
  have hname := ((hmem.wholeBulk hverb (itemSize (some verb) : ℕ)).payload hverb).1
  have hempty : Gathering held locate pool buf.mem (verb.map toLower) [] (fun _ => [])
      ⟨verb.map toLower, keys.length - m, 0,
        fun k => ⟨pool.allocate k default, 0, .sendingPrefix, []⟩, [], [], 0, .idle, none, []⟩ :=
    ⟨rfl, ⟨rfl, .nil, fun _ hb => absurd hb (Nat.not_lt_zero _), fun _ hb => (by cases hb), rfl⟩,
      fun _ hb => (by cases hb), fun _ hb => (by cases hb), .nil⟩
  obtain ⟨share, ⟨buffer', c⟩, hfold, hg, hr, hu, hw⟩ := Gathering.pushKeys (keys.take m)
    (s := (buffer, _)) hempty
    (fun key hkey => hsize key (List.mem_cons_of_mem verb (List.mem_of_mem_take hkey))) hmem.tail
  refine ⟨m, share, buffer', c, ?_, hg, hr, hu, hw (.inl ?_)⟩
  · rw [new_eq hhead hname hback hdone, hitems, hunparsed]
    exact hfold
  · intro hnil
    have := congrArg List.length hnil
    rw [List.length_take, List.length_nil] at this
    omega

theorem made_tracks (held : ε → Bytes → Bool) (locate : Bytes → ε)
    (h : Begun ((verb :: keys).map some) buf size)
    (hpool : ∀ k, AcceptedBufferSize (pool k).1.length)
    (hc : createCommand bufferSize buf size = some (n, some (.redisDel ba))) (buffer : ReadBuffer) :
    keys.length < 2 ^ 31 ∧ ∃ buffer' c, new locate pool buffer ba = some (buffer', c) ∧
      ∀ first w, Transition.Execution (World.system (handlers locate pool) (answers held))
        (Delivers keys)
          (World.init c first) w →
        Tracks c (fun o => o = [] ∨ ∃ lost, Counted held locate keys lost o)
          (fun o wr f c => Stands held locate pool (verb.map toLower) keys o wr f c)
          (Finished held locate (verb.map toLower) keys) w := by
  obtain ⟨hba, hp, -, hkey⟩ := createCommand_del h hc
  obtain ⟨m, share, buffer', c, hnew, hg, hr, hu, hw⟩ :=
    new_gathering held locate pool h hba hp hkey buffer
  have hs : (encodeStrings (verb.map toLower :: keys)).length < 2 ^ 31 := by
    have hsmall : (encodeStrings (verb :: keys)).length < 2 ^ 31 := h.small
    rw [length_encodeStrings, List.map_cons, length_encodeItems_cons] at hsmall ⊢
    have hitem : (encodeItem (some (verb.map toLower))).length =
        (encodeItem (some verb)).length := by
      simp [encodeItem]
    have hheader : (verb.map toLower :: keys).length = (verb :: keys).length := rfl
    rwa [itemSize, hitem, hheader]
  refine ⟨length_keys_lt hs, buffer', c, hnew, fun first w hrun => ?_⟩
  exact (handlers_keep hpool hs hg hr hu hw).reachable (.inl rfl)
    (fun _ _ _ _ hst => hst.bytes (length_keys_lt hs)) hrun

/-- The keys that have arrived are shared out, each to one backend at its own endpoint; a backend
is sent the verb with its share and nothing else. -/
theorem keys_shared_out (held : ε → Bytes → Bool) (locate : Bytes → ε)
    (h : Begun ((verb :: keys).map some) buf size)
    (hpool : ∀ k, AcceptedBufferSize (pool k).1.length)
    (hc : createCommand bufferSize buf size = some (n, some (.redisDel ba))) (buffer : ReadBuffer)
    (first : Bool) :
    ∃ buffer' c, new locate pool buffer ba = some (buffer', c) ∧
      ∀ w, Transition.Execution (World.system (handlers locate pool) (answers held)) (Delivers keys)
          (World.init c first) w →
        w.live → w.started = true →
        ∃ share, SharedOut locate (verb.map toLower)
          (keys.take (keys.length - w.cmd.unparsedBulks)) share
          w.cmd := by
  obtain ⟨-, buffer', c, hnew, htracks⟩ := made_tracks held locate h hpool hc buffer
  refine ⟨buffer', c, hnew, fun w hw hl hst => ?_⟩
  exact ((htracks first w hw).state hl hst).sharedOut

/-- The count does not stall: a command whose turn it is and that has told nothing has something
outstanding on each of its subqueries, and one is left as soon as all the keys have arrived. -/
theorem count_awaited (held : ε → Bytes → Bool) (locate : Bytes → ε)
    (h : Begun ((verb :: keys).map some) buf size)
    (hpool : ∀ k, AcceptedBufferSize (pool k).1.length)
    (hc : createCommand bufferSize buf size = some (n, some (.redisDel ba))) (buffer : ReadBuffer)
    (first : Bool) :
    ∃ buffer' c, new locate pool buffer ba = some (buffer', c) ∧
      ∀ w, Transition.Execution (World.system (handlers locate pool) (answers held)) (Delivers keys)
          (World.init c first) w →
        w.live → w.started = true → w.first = true → w.out = [] →
        (∀ b ∈ w.cmd.pendingSubqueries,
          (w.cmd.backend b).query ≠ none ∨ (w.cmd.backend b).isReadingReply = true) ∧
        (w.cmd.unparsedBulks = 0 → w.cmd.pendingSubqueries ≠ []) := by
  obtain ⟨hk, buffer', c, hnew, htracks⟩ := made_tracks held locate h hpool hc buffer
  refine ⟨buffer', c, hnew, fun w hw hl hst hfirst hout => ?_⟩
  cases (htracks first w hw).state hl hst with
  | gathering _ _ _ hleft _ _ hg => exact ⟨fun b hb => (hg.pending b hb).busy, hleft⟩
  | ready _ _ hf => cases hf.symm.trans hfirst
  | replied hreply _ _ _ hlast =>
    have hpos := (hlast.length_replyCount hk).1
    rw [← hreply, hout] at hpos
    cases hpos

end Run

def threeVerb : Bytes := ascii "exists"

def threeKeys : List Bytes := [ascii "a", ascii "b", ascii "c"]

def threeRequest : Ptr := ⟨encodeStrings (threeVerb :: threeKeys), 0⟩

/-- Key `b` is located at endpoint 2, any other at endpoint 1. -/
def threeLocate (key : Bytes) : ℕ := if key = ascii "b" then 2 else 1

def threeHeld (_ : ℕ) (_ : Bytes) : Bool := true

def threePool : Pool := fun k => (List.replicate 1024 0, k == 0)

theorem threeBegun : Begun ((threeVerb :: threeKeys).map some) threeRequest 35 :=
  ⟨by decide, by decide, by decide, ⟨[], by decide⟩, by decide⟩

def threeArray : BulkArray :=
  ⟨threeRequest, 37, [⟨⟨threeRequest.mem, 4⟩, 12⟩, ⟨⟨threeRequest.mem, 16⟩, 7⟩,
    ⟨⟨threeRequest.mem, 23⟩, 7⟩, ⟨⟨threeRequest.mem, 30⟩, 5⟩]⟩

theorem threeArray_created :
    createCommand 1024 threeRequest 35 = some (30, some (.redisDel threeArray)) := by
  decide +kernel

theorem threeNew_isSome : (new threeLocate threePool (.new []) threeArray).isSome = true := by
  decide +kernel

def threeDel :
    RedisDelCommand ℕ := ((new threeLocate threePool (.new []) threeArray).get threeNew_isSome).2

theorem threeDel_made {buffer : ReadBuffer} {c : RedisDelCommand ℕ}
    (h : new threeLocate threePool (.new []) threeArray = some (buffer, c)) : c = threeDel :=
  congrArg Prod.snd (Option.some.inj (h.symm.trans (Option.some_get threeNew_isSome).symm))

def threeRest : ReadBuffer :=
  (ReadBuffer.new (List.replicate 1024 0)).receive (encodeItem (some (ascii "c")))

/-- The first batch: backend 0 holds `a`, backend 1 is not there. -/
def threeFirst : List World.Event :=
  let buf := ReadBuffer.new []
  [.start buf, .backend buf 0 .queryWritten, .backend buf 1 .connectFailed,
    .backend buf 0 .queryWritten, .process threeRest]

/-- The second batch: backend 2 is at the endpoint of backend 0. -/
def threeSecond : List World.Event :=
  let buf := ReadBuffer.new []
  [.backend buf 0 (.replyRead (ascii ":1\r\n")), .backend buf 2 .connected,
    .backend buf 2 .queryWritten, .backend buf 2 .queryWritten,
    .backend buf 2 (.replyRead (ascii ":1\r\n")), .writeDone buf]

def threeHalf : World (RedisDelCommand ℕ) :=
  Transition.runTrace (World.system (handlers threeLocate threePool) (answers threeHeld))
    (World.init threeDel true) threeFirst

theorem threeHalf_run : Transition.Execution
    (World.system (handlers threeLocate threePool) (answers threeHeld)) (Delivers threeKeys)
      (World.init threeDel true) threeHalf :=
  Transition.ValidTrace.execution .refl (by decide +kernel)

theorem threeHalf_live : threeHalf.live ∧ threeHalf.started = true := by decide +kernel

def threeEnd : World (RedisDelCommand ℕ) :=
  Transition.runTrace (World.system (handlers threeLocate threePool) (answers threeHeld)) threeHalf
    threeSecond

theorem threeEnd_run : Transition.Execution
    (World.system (handlers threeLocate threePool) (answers threeHeld)) (Delivers threeKeys)
      (World.init threeDel true) threeEnd :=
  Transition.ValidTrace.execution threeHalf_run (by decide +kernel)

theorem threePool_accepted (k : ℕ) : AcceptedBufferSize (threePool k).1.length :=
  ⟨0, by decide, List.length_replicate⟩

theorem threeKeys_shared_out :
    ∃ share, SharedOut threeLocate threeVerb threeKeys share threeHalf.cmd := by
  obtain ⟨buffer', c, hnew, hrun⟩ := keys_shared_out threeHeld threeLocate threeBegun
    threePool_accepted threeArray_created (.new []) true
  obtain rfl := threeDel_made hnew
  have hunparsed : threeHalf.cmd.unparsedBulks = 0 := by decide +kernel
  obtain ⟨share, hshare⟩ := hrun threeHalf threeHalf_run threeHalf_live.1 threeHalf_live.2
  have hverb : threeVerb.map toLower = threeVerb := by decide
  rw [hunparsed, hverb] at hshare
  exact ⟨share, hshare⟩

theorem threeKeys_awaited : threeHalf.cmd.pendingSubqueries = [0, 2] ∧
    ∀ b ∈ threeHalf.cmd.pendingSubqueries,
      (threeHalf.cmd.backend b).query ≠ none ∨ (threeHalf.cmd.backend b).isReadingReply = true := by
  obtain ⟨buffer', c, hnew, hrun⟩ := count_awaited threeHeld threeLocate threeBegun
    threePool_accepted threeArray_created (.new []) true
  obtain rfl := threeDel_made hnew
  have hpending : threeHalf.cmd.pendingSubqueries = [0, 2] := by decide +kernel
  have hout : threeHalf.out = [] := by decide +kernel
  have hfirst : threeHalf.first = true := by decide +kernel
  exact ⟨hpending,
    (hrun threeHalf threeHalf_run threeHalf_live.1 threeHalf_live.2 hfirst hout).1⟩

end RedisDelCommand
end Yarmproxy
