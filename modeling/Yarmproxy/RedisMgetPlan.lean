import Yarmproxy.RedisMgetNils
import Yarmproxy.RedisMgetSchedule
import Yarmproxy.RedisSegments

/-! # The plan of a Redis `MGET`

The constructor cuts the request into queries: each key goes to the backend at its endpoint,
the segments of a backend are the encodings of its keys in order, and the runs of the waiting
queue spell the order of the request. -/
namespace Yarmproxy
namespace RedisMgetCommand

theorem owners_append (queue queue' : List (ℕ × ℕ)) :
    owners (queue ++ queue') = owners queue ++ owners queue' := List.flatMap_append

theorem owners_pushRun (queue : List (ℕ × ℕ)) (b : ℕ) :
    owners (pushRun queue b) = owners queue ++ [b] := by
  rcases List.eq_nil_or_concat queue with rfl | ⟨before, ⟨b', n⟩, rfl⟩
  · rfl
  have hlast : pushRun (before ++ [(b', n)]) b =
      if b' = b then before ++ [(b, n + 1)] else before ++ [(b', n)] ++ [(b, 1)] := by
    simp [pushRun]
  rw [List.concat_eq_append, hlast]
  split
  next hb =>
    subst hb
    rw [owners_append, owners_append, List.append_assoc]
    simp [owners, List.replicate_succ']
  next =>
    rw [owners_append (before ++ [(b', n)])]
    rfl

theorem pushRun_pos {queue : List (ℕ × ℕ)} (h : ∀ r ∈ queue, 0 < r.2) (b : ℕ) :
    ∀ r ∈ pushRun queue b, 0 < r.2 := by
  unfold pushRun
  split
  next b' n hlast =>
    split
    next =>
      intro r hr
      rcases List.mem_append.mp hr with hr | hr
      · exact h r (List.dropLast_subset _ hr)
      · rw [List.mem_singleton.mp hr]
        exact Nat.succ_pos n
    next =>
      intro r hr
      rcases List.mem_append.mp hr with hr | hr
      · exact h r hr
      · rw [List.mem_singleton.mp hr]
        exact Nat.one_pos
  next =>
    intro r hr
    rw [List.mem_singleton.mp hr]
    exact Nat.one_pos

theorem keysOf_concat (plan : Plan) (b : ℕ) (key : Bytes) (i : ℕ) :
    keysOf (plan ++ [(b, key)]) i = keysOf plan i ++ if i = b then [key] else [] := by
  rw [keysOf_append]
  by_cases hi : i = b
  · rw [if_pos hi, hi]
    simp [keysOf]
  · rw [if_neg hi]
    simp [keysOf, Ne.symm hi]

variable {ε : Type}

/-- A subquery as the constructor leaves it: `keys` are to be sent to its backend. -/
structure Asked (pool : Pool) (keys : List Bytes) (b : ℕ) (s : MgetSubquery ε) : Prop where
  backend : ∃ ep, s.backend = pool.allocate b ep
  keyCount : s.keyCount = keys.length
  segments : s.segments.flatMap Segment.bytes = encodeItems (keys.map some)
  absent : s.replyAbsentBulks = 0

/-- The keys of `plan`, which end at `off`, have been pushed. -/
structure Built [Inhabited ε] (locate : Bytes → ε) (pool : Pool) (header mem : Bytes) (plan : Plan)
    (off : ℕ) (s : Building ε) : Prop where
  owner : ∀ e ∈ plan, e.1 < s.cmd.count ∧ (s.cmd.backend e.1).remoteEndpoint = locate e.2
  runs : owners s.cmd.waitingReplyQueue = plan.map Prod.fst
  positive : ∀ r ∈ s.cmd.waitingReplyQueue, 0 < r.2
  asked : ∀ b < s.cmd.count, Asked pool (keysOf plan b) b (s.cmd.subquery b)
  /-- the key before, if any, is the end of the last segment of its backend -/
  last : s.lastEndpoint = default ∨ ∃ b < s.cmd.count,
    (s.cmd.backend b).remoteEndpoint = s.lastEndpoint ∧ EndsAt mem off (s.cmd.subquery b).segments
  idle : s.cmd.reply = .idle
  replyPrefix : s.cmd.replyPrefix = header

section Loop
variable [Inhabited ε] {locate : Bytes → ε} {pool : Pool} {header mem : Bytes} {plan : Plan}
  {off b : ℕ} {key : Bytes} {keys : List Bytes} {s : Building ε}

theorem keysOf_count (h : Built locate pool header mem plan off s) :
    keysOf plan s.cmd.count = [] := by
  rw [keysOf, List.filter_eq_nil_iff.mpr, List.map_nil]
  intro e he
  have := (h.owner e he).1
  simp
  omega

theorem Built.allocate (h : Built locate pool header mem plan off s) (ep : ε)
    (buffer : ReadBuffer) :
    Built locate pool header mem plan off ⟨buffer, s.lastEndpoint,
      { s.cmd.setSubquery s.cmd.count ⟨pool.allocate s.cmd.count ep, 0, [], 0⟩ with
        count := s.cmd.count + 1 }⟩ := by
  have hsub : ∀ i, i < s.cmd.count →
      (s.cmd.setSubquery s.cmd.count ⟨pool.allocate s.cmd.count ep, 0, [], 0⟩).subquery i =
        s.cmd.subquery i := by
    intro i hi
    rw [subquery_setSubquery, if_neg (by omega)]
  refine ⟨fun e he => ?_, h.runs, h.positive, fun i hi => ?_, ?_, h.idle, h.replyPrefix⟩
  · obtain ⟨hlt, hep⟩ := h.owner e he
    refine ⟨Nat.lt_succ_of_lt hlt, ?_⟩
    change ((s.cmd.setSubquery s.cmd.count _).subquery e.1).backend.remoteEndpoint = _
    rw [hsub _ hlt]
    exact hep
  · change Asked _ _ _ ((s.cmd.setSubquery s.cmd.count _).subquery i)
    rcases Nat.lt_succ_iff_lt_or_eq.mp hi with hlt | rfl
    · rw [hsub i hlt]
      exact h.asked i hlt
    · rw [subquery_setSubquery, if_pos rfl, keysOf_count h]
      exact ⟨⟨ep, rfl⟩, rfl, rfl, rfl⟩
  · refine h.last.imp id fun ⟨i, hi, hep, hend⟩ => ⟨i, Nat.lt_succ_of_lt hi, ?_, ?_⟩
    · change ((s.cmd.setSubquery s.cmd.count _).subquery i).backend.remoteEndpoint = _
      rw [hsub i hi]
      exact hep
    · change EndsAt _ _ ((s.cmd.setSubquery s.cmd.count _).subquery i).segments
      rw [hsub i hi]
      exact hend

theorem Built.push [DecidableEq ε] (h : Built locate pool header mem plan off s)
    (hb : b < s.cmd.count) (hep : (s.cmd.backend b).remoteEndpoint = locate key)
    (hadjacent : s.lastEndpoint = locate key → EndsAt mem off (s.cmd.subquery b).segments)
    (hmem : HoldsItems mem off (some key :: keys.map some)) :
    ∃ segments, pushSegment (s.cmd.subquery b).segments ⟨mem, off⟩ (itemSize (some key))
        (s.lastEndpoint = locate key) = some segments ∧
      Built locate pool header mem (plan ++ [(b, key)]) (off + itemSize (some key))
        ⟨s.buffer, locate key, { s.cmd.setSubquery b { s.cmd.subquery b with
            keyCount := (s.cmd.subquery b).keyCount + 1
            segments := segments } with
          waitingReplyQueue := pushRun s.cmd.waitingReplyQueue b }⟩ := by
  obtain ⟨hle, hbytes⟩ := hmem.head
  obtain ⟨segments, hpush, hflat, hend⟩ :=
    pushSegment_endsAt
      (fun ha : decide (s.lastEndpoint = locate key) = true => hadjacent (of_decide_eq_true ha)) hle
  refine ⟨segments, hpush, ?_⟩
  have hself : ∀ q : MgetSubquery ε, q.backend = s.cmd.backend b →
      ∀ i, (s.cmd.setSubquery b q).backend i = s.cmd.backend i := by
    intro q hq i
    rw [backend_setSubquery]
    split
    next hi => rw [hi, hq]
    next => rfl
  have hback := hself { s.cmd.subquery b with
    keyCount := (s.cmd.subquery b).keyCount + 1
    segments := segments } rfl
  refine ⟨fun e he => ?_, ?_, pushRun_pos h.positive b, fun i hi => ?_, .inr ⟨b, hb, ?_, ?_⟩,
    h.idle, h.replyPrefix⟩
  · change _ ∧ ((s.cmd.setSubquery b _).backend e.1).remoteEndpoint = _
    rw [hback]
    rcases List.mem_append.mp he with he | he
    · exact h.owner e he
    · rw [List.mem_singleton.mp he]
      exact ⟨hb, hep⟩
  · rw [owners_pushRun, h.runs, List.map_append]
    rfl
  · change Asked _ _ _ ((s.cmd.setSubquery b _).subquery i)
    rw [keysOf_concat, subquery_setSubquery]
    split
    next hib =>
      subst hib
      have ha := h.asked i hi
      refine ⟨ha.backend, ?_, ?_, ha.absent⟩
      · rw [List.length_append, ha.keyCount]
        rfl
      · rw [hflat, ha.segments, hbytes, List.map_append, encodeItems_append]
        simp [encodeItems]
    next =>
      rw [List.append_nil]
      exact h.asked i hi
  · change ((s.cmd.setSubquery b _).backend b).remoteEndpoint = _
    rw [hback, hep]
  · change EndsAt _ _ ((s.cmd.setSubquery b _).subquery b).segments
    rw [subquery_setSubquery, if_pos rfl]
    exact hend

variable [DecidableEq ε]

theorem pushKey_built (h : Built locate pool header mem plan off s)
    (hg : Grouped locate (plan.map Prod.snd) s.cmd) (hdefault : locate key ≠ default)
    (hmem : HoldsItems mem off (some key :: keys.map some)) (hsize : itemSize (some key) < 2 ^ 31)
    (present : ℤ) :
    ∃ b s', pushKey locate pool s ⟨⟨mem, off⟩, present⟩ = some s' ∧
      Built locate pool header mem (plan ++ [(b, key)]) (off + itemSize (some key)) s' ∧
      Grouped locate ((plan ++ [(b, key)]).map Prod.snd) s'.cmd := by
  have hbulk := hmem.wholeBulk hsize present
  have hkey := (hbulk.payload hsize).1
  suffices hpush : ∃ b s', pushKey locate pool s ⟨⟨mem, off⟩, present⟩ = some s' ∧
      Built locate pool header mem (plan ++ [(b, key)]) (off + itemSize (some key)) s' by
    obtain ⟨b, s', hs', hbuilt⟩ := hpush
    refine ⟨b, s', hs', hbuilt, ?_⟩
    rw [List.map_append]
    exact pushKey_grouped hg hkey hs'
  unfold pushKey
  rw [hkey, hbulk.1, Option.bind_eq_bind, Option.bind_some]
  dsimp only
  cases hfind : (List.range s.cmd.count).find? fun b =>
      (s.cmd.backend b).remoteEndpoint = locate key with
  | some b =>
    have hep : (s.cmd.backend b).remoteEndpoint = locate key := by simpa using List.find?_some hfind
    have hb : b < s.cmd.count := List.mem_range.mp (List.mem_of_find?_eq_some hfind)
    have hadjacent : s.lastEndpoint = locate key → EndsAt mem off (s.cmd.subquery b).segments := by
      intro hlast
      rcases h.last with hd | ⟨i, hi, hiep, hend⟩
      · exact absurd (hlast.symm.trans hd) hdefault
      · rwa [hg.distinct b hb i hi (hep.trans (hlast.symm.trans hiep.symm))]
    obtain ⟨segments, hseg, hbuilt⟩ := h.push hb hep hadjacent hmem
    refine ⟨b, _, ?_, hbuilt⟩
    simp only [Option.bind_eq_bind, Option.bind_some, hseg]
    rfl
  | none =>
    have hnone : ∀ i < s.cmd.count, (s.cmd.backend i).remoteEndpoint ≠ locate key := by
      intro i hi heq
      have := List.find?_eq_none.mp hfind i (List.mem_range.mpr hi)
      simp [heq] at this
    have hfresh : s.lastEndpoint ≠ locate key := by
      intro hlast
      rcases h.last with hd | ⟨i, hi, hiep, -⟩
      · exact hdefault (hlast.symm.trans hd)
      · exact hnone i hi (hiep.trans hlast)
    have hopen := h.allocate (locate key) s.buffer.incRecycleLock
    have hep : (RedisMgetCommand.backend { s.cmd.setSubquery s.cmd.count
        ⟨pool.allocate s.cmd.count (locate key), 0, [], 0⟩ with
        count := s.cmd.count + 1 } s.cmd.count).remoteEndpoint = locate key := by
      simp [backend, setSubquery, Pool.allocate, BackendConn.allocated]
    obtain ⟨segments, hseg, hbuilt⟩ :=
      hopen.push (Nat.lt_succ_self _) hep (fun hlast => absurd hlast hfresh) hmem
    refine ⟨s.cmd.count, _, ?_, hbuilt⟩
    simp only [Option.bind_eq_bind, Option.bind_some, hseg]
    rfl

theorem foldlM_pushKey_built (keys : List Bytes) : ∀ {plan : Plan} {off : ℕ} {s : Building ε},
    Built locate pool header mem plan off s → Grouped locate (plan.map Prod.snd) s.cmd →
    (∀ key ∈ keys, locate key ≠ default ∧ itemSize (some key) < 2 ^ 31) →
    HoldsItems mem off (keys.map some) →
    ∃ plan' off' s', (wholeItems mem off (keys.map some)).foldlM (pushKey locate pool) s = some s' ∧
      plan'.map Prod.snd = plan.map Prod.snd ++ keys ∧
      Built locate pool header mem plan' off' s' ∧ Grouped locate (plan'.map Prod.snd) s'.cmd := by
  induction keys with
  | nil =>
    intro plan off s h hg _ _
    exact ⟨plan, off, s, rfl, (List.append_nil _).symm, h, hg⟩
  | cons key keys ih =>
    intro plan off s h hg hkeys hmem
    obtain ⟨hdefault, hsize⟩ := hkeys key List.mem_cons_self
    obtain ⟨b, s', hs', hbuilt, hgroup⟩ := pushKey_built h hg hdefault hmem hsize
      (itemSize (some key) : ℕ)
    obtain ⟨plan', off', s'', hfold, hplan, hbuilt', hgroup'⟩ :=
      ih hbuilt hgroup (fun k hk => hkeys k (List.mem_cons_of_mem key hk)) hmem.tail
    refine ⟨plan', off', s'', ?_, ?_, hbuilt', hgroup'⟩
    · rw [List.map_cons, wholeItems, List.foldlM_cons, hs', Option.bind_eq_bind, Option.bind_some]
      exact hfold
    · rw [hplan, List.map_append, List.append_assoc]
      rfl

end Loop

/-- A new command that is to carry out `plan`. -/
structure Planned (locate : Bytes → ε) (pool : Pool) (plan : Plan) (c : RedisMgetCommand ε) :
    Prop where
  owner : ∀ e ∈ plan, e.1 < c.count ∧ (c.backend e.1).remoteEndpoint = locate e.2
  distinct : ∀ i < c.count, ∀ j < c.count,
    (c.backend i).remoteEndpoint = (c.backend j).remoteEndpoint → i = j
  runs : owners c.waitingReplyQueue = plan.map Prod.fst
  positive : ∀ r ∈ c.waitingReplyQueue, 0 < r.2
  asked : ∀ b < c.count, Asked pool (keysOf plan b) b (c.subquery b) ∧ keysOf plan b ≠ []
  idle : c.reply = .idle
  replyPrefix : c.replyPrefix = serializePrefix plan.length

theorem length_wholeItems_map (mem : Bytes) (off : ℕ) (strs : List Bytes) :
    (wholeItems mem off (strs.map some)).length = strs.length := by
  rw [length_wholeItems, List.length_map]

theorem new_planned [DecidableEq ε] [Inhabited ε] {locate : Bytes → ε} {verb mem : Bytes}
    {keys : List Bytes} {off : ℕ} {ba : BulkArray} (pool : Pool) (buffer : ReadBuffer)
    (hba : WholeArray ((verb :: keys).map some) ba)
    (hs : (encodeStrings (verb :: keys)).length < 2 ^ 31)
    (hitems : ba.items = wholeItems mem off ((verb :: keys).map some))
    (hmem : HoldsItems mem off ((verb :: keys).map some))
    (hdefault : ∀ key ∈ keys, locate key ≠ default) :
    ∃ plan buffer' c, new locate pool buffer ba = some (buffer', c) ∧ plan.map Prod.snd = keys ∧
      Planned locate pool plan c := by
  have htotal : ba.totalBulks = keys.length + 1 := by
    rw [hba.totalBulks]
    simp
  have hkeys : keys.length < 2 ^ 31 := by
    have := length_lt_of_small hs
    simp at this
    omega
  have hheader : serializePrefix (subSize ba.totalBulks 1) = serializePrefix keys.length := by
    rw [htotal, subSize_eq (by omega) (by omega), Nat.add_sub_cancel]
  have hbulks : (List.range' 1 (ba.totalBulks - 1)).mapM (fun i => ba.items[i]?) =
      some (wholeItems mem (off + itemSize (some verb)) (keys.map some)) := by
    rw [htotal, Nat.add_sub_cancel, Lists.mapM_getElem?_some]
    · rw [hitems, List.map_cons, wholeItems, List.drop_one, List.tail_cons,
        List.take_of_length_le (by rw [length_wholeItems_map])]
    · rw [hitems, length_wholeItems_map, List.length_cons]
      omega
  have hempty : Built locate pool (serializePrefix keys.length) mem [] (off + itemSize (some verb))
      ⟨buffer, default, ⟨0, fun k => ⟨pool.allocate k default, 0, [], 0⟩, .idle, none,
        serializePrefix keys.length, []⟩⟩ := by
    refine ⟨?_, rfl, ?_, ?_, .inl rfl, rfl, rfl⟩
    · exact fun e he => absurd he List.not_mem_nil
    · exact fun r hr => absurd hr List.not_mem_nil
    · exact fun b hb => absurd hb (Nat.not_lt_zero b)
  have hnone : Grouped locate [] (⟨0, fun k => ⟨pool.allocate k default, 0, [], 0⟩, .idle, none,
      serializePrefix keys.length, []⟩ : RedisMgetCommand ε) := by
    refine ⟨?_, ?_, ?_, ?_⟩
    · exact fun i hi => absurd hi (Nat.not_lt_zero i)
    · exact fun key hkey => absurd hkey List.not_mem_nil
    · exact fun i hi => absurd hi (Nat.not_lt_zero i)
    · exact fun i hi => absurd hi (Nat.not_lt_zero i)
  obtain ⟨plan, off', s, hfold, hplan, hbuilt, hgroup⟩ := foldlM_pushKey_built keys hempty hnone
    (fun key hkey => ⟨hdefault key hkey, itemSize_lt_of_small hs _ (by simp [hkey])⟩) hmem.tail
  have hsnd : plan.map Prod.snd = keys := hplan
  have hlen : plan.length = keys.length := by rw [← hsnd, List.length_map]
  refine ⟨plan, s.buffer, s.cmd, ?_, hsnd, hbuilt.owner, hgroup.distinct, hbuilt.runs,
    hbuilt.positive, fun b hb => ⟨hbuilt.asked b hb, ?_⟩, hbuilt.idle, hlen ▸ hbuilt.replyPrefix⟩
  · unfold new
    rw [hheader, hbulks]
    simp only [Option.bind_eq_bind, Option.bind_some]
    rw [hfold]
    rfl
  · have := hgroup.nonempty b hb
    rw [(hbuilt.asked b hb).keyCount] at this
    exact List.length_pos_iff.mp this

theorem Planned.keysOf_eq [DecidableEq ε] {locate : Bytes → ε} {pool : Pool} {plan : Plan}
    {c : RedisMgetCommand ε} {b : ℕ} (h : Planned locate pool plan c) (hb : b < c.count) :
    keysOf plan b = (plan.map Prod.snd).filter fun key =>
      locate key = (c.backend b).remoteEndpoint := by
  rw [keysOf, List.filter_map]
  congr 1
  refine List.filter_congr fun e he => ?_
  obtain ⟨hlt, hep⟩ := h.owner e he
  refine decide_eq_decide.mpr ⟨fun heq => ?_, fun heq => ?_⟩
  · rw [← heq, ← hep]
  · exact h.distinct e.1 hlt b hb (hep.trans heq)

end RedisMgetCommand
end Yarmproxy
