import Yarmproxy.ClientStream

/-! # The places of the requests

A request is found by its place in the stream that the connection reads. Every move leaves the
commands with bytes of their own requests, in requests that stand one behind the other. -/
namespace Yarmproxy

variable {ε : Type}

theorem ReadBuffer.unprocessed_bounds {b : ReadBuffer} (hv : b.Valid) :
    b.queued.length ≤ b.unprocessedData.rest.length ∧ b.queued.length < 2 ^ 31 := by
  have hm := hv.memory
  have hr := hv.received_size
  have hs := hv.size_bound
  have hq := queued_length hv
  refine ⟨?_, by omega⟩
  rw [Ptr.rest, List.length_drop, unprocessedData, hq]
  dsimp only
  omega

/-- The bytes being written lie in the buffer where they are written from. -/
def SingleCommand.Intact (b : ReadBuffer) (c : SingleCommand ε) : Prop :=
  ∀ p, c.backend.query.map QueryOp.span = some p → ∃ at_, p.1 = some at_ ∧
    at_ + p.2.length ≤ b.receivedOffset ∧ (b.data.drop at_).take p.2.length = p.2

theorem SingleCommand.Intact.inPlace {b b' : ReadBuffer} {c c' : SingleCommand ε} (h : c.Intact b)
    (hb : b.InPlace b')
    (hs : c'.backend.query.map QueryOp.span = c.backend.query.map QueryOp.span) : c'.Intact b' := by
  intro p hp
  obtain ⟨at_, hat, hle, hdata⟩ := h p (hs ▸ hp)
  refine ⟨at_, hat, hle.trans hb.received, ?_⟩
  have hcut : ∀ l : Bytes, ((l.take b.receivedOffset).drop at_).take p.2.length =
      (l.drop at_).take p.2.length := by
    intro l
    rw [List.drop_take, List.take_take, Nat.min_eq_left (by omega)]
  rw [← hcut, hb.data, hcut, hdata]

theorem SingleCommand.Writes.intact {x y : Ctx (SingleCommand ε)} (hw : Writes x y)
    (hv : x.buffer.Valid) : y.cmd.Intact y.buffer := by
  intro p hp
  obtain rfl := Option.some.inj (hw.span.symm.trans hp)
  have hlen := ReadBuffer.queued_length hv
  have hle := hv.processed_received
  have hmin := Nat.min_le_left x.buffer.queued.length x.buffer.ahead
  refine ⟨_, rfl, ?_, ?_⟩
  · rw [hw.buffer, List.length_take]
    simp only [ReadBuffer.incRecycleLock]
    omega
  · rw [hw.buffer, List.length_take, Nat.min_eq_left hmin]
    simp only [ReadBuffer.incRecycleLock, ReadBuffer.queued, List.take_take]
    congr 1
    rw [← ReadBuffer.queued, hlen]
    omega

namespace AnyCommand
variable [DecidableEq ε] [Inhabited ε] {env : Env ε} {n missing : ℕ} {b b' : ReadBuffer}
variable {created : Created} {kind : SingleKind} {cmd : AnyCommand ε}

theorem construct_single (h : construct env n b created = some (b', cmd))
    (hs : created.single = some (kind, missing)) :
    b' = b ∧ ∃ key, cmd = newSingle env n kind missing key := by
  cases created with
  | redisBasic ba | redisSet ba =>
    obtain ⟨rfl, rfl⟩ := Prod.mk.inj (Option.some.inj hs)
    obtain ⟨item, -, h⟩ := Option.bind_eq_some_iff.mp h
    obtain ⟨key, -, h⟩ := Option.bind_eq_some_iff.mp h
    obtain ⟨rfl, rfl⟩ := Prod.mk.inj (Option.some.inj h)
    exact ⟨rfl, key, rfl⟩
  | memcSet key =>
    obtain ⟨rfl, rfl⟩ := Prod.mk.inj (Option.some.inj hs)
    obtain ⟨rfl, rfl⟩ := Prod.mk.inj (Option.some.inj h)
    exact ⟨rfl, key, rfl⟩
  | memcBasic data =>
    obtain ⟨rfl, rfl⟩ := Prod.mk.inj (Option.some.inj hs)
    obtain ⟨key, -, h⟩ := Option.bind_eq_some_iff.mp h
    obtain ⟨rfl, rfl⟩ := Prod.mk.inj (Option.some.inj h)
    exact ⟨rfl, key, rfl⟩
  | _ => cases hs

theorem construct_error {reply : Bytes} (h : construct env n b (.error reply) = some (b', cmd)) :
    cmd = .local_ ⟨.error, reply⟩ := (Prod.mk.inj (Option.some.inj h)).2.symm

theorem single_of_construct {k : SingleCommand ε}
    (h : construct env n b created = some (b', .single k)) :
    ∃ kind missing, created.single = some (kind, missing) := by
  cases created with
  | redisBasic ba | redisSet ba | memcSet key | memcBasic data => exact ⟨_, _, rfl⟩
  | redisMset ba | redisMget ba | redisDel ba | memcGet data size =>
    obtain ⟨r, -, h⟩ := Option.bind_eq_some_iff.mp h
    cases h
  | stats protocol | error reply => cases h

end AnyCommand

namespace ClientConn

section Roster
variable {C : Type} {c : ClientConn C} {a b : Active C}

theorem Ordered.count_eq (ho : c.Ordered) : c.count = c.roster.length := by
  have hlen := congrArg List.length ho.ids
  rw [List.length_map, List.length_range] at hlen
  exact hlen.symm

theorem Ordered.roster_lt (ho : c.Ordered) (ha : a ∈ c.roster) : a.id < c.count := by
  rw [← List.mem_range, ← ho.ids]
  exact List.mem_map_of_mem ha

theorem Ordered.roster_eq (ho : c.Ordered) (ha : a ∈ c.roster) (hb : b ∈ c.roster)
    (hid : a.id = b.id) : a = b :=
  List.inj_on_of_nodup_map (ho.ids ▸ List.nodup_range) ha hb hid

theorem Ordered.back_id (ho : c.Ordered) (hb : c.back = some a) : a.id + 1 = c.count := by
  obtain ⟨init, hq⟩ := back_split hb
  have hids := ho.ids
  rw [hq, ← List.append_assoc, List.map_append, List.map_singleton] at hids
  have hlen := congrArg List.length hids
  rw [List.length_append, List.length_singleton, List.length_range] at hlen
  have hlast := congrArg List.getLast? hids
  rw [List.getLast?_concat, ← hlen, List.range_succ, List.getLast?_concat] at hlast
  rw [Option.some.inj hlast, hlen]

theorem Ordered.eq_back (ho : c.Ordered) (hb : c.back = some b) (ha : a ∈ c.roster)
    (hid : a.id + 1 = c.count) : a = b := by
  refine ho.roster_eq ha (List.mem_append_right _ (back_mem hb)) ?_
  have := ho.back_id hb
  omega

end Roster

variable (stream : Bytes) (start : ℕ → ℕ)

/-- Every command has been handed bytes of its own request. -/
def Passed (c : ClientConn (AnyCommand ε)) : Prop :=
  ∀ a ∈ c.roster, a.cmd.HandedOver (stream.drop (start a.id))

/-- The requests stand one behind the other. -/
structure Adjoins (c : ClientConn (AnyCommand ε)) : Prop where
  first : 0 < c.count → start 0 = 0
  next : ∀ a ∈ c.roster, ∀ b ∈ c.roster, ∀ k, a.cmd = .single k → b.id = a.id + 1 →
    k.queryRecvComplete = true ∧ start b.id = start a.id + k.handed.length

/-- Where the connection is in the stream: behind what the last command has been handed. -/
structure Follows (c : ClientConn (AnyCommand ε)) : Prop where
  tail : c.buffer.queued <:+ stream
  first : c.count = 0 → c.left = stream
  last : ∀ a ∈ c.roster, ∀ k, a.id + 1 = c.count → a.cmd = .single k →
    start a.id ≤ stream.length ∧ stream.drop (start a.id) = k.handed ++ c.left
  marks : ∀ a k, c.back = some a → a.cmd = .single k → k.queryRecvComplete = false →
    ∀ r : SingleRequest, r.Fits → Agrees r.bytes (stream.drop (start a.id)) →
      r.Marks k.kind k.unparsedBulks (k.handed.length + c.beyond)
  done : ∀ a ∈ c.gone, ∀ k, a.cmd = .single k → k.queryRecvComplete = true
  quiet : c.Asks → c.Rests

section Places
variable {stream : Bytes} {start start' : ℕ → ℕ}
variable {c c' : ClientConn (AnyCommand ε)} {a b : Active (AnyCommand ε)} {k : SingleCommand ε}

theorem drop_append_extends (stream chunk : Bytes) (n : ℕ) :
    stream.drop n <+: (stream ++ chunk).drop n := by
  rw [List.drop_append]
  exact List.prefix_append ..

theorem Passed.mono (h : c.Passed stream start) (chunk : Bytes) :
    c.Passed (stream ++ chunk) start :=
  fun a ha => (h a ha).mono (drop_append_extends ..)

theorem Follows.received (h : c.Follows stream start) (hv : c.buffer.Valid) (ht : c.todo = [])
    {chunk : Bytes} (hc : chunk.length ≤ c.buffer.freeSpaceSize) :
    (c.received chunk).Follows (stream ++ chunk) start := by
  have hv' := ReadBuffer.receive_valid hv hc
  have hqueued : (c.received chunk).buffer.queued = c.buffer.queued ++ chunk :=
    (ReadBuffer.queued_decRecycleLock hv').trans (ReadBuffer.queued_receive hv hc)
  have hahead : (c.received chunk).buffer.ahead = c.buffer.ahead :=
    (ReadBuffer.ahead_decRecycleLock hv').trans ReadBuffer.ahead_receive
  have hidle : (c.received chunk).sends = false := sends_nil ht
  have hleft : (c.received chunk).left = c.left ++ chunk := by
    rw [left_of_idle hidle, left_of_idle (sends_nil ht), hqueued]
  have hbeyond : (c.received chunk).beyond = c.beyond := by
    rw [beyond_of_idle hidle, beyond_of_idle (sends_nil ht), hahead]
  refine ⟨?_, fun h0 => ?_, fun a ha k hid hk => ?_, fun a k hb hk hinc r hf hr => ?_, h.done,
    fun hasks => ?_⟩
  · obtain ⟨front, hfront⟩ := h.tail
    exact ⟨front, by rw [hqueued, ← List.append_assoc, hfront]⟩
  · rw [hleft, h.first h0]
  · obtain ⟨hle, hbytes⟩ := h.last a ha k hid hk
    refine ⟨hle.trans (List.prefix_append ..).length_le, ?_⟩
    rw [List.drop_append_of_le_length hle, hbytes, hleft, List.append_assoc]
  · rw [hbeyond]
    exact h.marks a k hb hk hinc r hf (hr.mono (drop_append_extends ..))
  · have hreading := hasks.reading fun t hm => by
      rw [show (c.received chunk).todo = [] from ht] at hm
      cases hm
    cases hreading

theorem Passed.congr (h : c.Passed stream start) (hs : ∀ a ∈ c.roster, start' a.id = start a.id) :
    c.Passed stream start' := by
  intro a ha
  rw [hs a ha]
  exact h a ha

theorem Follows.congr (h : c.Follows stream start) (hs : ∀ a ∈ c.roster, start' a.id = start a.id) :
    c.Follows stream start' := by
  refine ⟨h.tail, h.first, fun a ha => ?_, fun a k hb => ?_, h.done, h.quiet⟩
  · rw [hs a ha]
    exact h.last a ha
  · rw [hs a (List.mem_append_right _ (back_mem hb))]
    exact h.marks a k hb

theorem Carries.count_eq (h : c.Carries c') (ho : c.Ordered) (ho' : c'.Ordered) :
    c'.count = c.count := by
  obtain ⟨out, stay, g, hq, hg, hs, -⟩ := h
  rw [ho.count_eq, ho'.count_eq, roster, roster, hq, hg, hs]
  simp only [List.length_append, List.length_map]
  omega

theorem Carries.passed (h : c.Carries c') (hp : c.Passed stream start) :
    c'.Passed stream start := by
  intro a' ha'
  obtain ⟨a, ha, hid, hk⟩ := h.mem_roster ha'
  rw [hid]
  exact (hp a ha).keeps hk

theorem Carries.adjoins (h : c.Carries c') (hcount : c'.count = c.count) (ha : c.Adjoins start) :
    c'.Adjoins start := by
  refine ⟨fun h0 => ha.first (hcount ▸ h0), fun a' ha' b' hb' k' hk' hid => ?_⟩
  obtain ⟨a, hma, hida, hka⟩ := h.mem_roster ha'
  obtain ⟨b, hmb, hidb, -⟩ := h.mem_roster hb'
  rw [hk'] at hka
  obtain ⟨k, hk, hkeeps⟩ := hka.of_single
  rw [hkeeps.complete, hkeeps.handed, hida, hidb]
  exact ha.next a hma b hmb k hk (by rw [← hida, ← hidb, hid])

theorem Carries.rests (h : c.Carries c') (hr : c.Rests) : c'.Rests := by
  intro a' k' hb' hk' hinc
  obtain ⟨a, hb, -, hka⟩ := h.back hb'
  rw [hk'] at hka
  obtain ⟨k, hk, hkeeps⟩ := hka.of_single
  have hq := hr a k hb hk (hkeeps.complete.symm.trans hinc)
  rcases hkeeps.span with hspan | hspan
  · exact hspan
  · rw [hq] at hspan
    exact Option.map_eq_none_iff.mp hspan

theorem Carries.follows (h : c.Carries c') (hs : c.Still c') (ho' : c'.Ordered)
    (hcount : c'.count = c.count) (hf : c.Follows stream start) : c'.Follows stream start := by
  refine ⟨hs.tail.trans hf.tail, fun h0 => ?_, fun a' ha' k' hid hk' => ?_,
    fun a' k' hb' hk' hinc r hr hag => ?_, fun a ha => ?_, fun hasks => ?_⟩
  · rcases hs.same with ⟨hleft, -⟩ | ⟨a, hb, -⟩
    · rw [hleft]
      exact hf.first (hcount ▸ h0)
    · have := ho'.back_id hb
      omega
  · rcases hs.same with ⟨hleft, -⟩ | ⟨a, hb, hother⟩
    · obtain ⟨a, ha, hida, hka⟩ := h.mem_roster ha'
      rw [hk'] at hka
      obtain ⟨k, hk, hkeeps⟩ := hka.of_single
      rw [hida, hleft, hkeeps.handed]
      exact hf.last a ha k (by rw [← hida, hid, hcount]) hk
    · -- the last command is of another class
      rw [ho'.eq_back hb ha' hid] at hk'
      exact absurd hk' (hother k')
  · rcases hs.same with ⟨-, hbeyond⟩ | ⟨a, hb, hother⟩
    · obtain ⟨a, hb, hida, hka⟩ := h.back hb'
      rw [hk'] at hka
      obtain ⟨k, hk, hkeeps⟩ := hka.of_single
      obtain ⟨hkind, hbulks, -⟩ := SingleCommand.of_core hkeeps.core
      rw [hida] at hag
      rw [hkind, hbulks, hkeeps.handed, hbeyond]
      exact hf.marks a k hb hk (hkeeps.complete.symm.trans hinc) r hr hag
    · obtain rfl := Option.some.inj (hb.symm.trans hb')
      exact absurd hk' (hother k')
  · rcases hs.leaves a ha with hold | hnew
    · exact hf.done a hold
    · exact hnew
  · exact (hs.asks hasks).elim (fun hold => h.rests (hf.quiet hold)) id

/-- The step has changed or added the last command. -/
structure Renews (c c' : ClientConn (AnyCommand ε)) (b : Active (AnyCommand ε)) : Prop where
  back : c'.back = some b
  queue : ∀ a ∈ c'.activeCmdQueue, a = b ∨ a ∈ c.activeCmdQueue
  gone : c'.gone = c.gone

theorem Renews.others (h : c.Renews c' b) (ha : a ∈ c'.roster) : a = b ∨ a ∈ c.roster := by
  rw [roster, h.gone, List.mem_append] at ha
  rcases ha with hgone | hactive
  · exact .inr (List.mem_append_left _ hgone)
  · exact (h.queue a hactive).imp_right fun hold => List.mem_append_right _ hold

theorem Renews.passed (h : c.Renews c' b) (hp : c.Passed stream start)
    (hb : b.cmd.HandedOver (stream.drop (start b.id))) : c'.Passed stream start := by
  intro a ha
  rcases h.others ha with rfl | ha
  · exact hb
  · exact hp a ha

theorem Renews.adjoins (h : c.Renews c' b) (ho' : c'.Ordered) (ha : c.Adjoins start)
    (h0 : start 0 = 0) (hb : ∀ a ∈ c.roster, ∀ k, a.cmd = .single k → b.id = a.id + 1 →
      k.queryRecvComplete = true ∧ start b.id = start a.id + k.handed.length) :
      c'.Adjoins start := by
  refine ⟨fun _ => h0, fun a ha' d hd' k hk hid => ?_⟩
  rcases h.others ha' with rfl | hold
  · -- nothing stands behind the last command
    have hlast := ho'.back_id h.back
    have hlt := ho'.roster_lt hd'
    omega
  · rcases h.others hd' with rfl | hd
    · exact hb a hold k hk hid
    · exact ha.next a hold d hd k hk hid

theorem Renews.follows (h : c.Renews c' b) (ho' : c'.Ordered) (hf : c.Follows stream start)
    (htail : c'.buffer.queued = c.buffer.queued)
    (hlast : ∀ k, b.cmd = .single k →
      start b.id ≤ stream.length ∧ stream.drop (start b.id) = k.handed ++ c'.left)
    (hmarks : ∀ k, b.cmd = .single k → k.queryRecvComplete = false → ∀ r : SingleRequest, r.Fits →
      Agrees r.bytes (stream.drop (start b.id)) →
        r.Marks k.kind k.unparsedBulks (k.handed.length + c'.beyond))
    (hquiet : c'.Asks → c'.Rests) : c'.Follows stream start := by
  refine ⟨htail ▸ hf.tail, fun h0 => ?_, fun a ha k hid hk => ?_, fun a k hb hk => ?_, ?_, hquiet⟩
  · have := ho'.back_id h.back
    omega
  · obtain rfl := ho'.eq_back h.back ha hid
    exact hlast k hk
  · obtain rfl := Option.some.inj (h.back.symm.trans hb)
    exact hmarks k hk
  · rw [h.gone]
    exact hf.done

theorem renews_setCmd (ho : c.Ordered) (hb : c.back = some a) {cmd : AnyCommand ε}
    (hq : c'.activeCmdQueue = (c.setCmd a.id cmd).activeCmdQueue) (hg : c'.gone = c.gone) :
    c.Renews c' { a with cmd := cmd } := by
  refine ⟨?_, fun a' ha' => ?_, hg⟩
  · have hlast : c'.back = c.back.map fun a' =>
        if a'.id = a.id then { a' with cmd := cmd } else a' := by
      rw [ClientConn.back, hq]
      exact List.getLast?_map ..
    rw [hlast, hb, Option.map_some, if_pos rfl]
  · rw [hq] at ha'
    obtain ⟨a₀, ha₀, rfl⟩ := List.mem_map.mp ha'
    split
    next hid =>
      rw [ho.eq_of_id ha₀ (back_mem hb) hid]
      exact .inl rfl
    next => exact .inr ha₀

theorem renews_start (ho : c.Ordered) (n : ℕ) (created : Created) (buffer : ReadBuffer)
    (cmd : AnyCommand ε) (ts : List Task)
    (f : Ctx (AnyCommand ε) → Ctx (AnyCommand ε) × List Task) :
    c.Renews ((append { c with todo := ts } n created buffer cmd).run ⟨c.count, created, cmd⟩ f)
      ⟨c.count, created, (f ((append { c with todo := ts } n created buffer cmd).ctx
        ⟨c.count, created, cmd⟩)).1.cmd⟩ := by
  have hback : (append { c with todo := ts } n created buffer cmd).back =
      some ⟨c.count, created, cmd⟩ :=
    List.getLast?_concat ..
  refine ⟨back_run hback, fun a' ha' => ?_, rfl⟩
  rw [queue_run] at ha'
  obtain ⟨a₀, ha₀, rfl⟩ := List.mem_map.mp ha'
  rcases List.mem_append.mp ha₀ with hold | hnew
  · have hlt := ho.id_lt (List.mem_map_of_mem hold)
    rw [if_neg (Nat.ne_of_lt hlt)]
    exact .inr hold
  · obtain rfl := List.mem_singleton.mp hnew
    exact .inl (if_pos rfl)

theorem Adjoins.last (h : c.Adjoins start) (hb : c.back = some a) {cmd : AnyCommand ε} :
    ∀ a' ∈ c.roster, ∀ k, a'.cmd = .single k → ({ a with cmd := cmd } : Active (AnyCommand ε)).id =
      a'.id + 1 →
      k.queryRecvComplete = true ∧ start a.id = start a'.id + k.handed.length :=
  fun a' ha' k hk hid => h.next a' ha' a (List.mem_append_right _ (back_mem hb)) k hk hid

theorem Adjoins.zero (h : c.Adjoins start) (ho : c.Ordered) (hb : c.back = some a) :
    start 0 = 0 := by
  apply h.first
  have := ho.back_id hb
  omega

theorem follows_parse {m : ℕ} (hf : c.Follows stream start) (ho : c.Ordered) (ho' : c'.Ordered)
    (hv : c.buffer.Valid) (hb : c.back = some a) (hk : a.cmd = .single k)
    (hkind : k.kind = .redisSet) (hinc : k.queryRecvComplete = false)
    (hloop : parseUnparsedLoop k.unparsedBulks c.buffer = some (c'.buffer, m, true))
    (hparsed : c.buffer.Parsed c'.buffer)
    (hr : c.Renews c' { a with cmd := .single { k with unparsedBulks := m } })
    (hs : c.sends = false) (hs' : c'.sends = false) (hrests : c'.Rests) :
    c'.Follows stream start := by
  obtain ⟨hle, hbytes⟩ := hf.last a (List.mem_append_right _ (back_mem hb)) k (ho.back_id hb) hk
  have hleft : c'.left = c.left := by rw [left_of_idle hs, left_of_idle hs', hparsed.queued]
  refine hr.follows ho' hf hparsed.queued (fun k' hk' => ?_) (fun k' hk' _ r hfits hag => ?_)
    fun _ => hrests
  · obtain rfl := AnyCommand.single.inj hk'
    exact ⟨hle, hleft.symm ▸ hbytes⟩
  · obtain rfl := AnyCommand.single.inj hk'
    have hmarks := hf.marks a k hb hk hinc r hfits hag
    rw [hkind, beyond_of_idle hs] at hmarks
    have hunparsed : c.buffer.unparsed =
        (stream.drop (start a.id)).drop (k.handed.length + c.buffer.ahead) := by
      rw [hbytes, left_of_idle hs, ← List.drop_drop, List.drop_left]
      rfl
    obtain ⟨j, hahead, hmarks⟩ := hmarks.parse hfits hag hv hunparsed hloop
    rw [Nat.add_assoc] at hmarks
    show r.Marks k.kind m (k.handed.length + c'.beyond)
    rw [hkind, beyond_of_idle hs', hahead]
    exact hmarks

theorem passed_parse {m : ℕ} (hp : c.Passed stream start) (hb : c.back = some a)
    (hk : a.cmd = .single k)
    (hr : c.Renews c' { a with cmd := .single { k with unparsedBulks := m } }) :
    c'.Passed stream start := by
  have hold := hp a (List.mem_append_right _ (back_mem hb))
  rw [hk] at hold
  exact hr.passed hp
    ⟨⟨hold.orderly.aborted, hold.orderly.reading,
    fun h => ⟨(hold.orderly.silent h).isWriting, (hold.orderly.silent h).unprocessed,
    (hold.orderly.silent h).noRecycle⟩⟩, hold.stream, hold.within, hold.whole⟩

end Places

section Writing
variable {stream : Bytes} {s : ℕ} {d : ClientConn (AnyCommand ε)} {a : Active (AnyCommand ε)}
variable {k : SingleCommand ε} {y : Ctx (SingleCommand ε)} {t : Task}
variable {f : Ctx (AnyCommand ε) → Ctx (AnyCommand ε) × List Task}

/-- The last command, with one backend, writes what there is of its request. -/
structure Writing (d : ClientConn (AnyCommand ε)) (a : Active (AnyCommand ε)) (k : SingleCommand ε)
    (f : Ctx (AnyCommand ε) → Ctx (AnyCommand ε) × List Task) (y : Ctx (SingleCommand ε))
    (t : Task) : Prop where
  handler : f (d.ctx a) = (y.as .single, [t])
  writes : SingleCommand.Writes ⟨d.buffer, d.isFirst a.id, k, []⟩ y
  sending : t.sending = true
  asking : t.asking = false
  later : ∀ t ∈ d.todo, t.later = true
  reading : d.isReadingQuery = false
  valid : d.buffer.Valid
  consistent : k.Consistent

theorem Writing.todo (h : Writing d a k f y t) : (d.run a f).todo = t :: d.todo := by
  have heff : y.effects = [] := h.writes.effects
  rw [todo_run, h.handler]
  simp only [Ctx.as, heff]
  rfl

theorem Writing.kept (h : Writing d a k f y t) : d.buffer.Kept (d.run a f).buffer := by
  rw [buffer_run, h.handler]
  exact h.writes.buffer ▸ (ReadBuffer.Kept.refl h.valid).incRecycleLock

theorem Writing.pending (h : Writing d a k f y t) :
    (d.run a f).pending = min d.buffer.queued.length d.buffer.ahead := by
  have hs : (d.run a f).sends = true := by
    rw [sends, h.todo, List.any_cons, h.sending, Bool.true_or]
  rw [ClientConn.pending, hs, h.kept.queued, h.kept.ahead]
  rfl

theorem Writing.not_asks (h : Writing d a k f y t) : ¬ (d.run a f).Asks := by
  rintro (hr | ⟨t', ht', hask⟩)
  · exact absurd (h.reading.symm.trans hr) Bool.false_ne_true
  · rw [h.todo] at ht'
    rcases List.mem_cons.mp ht' with rfl | ht'
    · exact absurd (h.asking.symm.trans hask) Bool.false_ne_true
    · exact absurd ((Task.quiet_of_later (h.later t' ht')).2.symm.trans hask) Bool.false_ne_true

theorem Writing.intact (h : Writing d a k f y t) : y.cmd.Intact (d.run a f).buffer := by
  rw [buffer_run, h.handler]
  exact h.writes.intact h.valid

theorem Writing.bytes (h : Writing d a k f y t) (hb : stream.drop s = k.handed ++ d.buffer.queued) :
    stream.drop s = y.cmd.handed ++ (d.run a f).left := by
  rw [hb, h.writes.handed, left, h.pending, h.kept.queued, List.append_assoc, List.take_append_drop]

theorem Writing.marks (h : Writing d a k f y t) {r : SingleRequest}
    (hm : r.Marks k.kind k.unparsedBulks (k.handed.length + d.buffer.ahead)) :
    r.Marks y.cmd.kind y.cmd.unparsedBulks (y.cmd.handed.length + (d.run a f).beyond) := by
  obtain ⟨received, hr⟩ := SingleCommand.checkQueryRecvComplete_eq k d.buffer
  have hcore := h.writes.core
  dsimp only at hcore
  rw [hr] at hcore
  obtain ⟨hkind, hbulks, -⟩ := SingleCommand.of_core hcore
  have hlen : y.cmd.handed.length + (d.run a f).beyond = k.handed.length + d.buffer.ahead := by
    rw [h.writes.handed, beyond, h.pending, h.kept.ahead, List.length_append, List.length_take]
    dsimp only
    omega
  rw [hkind, hbulks, hlen]
  exact hm

end Writing

section Advances
variable {stream : Bytes} {start : ℕ → ℕ} {c c' : ClientConn (AnyCommand ε)}

/-- The places of the requests: that of a new one is where the buffer begins. -/
def starts (stream : Bytes) (start : ℕ → ℕ) (c c' : ClientConn (AnyCommand ε)) : ℕ → ℕ :=
  if c'.count = c.count then start
  else Function.update start c.count (stream.length - c.buffer.queued.length)

theorem starts_same (h : c'.count = c.count) : starts stream start c c' = start := if_pos h

/-- What is being written has been in flight before, or it has just been taken from the buffer. -/
def Flies (c c' : ClientConn (AnyCommand ε)) : Prop :=
  ∀ a ∈ c'.activeCmdQueue, ∀ k, a.cmd = .single k → k.Intact c'.buffer ∨
    ∃ a₀ ∈ c.activeCmdQueue, ∃ k₀, a₀.cmd = .single k₀ ∧
      k.backend.query.map QueryOp.span = k₀.backend.query.map QueryOp.span

theorem Carries.flies (h : c.Carries c') : c.Flies c' := by
  intro a ha k hk
  obtain ⟨a₀, ha₀, -, hka⟩ := h.mem ha
  rw [hk] at hka
  obtain ⟨k₀, hk₀, hkeeps⟩ := hka.of_single
  rcases hkeeps.span with hnone | hsame
  · left
    intro p hp
    rw [hnone] at hp
    cases hp
  · exact .inr ⟨a₀, ha₀, k₀, hk₀, hsame⟩

theorem Renews.flies {b : Active (AnyCommand ε)} (h : c.Renews c' b)
    (hb : ∀ k, b.cmd = .single k → k.Intact c'.buffer ∨ ∃ a₀ ∈ c.activeCmdQueue, ∃ k₀,
      a₀.cmd = .single k₀ ∧ k.backend.query.map QueryOp.span = k₀.backend.query.map QueryOp.span) :
    c.Flies c' := by
  intro a ha k hk
  rcases h.queue a ha with rfl | hold
  · exact hb k hk
  · exact .inr ⟨a, hold, k, hk, rfl⟩

/-- What a move does to the places of the requests. -/
structure Advances (stream : Bytes) (start : ℕ → ℕ) (c c' : ClientConn (AnyCommand ε)) : Prop where
  passed : c'.Passed stream start
  adjoins : c'.Adjoins start
  follows : c'.live → c'.Doomed ∨ c'.Follows stream start
  flies : c.Flies c'

theorem keep_advances (h : c.Carries c') (hs : c'.live → c'.Doomed ∨ c.Still c') (ho : c.Ordered)
    (ho' : c'.Ordered) (hp : c.Passed stream start) (ha : c.Adjoins start)
    (hf : c.Follows stream start) : Advances stream (starts stream start c c') c c' := by
  have hcount := h.count_eq ho ho'
  rw [starts_same hcount]
  exact ⟨h.passed hp, h.adjoins hcount ha,
    fun hlive => (hs hlive).imp_right fun hs => h.follows hs ho' hcount hf, h.flies⟩

/-- The request of a new command begins where the buffer begins, behind the last one. -/
theorem start_adjoins (hf : c.Follows stream start) (ha : c.Adjoins start) (ho : c.Ordered)
    (hidle : c.sends = false)
    (hcomplete : ∀ a k, c.back = some a → a.cmd = .single k → k.queryRecvComplete = true)
    {s : ℕ} (hs : s = stream.length - c.buffer.queued.length) {b : Active (AnyCommand ε)}
    (hb : b.id = c.count) (hr : c.Renews c' b) (ho' : c'.Ordered) :
    c'.Adjoins (Function.update start c.count s) := by
  have hqueued := hf.tail.length_le
  have hold : ∀ a ∈ c.roster, Function.update start c.count s a.id = start a.id := fun a ha =>
    Function.update_of_ne (Nat.ne_of_lt (ho.roster_lt ha)) ..
  have hnew : Function.update start c.count s b.id = s := by rw [hb, Function.update_self]
  have hadj : c.Adjoins (Function.update start c.count s) := by
    refine ⟨fun h0 => ?_, fun a ha' d hd k hk hid => ?_⟩
    · rw [Function.update_of_ne (Nat.ne_of_lt h0)]
      exact ha.first h0
    · rw [hold a ha', hold d hd]
      exact ha.next a ha' d hd k hk hid
  refine hr.adjoins ho' hadj ?_ fun a ha' k hk hid => ?_
  · cases hc : c.count with
    | zero =>
      have hleft := hf.first hc
      rw [left_of_idle hidle] at hleft
      rw [Function.update_self, hs, hleft, Nat.sub_self]
    | succ m =>
      rw [Function.update_of_ne (Nat.succ_ne_zero m).symm]
      exact ha.first (by omega)
  · have hlast : a.id + 1 = c.count := by rw [← hid, hb]
    obtain ⟨hle, hbytes⟩ := hf.last a ha' k hlast hk
    have hlen := congrArg List.length hbytes
    rw [left_of_idle hidle, List.length_drop, List.length_append] at hlen
    rw [hold a ha', hnew]
    refine ⟨?_, by omega⟩
    rcases List.mem_append.mp ha' with hgone | hactive
    · exact hf.done a hgone k hk
    · obtain ⟨last, hback⟩ : ∃ last, c.back = some last :=
        ⟨_, List.getLast?_eq_some_getLast (List.ne_nil_of_mem hactive)⟩
      have heq := ho.eq_back hback ha' hlast
      exact hcomplete a k (heq ▸ hback) hk

end Advances

theorem created_made {c : ClientConn (AnyCommand ε)} {n : ℕ} {created : Created}
    (hv : c.buffer.Valid)
    (hc : createCommand c.buffer.bufferSize c.buffer.unprocessedData c.buffer.queued.length =
      some (n, some created)) {r : SingleRequest} (hf : r.Fits)
      (ha : Agrees r.bytes c.buffer.queued) :
    Made r n created := by
  have hbounds := ReadBuffer.unprocessed_bounds hv
  refine SingleRequest.made hf hbounds.1 hbounds.2 ?_ hc
  rw [ReadBuffer.unprocessedData_bytes hv le_rfl, List.take_length]
  exact ha

section Moves
variable [DecidableEq ε] [Inhabited ε] {env : AnyCommand.Env ε}
variable {stream : Bytes} {start : ℕ → ℕ} {c c' : ClientConn (AnyCommand ε)}
variable {a : Active (AnyCommand ε)} {k : SingleCommand ε}

variable (env) in
theorem continue_writing (hp : c.Passed stream start) (hf : c.Follows stream start)
    (hv : c.buffer.Valid) (hheld : ∀ a ∈ c.activeCmdQueue, a.cmd.Sound) (hb : c.back = some a)
    (hk : a.cmd = .single k) (hinc : k.queryRecvComplete = false)
    (ht : c.todo = [.parsed (some a.id)]) (hr : c.isReadingQuery = false) :
    ∃ y, Writing { c with todo := [] } a k (fun x =>
      (((AnyCommand.family env).continueWriteQuery x).1,
        [.continued (some a.id) ((AnyCommand.family env).continueWriteQuery x).2])) y
      (.continued (some a.id) false) := by
  have horder : k.Orderly := by
    have hold := hp a (List.mem_append_right _ (back_mem hb))
    rw [hk] at hold
    exact hold.orderly
  have hquery :=
    hf.quiet (.inr ⟨_, by rw [ht]; exact List.mem_singleton_self _, rfl⟩) a k hb hk hinc
  obtain ⟨hw, hflag⟩ := SingleCommand.continueWriteQuery_writes
    (x := ⟨c.buffer, c.isFirst a.id, k, []⟩) horder hv hinc hquery
  have hsound := hheld a (back_mem hb)
  rw [hk] at hsound
  refine ⟨_, ?_, hw, rfl, rfl, fun _ h => absurd h List.not_mem_nil, hr, hv, hsound⟩
  have hl := (AnyCommand.lifts_single env).continueWriteQuery ⟨c.buffer, c.isFirst a.id, k, []⟩
  have hctx : ctx { c with todo := [] } a = Ctx.as .single ⟨c.buffer, c.isFirst a.id, k, []⟩ := by
    rw [ctx, Ctx.as, hk]
    rfl
  rw [hctx, hl]
  dsimp only
  rw [show (SingleCommand.handlers (ε := ε)).continueWriteQuery =
    SingleCommand.continueWriteQuery from rfl, hflag]

section Start
variable {n : ℕ} {created : Created} {buffer : ReadBuffer} {cmd : AnyCommand ε} {ts : List Task}

/-- A new command of another class is not made of a request for one backend. -/
theorem handedOver_other (hv : c.buffer.Valid)
    (hc : createCommand c.buffer.bufferSize c.buffer.unprocessedData c.buffer.queued.length =
      some (n, some created))
    (hcon : AnyCommand.construct env c.count c.buffer created = some (buffer, cmd))
    (hcmd : ∀ k, cmd ≠ .single k) : cmd.HandedOver c.buffer.queued := by
  have hlocal : ∀ r : SingleRequest, r.Fits → Agrees r.bytes c.buffer.queued →
      ∃ l, cmd = .local_ l := by
    intro r hf ha
    rcases created_made hv hc hf ha with ⟨reply, rfl⟩ | ⟨kind, missing, hs, -⟩
    · exact ⟨_, AnyCommand.construct_error hcon⟩
    · obtain ⟨-, key, hnew⟩ := AnyCommand.construct_single hcon hs
      exact absurd hnew (hcmd _)
  cases cmd with
  | single k => exact absurd rfl (hcmd k)
  | local_ l => exact trivial
  | _ =>
    intro r hf ha
    obtain ⟨l, hl⟩ := hlocal r hf ha
    cases hl

variable (env) in
theorem start_writing (hv : c.buffer.Valid)
    (hcon : AnyCommand.construct env c.count c.buffer created = some (buffer, .single k))
    (hn : n < 2 ^ 63) (h0 : c.buffer.ahead = 0) (hl : ∀ t ∈ ts, t.later = true)
    (hr : c.isReadingQuery = false) :
    ∃ y, Writing (append { c with todo := ts } n created buffer (.single k))
      ⟨c.count, created, .single k⟩ k
      (fun x => (((AnyCommand.family env).startWriteQuery x).1,
        [.started c.count ((AnyCommand.family env).startWriteQuery x).2])) y
          (.started c.count false) ∧
      buffer = c.buffer ∧ k.handed = [] ∧
      (append { c with todo := ts } n created buffer (.single k)).buffer.ahead = n ∧
      (append { c with todo := ts } n created buffer (.single k)).buffer.queued = c.buffer.queued ∧
      ∃ kind missing, created.single = some (kind, missing) ∧ k.kind = kind ∧
        k.unparsedBulks = missing := by
  obtain ⟨kind, missing, hs⟩ := AnyCommand.single_of_construct hcon
  obtain ⟨rfl, key, hnew⟩ := AnyCommand.construct_single hcon hs
  obtain ⟨-, hfresh, -⟩ := AnyCommand.construct_kept env hv hcon
  obtain rfl := AnyCommand.single.inj hnew
  have hoff := ReadBuffer.parsedOffset_le hv
  have hsum : c.buffer.parsedOffset + n < 2 ^ 64 := by omega
  have hv' := ReadBuffer.updateParsedBytes_valid hv hsum
  have hahead := ReadBuffer.ahead_updateParsedBytes hv hsum
  rw [h0, Nat.zero_add] at hahead
  exact ⟨_,
    ⟨rfl, SingleCommand.startWriteQuery_writes (SingleCommand.idle_new ..) hv', rfl, rfl, hl, hr,
    hv', hfresh⟩, rfl, rfl, hahead, rfl, kind, missing, hs, rfl, rfl⟩

end Start

theorem write_advances (hb : c.back = some a) (hk : a.cmd = .single k)
    (hinc : k.queryRecvComplete = false) (ht : c.todo = [.parsed (some a.id)])
    (hr : c.isReadingQuery = false) (ho : c.Ordered) (hv : c.buffer.Valid)
    (hheld : ∀ a ∈ c.activeCmdQueue, a.cmd.Sound) (hp : c.Passed stream start)
    (ha : c.Adjoins start) (hf : c.Follows stream start)
    (hc' : c' = run { c with todo := [] } a
      fun x => (((AnyCommand.family env).continueWriteQuery x).1,
      [.continued (some a.id) ((AnyCommand.family env).continueWriteQuery x).2])) :
    Advances stream (starts stream start c c') c c' := by
  obtain ⟨y, hw⟩ := continue_writing env hp hf hv hheld hb hk hinc ht hr
  have hod : Ordered { c with todo := [] } := ho.of_eq rfl rfl rfl
  have ho' : c'.Ordered := by
    rw [hc']
    exact hod.run
  have hcount : c'.count = c.count := by rw [hc']; rfl
  have hidle : c.sends = false := by rw [sends, ht]; rfl
  obtain ⟨hle, hbytes⟩ := hf.last a (List.mem_append_right _ (back_mem hb)) k (ho.back_id hb) hk
  have hmarks := hf.marks a k hb hk hinc
  rw [left_of_idle hidle] at hbytes
  rw [beyond_of_idle hidle] at hmarks
  have hrenews : c.Renews c' { a with cmd := .single y.cmd } := by
    refine renews_setCmd ho hb ?_ (by rw [hc']; rfl)
    rw [hc', queue_run, hw.handler]
    rfl
  rw [starts_same hcount]
  refine ⟨hrenews.passed hp ?_, hrenews.adjoins ho' ha (ha.zero ho hb) (ha.last hb),
    fun _ => .inr ?_, hrenews.flies fun k' hk' => .inl ?_⟩
  · refine hw.writes.handedOver hv hw.consistent hbytes (fun h => ?_) hmarks
    exact absurd (hinc.symm.trans h) Bool.false_ne_true
  · refine hrenews.follows ho' hf ?_ (fun k' hk' => ?_) (fun k' hk' _ r hfits hag => ?_)
      fun hasks => ?_
    · rw [hc']
      exact hw.kept.queued
    · obtain rfl := AnyCommand.single.inj hk'
      refine ⟨hle, ?_⟩
      rw [hc']
      exact hw.bytes hbytes
    · obtain rfl := AnyCommand.single.inj hk'
      rw [hc']
      exact hw.marks (hmarks r hfits hag)
    · rw [hc'] at hasks
      exact absurd hasks hw.not_asks
  · obtain rfl := AnyCommand.single.inj hk'
    rw [hc']
    exact hw.intact

section Start
variable {n : ℕ} {created : Created} {buffer : ReadBuffer} {cmd : AnyCommand ε} {ts : List Task}

/-- A new command for one backend writes what there is of its request. -/
theorem start_single
    (hc : createCommand c.buffer.bufferSize c.buffer.unprocessedData c.buffer.queued.length =
      some (n, some created))
    (hcon : AnyCommand.construct env c.count c.buffer created = some (buffer, .single k))
    (hn : n < 2 ^ 63) (hwhole : created.whole = true → n ≤ c.buffer.queued.length)
    (h0 : c.buffer.ahead = 0) (hl : ∀ t ∈ ts, t.later = true) (hr : c.isReadingQuery = false)
    (ho : c.Ordered) (hv : c.buffer.Valid)
    (hc' : c' = startCommand (AnyCommand.family env) { c with todo := ts } n created buffer
      (.single k))
    (ho' : c'.Ordered) (hbegun : start c.count ≤ stream.length)
    (hplace : stream.drop (start c.count) = c.buffer.queued) (hp : c.Passed stream start)
    (hf : c.Follows stream start) :
    c'.Passed stream start ∧ c'.Follows stream start ∧ c.Flies c' := by
  obtain ⟨-, -, hrecv⟩ := AnyCommand.construct_kept env hv hcon
  obtain ⟨y, hw, rfl, hnil, hahead, hqueued, kind, missing, hmade, rfl, rfl⟩ :=
    start_writing env hv hcon hn h0 hl hr
  have hrenews := renews_start ho n created c.buffer (.single k) ts fun x =>
    (((AnyCommand.family env).startWriteQuery x).1,
      [.started c.count ((AnyCommand.family env).startWriteQuery x).2])
  rw [hw.handler] at hrenews
  rw [startCommand_eq] at hc'
  subst hc'
  have hbytes : stream.drop (start c.count) = k.handed ++
      (append { c with todo := ts } n created c.buffer (.single k)).buffer.queued := by
    rw [hplace, hnil, hqueued]
    rfl
  have hmarks : ∀ r : SingleRequest, r.Fits → Agrees r.bytes (stream.drop (start c.count)) →
      r.Marks k.kind k.unparsedBulks (k.handed.length +
        (append { c with todo := ts } n created c.buffer (.single k)).buffer.ahead) := by
    intro r hfits hag
    rw [hplace] at hag
    rw [hnil, hahead, List.length_nil, Nat.zero_add]
    rcases created_made hv hc hfits hag with ⟨reply, rfl⟩ | ⟨kind, missing, hsingle, hm⟩
    · cases hmade
    · obtain ⟨rfl, rfl⟩ := Prod.mk.inj (Option.some.inj (hsingle.symm.trans hmade))
      exact hm
  refine ⟨?_, ?_, hrenews.flies fun k' hk' => .inl ?_⟩
  · refine hrenews.passed hp
      (hw.writes.handedOver hw.valid hw.consistent hbytes (fun hk => ?_) hmarks)
    dsimp only
    rw [hahead, hqueued]
    exact hwhole (hrecv hk)
  · refine hrenews.follows ho' hf (hw.kept.queued.trans hqueued) (fun k' hk' => ?_)
      (fun k' hk' _ r hfits hag => ?_) fun hasks => absurd hasks hw.not_asks
    · obtain rfl := AnyCommand.single.inj hk'
      exact ⟨hbegun, hw.bytes hbytes⟩
    · obtain rfl := AnyCommand.single.inj hk'
      exact hw.marks (hmarks r hfits hag)
  · obtain rfl := AnyCommand.single.inj hk'
    exact hw.intact

theorem start_other
    (hc : createCommand c.buffer.bufferSize c.buffer.unprocessedData c.buffer.queued.length =
      some (n, some created))
    (hcon : AnyCommand.construct env c.count c.buffer created = some (buffer, cmd))
    (hcmd : ∀ k, cmd ≠ .single k) (hn : n < 2 ^ 63) (h0 : c.buffer.ahead = 0) (ho : c.Ordered)
    (hv : c.buffer.Valid)
    (hc' : c' = startCommand (AnyCommand.family env) { c with todo := ts } n created buffer cmd)
    (ho' : c'.Ordered) (hplace : stream.drop (start c.count) = c.buffer.queued)
    (hp : c.Passed stream start) (hf : c.Follows stream start) :
    c'.Passed stream start ∧ (c'.Doomed ∨ c'.Follows stream start) ∧ c.Flies c' := by
  obtain ⟨hkept, hfresh, -⟩ := AnyCommand.construct_kept env hv hcon
  have hoff := ReadBuffer.parsedOffset_le hkept.valid
  have hahead : buffer.ahead = 0 := hkept.ahead.trans h0
  have hv' : (buffer.updateParsedBytes n).Valid :=
    ReadBuffer.updateParsedBytes_valid hkept.valid (by omega)
  have hrenews := renews_start ho n created buffer cmd ts fun x =>
    (((AnyCommand.family env).startWriteQuery x).1,
      [.started c.count ((AnyCommand.family env).startWriteQuery x).2])
  rw [startCommand_eq] at hc'
  subst hc'
  have hkeeps := AnyCommand.startWriteQuery_keeps env
    (x := (append { c with todo := ts } n created buffer cmd).ctx ⟨c.count, created, cmd⟩) hcmd
  have hother : ∀ k, ((AnyCommand.family env).startWriteQuery
      ((append { c with todo := ts } n created buffer cmd).ctx ⟨c.count, created, cmd⟩)).1.cmd ≠
      .single k := by
    intro k hk
    rw [hk] at hkeeps
    exact AnyCommand.not_keeps_single hcmd hkeeps
  refine ⟨?_, ?_, hrenews.flies fun k hk => absurd hk (hother k)⟩
  · have hhanded := (handedOver_other hv hc hcon hcmd).keeps hkeeps
    rw [← hplace] at hhanded
    exact hrenews.passed hp hhanded
  · rcases (AnyCommand.family_disciplined env).start
      ((append { c with todo := ts } n created buffer cmd).ctx ⟨c.count, created, cmd⟩) hfresh hv'
        rfl
      with hfatal | hsends
    · exact .inl (doomed_run hfatal)
    refine .inr (hrenews.follows ho' hf (hsends.kept.queued.trans hkept.queued)
      (fun k hk => absurd hk (hother k)) (fun k hk => absurd hk (hother k)) fun _ a k hback hk _ =>
        ?_)
    obtain rfl := Option.some.inj (hrenews.back.symm.trans hback)
    exact absurd hk (hother k)

theorem start_advances
    (hc : createCommand c.buffer.bufferSize c.buffer.unprocessedData c.buffer.queued.length =
      some (n, some created))
    (hcon : AnyCommand.construct env c.count c.buffer created = some (buffer, cmd))
    (hn : n < 2 ^ 63) (hwhole : created.whole = true → n ≤ c.buffer.queued.length)
    (hcomplete : ∀ a k, c.back = some a → a.cmd = .single k → k.queryRecvComplete = true)
    (h0 : c.buffer.ahead = 0) (hlimit : c.activeCmdQueue.length < pipelineActiveLimit)
    (ht : c.todo = .processUnparsedQuery :: ts) (hl : ∀ t ∈ ts, t.later = true)
    (hr : c.isReadingQuery = false) (ho : c.Ordered) (hv : c.buffer.Valid)
    (hp : c.Passed stream start) (ha : c.Adjoins start) (hf : c.Follows stream start)
    (hc' : c' = startCommand (AnyCommand.family env) { c with todo := ts } n created buffer cmd) :
    Advances stream (starts stream start c c') c c' := by
  have hod : Ordered { c with todo := ts } := ho.of_eq rfl rfl rfl
  have ho' : c'.Ordered := by
    rw [hc']
    exact hod.startCommand hlimit ..
  have hcount : c'.count ≠ c.count := by
    rw [hc']
    exact Nat.succ_ne_self _
  have hidle : c.sends = false := by
    rw [sends, ht, List.any_cons, Bool.or_eq_false_iff]
    exact ⟨rfl, sends_of_later (c := { c with todo := ts }) hl⟩
  rw [starts, if_neg hcount]
  generalize hs : stream.length - c.buffer.queued.length = s
  have hplace : stream.drop (Function.update start c.count s c.count) = c.buffer.queued := by
    rw [Function.update_self, ← hs]
    exact (List.suffix_iff_eq_drop.mp hf.tail).symm
  have hbegun : Function.update start c.count s c.count ≤ stream.length := by
    rw [Function.update_self, ← hs]
    exact Nat.sub_le ..
  have hold : ∀ a ∈ c.roster, Function.update start c.count s a.id = start a.id := fun a ha =>
    Function.update_of_ne (Nat.ne_of_lt (ho.roster_lt ha)) ..
  have hadj : c'.Adjoins (Function.update start c.count s) := by
    obtain ⟨b, hb, hr⟩ : ∃ b : Active (AnyCommand ε), b.id = c.count ∧ c.Renews c' b := by
      rw [hc', startCommand_eq]
      exact ⟨_, rfl, renews_start ho ..⟩
    exact start_adjoins hf ha ho hidle hcomplete hs.symm hb hr ho'
  by_cases hsingle : ∃ k, cmd = .single k
  · obtain ⟨k, rfl⟩ := hsingle
    obtain ⟨hp', hf', hflies⟩ := start_single hc hcon hn hwhole h0 hl hr ho hv hc' ho' hbegun hplace
      (hp.congr hold) (hf.congr hold)
    exact ⟨hp', hadj, fun _ => .inr hf', hflies⟩
  · obtain ⟨hp', hf', hflies⟩ :=
      start_other hc hcon (not_exists.mp hsingle) hn h0 ho hv hc' ho' hplace
      (hp.congr hold) (hf.congr hold)
    exact ⟨hp', hadj, fun _ => hf', hflies⟩

end Start

theorem Move.advances (hm : Move env c c') (ho : c.Ordered) (ho' : c'.Ordered) (hv : c.buffer.Valid)
    (hheld : ∀ a ∈ c.activeCmdQueue, a.cmd.Sound) (hp : c.Passed stream start)
    (ha : c.Adjoins start)
    (hf : c.Follows stream start) : Advances stream (starts stream start c c') c c' := by
  cases hm with
  | keep carries still => exact keep_advances carries still ho ho' hp ha hf
  | parse a k m back cmd kind incomplete loop parsed queue gone idle idle' rests =>
    have hr := renews_setCmd ho back queue gone
    have hcount : c'.count = c.count := by
      rw [← ho'.back_id hr.back, ← ho.back_id back]
    rw [starts_same hcount]
    refine ⟨passed_parse hp back cmd hr, hr.adjoins ho' ha (ha.zero ho back) (ha.last back),
      fun _ =>
      .inr (follows_parse hf ho ho' hv back cmd kind incomplete loop parsed hr idle idle' rests),
      hr.flies fun k' hk' => .inr ⟨a, back_mem back, k, cmd, ?_⟩⟩
    obtain rfl := AnyCommand.single.inj hk'
    rfl
  | write a k back cmd incomplete todo reading eq =>
    exact write_advances back cmd incomplete todo reading ho hv hheld hp ha hf eq
  | start n created buffer cmd ts create construct bound whole complete ahead limit todo later
    reading eq =>
    exact start_advances create construct bound whole complete ahead limit todo later reading ho hv
      hp ha
      hf eq

end Moves

section Flight
variable {c c' : ClientConn (AnyCommand ε)} {a : Active (AnyCommand ε)} {k : SingleCommand ε}

/-- A command in the middle of a write holds a lock on the buffer. -/
theorem Covered.locked (hc : c.Covered AnyCommand.locks) (ha : a ∈ c.activeCmdQueue)
    (hk : a.cmd = .single k) (hq : k.backend.query ≠ none) : 0 < c.buffer.recycleLockCount := by
  have hle := locks_le_held AnyCommand.locks ha
  have hpos : 0 < AnyCommand.locks a.cmd := by
    rw [hk]
    exact SingleCommand.locks_pos_iff.mpr (Option.isSome_iff_ne_none.mpr hq)
  unfold Covered at hc
  omega

theorem Flies.intact (hf : c.Flies c')
    (hi : ∀ a ∈ c.activeCmdQueue, ∀ k, a.cmd = .single k → k.Intact c.buffer)
    (hc : c.Covered AnyCommand.locks) (ha : Accounts AnyCommand.locks c c') :
    ∀ a ∈ c'.activeCmdQueue, ∀ k, a.cmd = .single k → k.Intact c'.buffer := by
  intro a hmem k hk
  rcases hf a hmem k hk with hnew | ⟨a₀, hmem₀, k₀, hk₀, hspan⟩
  · exact hnew
  by_cases hq : k.backend.query = none
  · intro p hp
    rw [hq] at hp
    cases hp
  have hq₀ : k₀.backend.query ≠ none := by
    intro hnone
    rw [hnone, Option.map_none, Option.map_eq_none_iff] at hspan
    exact hq hspan
  exact (hi a₀ hmem₀ k₀ hk₀).inPlace
    (ha.firm (hc.locked hmem₀ hk₀ hq₀) (ha.covered.locked hmem hk hq)) hspan

end Flight
end ClientConn

end Yarmproxy
