import Yarmproxy.Commands
import Yarmproxy.RedisMgetFronts
import Yarmproxy.RedisRoundTrip

/-! # Complete requests and their number of arguments

What `CreateCommand` makes of a request that has arrived to its last byte, and which bulks the
constructor of the command then reads. -/
namespace Yarmproxy

variable {ε : Type}
def Created.bulksRead : Created → List ℕ
  | .redisBasic _ | .redisSet _ => [1]
  | .redisMset ba =>
    (List.range ((ba.presentBulks - 1) / 2)).flatMap fun i => [2 * i + 1, 2 * i + 2]
  | .redisMget ba => List.range' 1 (ba.totalBulks - 1)
  | .redisDel ba => List.range (max 1 ba.presentBulks)
  | _ => []

def Created.presentBulks : Created → ℕ
  | .redisBasic ba | .redisSet ba | .redisMset ba | .redisMget ba | .redisDel ba => ba.presentBulks
  | _ => 0

section Constructors
variable [DecidableEq ε] [Inhabited ε] (env : AnyCommand.Env ε) (k : ℕ) (buffer : ReadBuffer)

theorem bulkPairs_congr : ∀ {l m : List Bulk}, l.length = m.length →
    (∀ i < 2 * (l.length / 2), l[i]? = m[i]?) → bulkPairs l = bulkPairs m := by
  intro l
  induction l using bulkPairs.induct with
  | case1 key value bulks ih =>
    intro m hlen h
    rcases m with _ | ⟨key', _ | ⟨value', bulks'⟩⟩
    · simp at hlen
    · simp at hlen
    have hhalf : 2 * ((key :: value :: bulks).length / 2) = 2 * (bulks.length / 2) + 2 := by
      simp only [List.length_cons]
      omega
    rw [hhalf] at h
    obtain rfl := Option.some.inj (h 0 (by omega))
    obtain rfl := Option.some.inj (h 1 (by omega))
    rw [bulkPairs, bulkPairs, ih (Nat.succ.inj (Nat.succ.inj hlen)) fun i hi => h (i + 2)
      (by omega)]
  | case2 l hl =>
    intro m hlen h
    rcases l with _ | ⟨key, _ | ⟨value, bulks⟩⟩
    · rw [List.length_eq_zero_iff.mp hlen.symm]
    · obtain ⟨key', rfl⟩ := List.length_eq_one_iff.mp hlen.symm
      rfl
    · exact absurd rfl (hl key value bulks)

theorem msetReads_lt (n : ℕ) :
    ∀ i ∈ (List.range ((n - 1) / 2)).flatMap fun i => [2 * i + 1, 2 * i + 2], i < n := by
  intro i hi
  obtain ⟨j, hj, hi⟩ := List.mem_flatMap.mp hi
  have := List.mem_range.mp hj
  simp only [List.mem_cons, List.not_mem_nil, or_false] at hi
  omega

theorem construct_of_absent {created : Created} {i : ℕ} (hi : i ∈ created.bulksRead)
    (h : created.presentBulks ≤ i) : AnyCommand.construct env k buffer created = none := by
  cases created with
  | redisBasic ba | redisSet ba =>
    obtain rfl := List.mem_singleton.mp hi
    have habsent : ba.items[1]? = none := List.getElem?_eq_none h
    simp [AnyCommand.construct, habsent]
  | redisMset ba => exact absurd (msetReads_lt _ i hi) (Nat.not_lt.mpr h)
  | redisMget ba =>
    have hbulks : (List.range' 1 (ba.totalBulks - 1)).mapM (fun i => ba.items[i]?) = none :=
      Lists.mapM_eq_none hi (List.getElem?_eq_none h)
    simp only [AnyCommand.construct, RedisMgetCommand.new, hbulks]
    rfl
  | redisDel ba =>
    have hlt := List.mem_range.mp hi
    have hempty : ba.items = [] := by
      refine List.length_eq_zero_iff.mp ?_
      change ba.items.length ≤ i at h
      change i < max 1 ba.items.length at hlt
      omega
    simp [AnyCommand.construct, RedisDelCommand.new, hempty]
  | memcGet | memcSet | memcBasic | stats | error => exact absurd hi List.not_mem_nil

structure AlikeArrays (reads : List ℕ) (ba ba' : BulkArray) : Prop where
  total : ba.totalBulks = ba'.totalBulks
  present : ba.presentBulks = ba'.presentBulks
  bulks : ∀ i ∈ reads, ba.items[i]? = ba'.items[i]?

theorem construct_alike {made : BulkArray → Created} {ba ba' : BulkArray}
    (hmade : made ∈ [.redisBasic, .redisSet, .redisMset, .redisMget, .redisDel])
    (h : AlikeArrays (made ba).bulksRead ba ba') :
    AnyCommand.construct env k buffer (made ba) = AnyCommand.construct env k buffer (made ba') := by
  have habsent : ba.absentBulks = ba'.absentBulks := by
    rw [BulkArray.absentBulks, BulkArray.absentBulks, h.total, h.present]
  have hlen : ba.items.length = ba'.items.length := h.present
  simp only [List.mem_cons, List.not_mem_nil, or_false] at hmade
  rcases hmade with rfl | rfl | rfl | rfl | rfl
  · simp only [AnyCommand.construct, h.bulks 1 (List.mem_singleton_self 1)]
  · simp only [AnyCommand.construct, h.bulks 1 (List.mem_singleton_self 1), habsent]
  · have hpairs : bulkPairs (ba.items.drop 1) = bulkPairs (ba'.items.drop 1) := by
      refine bulkPairs_congr (by simp [hlen]) fun i hi => ?_
      rw [List.getElem?_drop, List.getElem?_drop]
      refine h.bulks _ (List.mem_flatMap.mpr ⟨i / 2, ?_, ?_⟩)
      · rw [List.mem_range, BulkArray.presentBulks]
        rw [List.length_drop] at hi
        omega
      · simp only [List.mem_cons, List.not_mem_nil, or_false]
        omega
    simp only [AnyCommand.construct, RedisMsetCommand.new, hpairs, habsent]
  · have hbulks : (List.range' 1 (ba.totalBulks - 1)).mapM (fun i => ba.items[i]?) =
        (List.range' 1 (ba.totalBulks - 1)).mapM fun i => ba'.items[i]? := Lists.mapM_congr h.bulks
    simp only [AnyCommand.construct, RedisMgetCommand.new, ← h.total, hbulks]
  · have hitems : ba.items = ba'.items := by
      refine List.ext_getElem? fun i => ?_
      by_cases hi : i < ba.items.length
      · exact h.bulks i (List.mem_range.mpr (lt_max_of_lt_right hi))
      · rw [List.getElem?_eq_none (Nat.not_lt.mp hi),
          List.getElem?_eq_none (hlen ▸ Nat.not_lt.mp hi)]
    simp only [AnyCommand.construct, RedisDelCommand.new, hitems, habsent]

end Constructors

/-- No handler reads the front of an empty reply queue, whatever the backends send. Only the
`MGET` command has such a queue. -/
def Created.FrontsPresent : Created → Prop
  | .redisMget ba => ∀ (ε : Type) [DecidableEq ε] [Inhabited ε] (locate : Bytes → ε) (pool : Pool)
      (buffer buffer' : ReadBuffer) (cmd : RedisMgetCommand ε) (first : Bool)
      (w : World (RedisMgetCommand ε)) (e : World.Event),
      RedisMgetCommand.new locate pool buffer ba = some (buffer', cmd) →
      Transition.Execution (World.system RedisMgetCommand.handlers fun _ _ _ => True)
        Transition.Unrestricted (World.init cmd first) w →
      World.Enabled RedisMgetCommand.handlers (fun _ _ _ => True) w e →
      ∀ queue ∈ RedisMgetCommand.frontsRead w e, queue ≠ []
  | _ => True

/-- The array `its` has arrived to its last byte, at the front of the `size` received bytes. -/
structure CompleteRequest (bufferSize : ℕ) (its : List Item) (buf : Ptr) (size : ℕ) : Prop where
  accepted : AcceptedBufferSize bufferSize
  nonempty : its ≠ []
  fits : size ≤ bufferSize
  received : size ≤ buf.rest.length
  whole : encodeArray its <+: buf.bytes size

/-- The request is taken off the buffer as a whole, or refused; nothing absent is read. -/
def Answered (bufferSize : ℕ) (its : List Item) (buf : Ptr) (size : ℕ) : Prop :=
  ∃ n created, createCommand bufferSize buf size = some (n, some created) ∧ n ≠ 0 ∧
    ((∃ reply, created = .error reply) ∨ n = (encodeArray its).length) ∧
    (∀ i ∈ created.bulksRead, i < created.presentBulks) ∧ created.FrontsPresent

def verbOf (its : List Item) : RedisCommandType := redisCommandTypeOf (its.head?.join.getD [])

/-- The numbers of bulks, the verb included, that the proxy is prepared for. -/
def ArityFits (its : List Item) : RedisCommandType → Prop
  | .basic | .set | .mget | .del => 2 ≤ its.length
  | .mset => 3 ≤ its.length ∧ its.length % 2 = 1
  | .yarmstats | .unsupported => True

section Arity
variable {bufferSize size : ℕ} {its : List Item} {buf : Ptr} {ba : BulkArray} {verb : Bulk}

theorem WholeBulk.nil_rest {bulk : Bulk} (h : WholeBulk none bulk) :
    ∃ tail, bulk.rawData.rest = ch '$' :: ch '-' :: ch '1' :: ch '\r' :: ch '\n' :: tail := by
  obtain ⟨-, m, tail, hm, -, hmem⟩ := h
  have hsize : itemSize none = 5 := rfl
  have htake := take_append_eq_of_le hmem (k := 5) (by omega)
  refine ⟨bulk.rawData.rest.drop 5, ?_⟩
  conv_lhs => rw [← List.take_append_drop 5 bulk.rawData.rest, htake]
  rfl

theorem WholeBulk.commandType {it : Item} {bulk : Bulk} (h : WholeBulk it bulk)
    (hs : itemSize it < 2 ^ 31) :
    getRedisCommandType bulk = some (redisCommandTypeOf (it.getD [])) := by
  cases it with
  | some v => rw [getRedisCommandType, (h.payload hs).1]; rfl
  | none =>
    obtain ⟨tail, hrest⟩ := h.nil_rest
    have hstoi : ∀ t : Bytes, stoi (ch '-' :: ch '1' :: ch '\r' :: t) = some (-1) := by
      intro t
      have hl : strtol (ch '-' :: ch '1' :: ch '\r' :: t) = some (-1) := rfl
      rw [stoi, hl]
      exact if_pos (by omega)
    have hoff : bulk.payloadOffset = some 5 := by
      rw [Bulk.payloadOffset, hrest]
      rfl
    have hsize : bulk.payloadSize = 0 := by
      rw [Bulk.payloadSize, hrest, List.drop_one, List.tail_cons, hstoi]
      rfl
    rw [getRedisCommandType, Bulk.payload, hoff, hsize, hrest]
    simp

theorem WholeBulk.toString_isSome {it : Item} {bulk : Bulk} (h : WholeBulk it bulk)
    (hs : itemSize it < 2 ^ 31) (habsent : bulk.absentSize = some 0) : bulk.toString.isSome := by
  rw [Bulk.toString]
  by_cases hneg : bulk.rawData.rest.getD 1 0 = ch '-'
  · rw [if_pos hneg, Option.isSome_some]
  rw [if_neg hneg]
  cases it with
  | none =>
    obtain ⟨tail, hrest⟩ := h.nil_rest
    rw [hrest] at hneg
    exact absurd rfl hneg
  | some v =>
    obtain ⟨htotal, m, tail, hm₁, hm₂, hmem⟩ := h
    have hv := itemSize_some v
    have hoff : bulk.payloadOffset = some (headerSize (some v)) :=
      Bulk.payloadOffset_header hmem (by omega)
    have hn : subSize (subSize (subSize (itemSize (some v)) (headerSize (some v))) 0) 2 =
        v.length := by
      have h₁ : subSize (itemSize (some v)) (headerSize (some v)) = v.length + 2 := by
        rw [subSize_eq (by omega) (by omega)]
        omega
      have h₂ : subSize (v.length + 2) 0 = v.length + 2 := by
        rw [subSize_eq (Nat.zero_le _) (by omega), Nat.sub_zero]
      rw [h₁, h₂, subSize_eq (Nat.le_add_left 2 _) (by omega), Nat.add_sub_cancel]
    rw [htotal, hoff, habsent, Option.bind_eq_bind, Option.bind_some, Option.bind_some,
      Option.bind_some]
    dsimp only
    rw [hn, if_pos (by omega), Option.isSome_some]

namespace CompleteRequest

theorem small (h : CompleteRequest bufferSize its buf size) :
    (encodeArray its).length < 2 ^ 31 := by
  have hb := h.accepted.bounds
  have hf := h.fits
  have hle := h.whole.length_le
  rw [Ptr.bytes, List.length_take] at hle
  omega

theorem createCommand_eq (h : CompleteRequest bufferSize its buf size) :
    ∃ ba verb tail, WholeArray its ba ∧ ba.items = verb :: tail ∧ verb.toString.isSome ∧
      createCommand bufferSize buf size = createRedisCommand ba verb size (verbOf its) := by
  obtain ⟨ba, hparse, hba⟩ := wholeArray h.nonempty h.small h.received h.whole
  obtain ⟨it, its', rfl⟩ := List.exists_cons_of_ne_nil h.nonempty
  obtain ⟨verb, tail, hitems⟩ : ∃ verb tail, ba.items = verb :: tail := by
    apply List.exists_cons_of_length_pos
    have := hba.presentBulks
    rw [BulkArray.presentBulks, List.length_cons] at this
    omega
  have hget : ba.items[0]? = some verb := by rw [hitems]; rfl
  have hwhole := hba.bulk 0 it verb hget rfl
  have hsize := itemSize_lt_of_small h.small it (by simp)
  have habsent := (hba.bulkCompleted 0 verb hget).1
  refine ⟨ba, verb, tail, hba, hitems, hwhole.toString_isSome hsize habsent, ?_⟩
  obtain ⟨rest, hrest⟩ := h.whole
  have hstar : buf.rest.getD 0 0 = ch '*' := by
    have hhead : (buf.bytes size).getD 0 0 = ch '*' := by rw [← hrest]; rfl
    rw [Ptr.bytes] at hhead
    have hpos : 0 < size := by
      rcases Nat.eq_zero_or_pos size with rfl | hpos
      · rw [List.take_zero] at hhead
        exact absurd hhead (by decide)
      · exact hpos
    rwa [List.getD_eq_getElem?_getD, List.getElem?_take_of_lt hpos,
      ← List.getD_eq_getElem?_getD] at hhead
  have hline : (memchr buf.rest (ch '\n') size).isSome := by
    rw [memchr, List.findIdx?_isSome, List.any_eq_true]
    refine ⟨ch '\n', ?_, by simp⟩
    rw [← Ptr.bytes, ← hrest, encodeArray, serializePrefix]
    simp [crlf, ch]
  rw [createCommand_star hstar hline, createRedis, hparse]
  simp only [Option.bind_eq_bind, Option.bind_some]
  rw [if_neg (by rw [hba.totalBulks]; simp), hitems]
  simp only
  rw [habsent, Option.bind_some, if_neg (Nat.lt_irrefl 0), hwhole.commandType hsize]
  rfl

end CompleteRequest

theorem WholeArray.intToSize_parsedSize (hba : WholeArray its ba)
    (hs : (encodeArray its).length < 2 ^ 31) :
    intToSize ba.parsedSize = (encodeArray its).length := by
  rw [hba.parsedSize, intToSize_natCast (by omega)]

theorem WholeArray.second (hba : WholeArray its ba) (hl : 2 ≤ its.length) :
    ∃ key, ba.items[1]? = some key ∧ key.completed = some true := by
  have hlen := hba.presentBulks
  rw [BulkArray.presentBulks] at hlen
  have hget := List.getElem?_eq_getElem (l := ba.items) (i := 1) (by omega)
  exact ⟨_, hget, (hba.bulkCompleted 1 _ hget).2⟩

theorem WholeArray.last (hba : WholeArray its ba) (hne : its ≠ []) :
    ∃ back it, ba.items.getLast? = some back ∧ it ∈ its ∧ back.totalSize = some (itemSize it) ∧
      back.completed = some true := by
  have hlen := hba.presentBulks
  have hpos := List.length_pos_iff.mpr hne
  rw [BulkArray.presentBulks] at hlen
  have hget := List.getElem?_eq_getElem (l := ba.items) (i := ba.items.length - 1) (by omega)
  have hit := List.getElem?_eq_getElem (l := its) (i := ba.items.length - 1) (by omega)
  exact ⟨_, _, by rw [List.getLast?_eq_getElem?, hget], List.mem_of_getElem? hit,
    (hba.bulk _ _ _ hget hit).1, (hba.bulkCompleted _ _ hget).2⟩

theorem createRedisCommand_whole (verb : Bulk) (size : ℕ) (hba : WholeArray its ba) :
    createRedisCommand ba verb size .basic =
      some ((encodeArray its).length, some (.redisBasic ba)) ∧
    createRedisCommand ba verb size .mget = some ((encodeArray its).length, some (.redisMget ba)) ∧
    createRedisCommand ba verb size .yarmstats =
      some ((encodeArray its).length, some (.stats .redis)) := by
  refine ⟨?_, ?_, ?_⟩ <;>
    simp only [createRedisCommand, hba.completed, hba.totalSize, Option.bind_eq_bind,
      Option.bind_some, Bool.not_true, Bool.false_eq_true, if_false]

theorem createRedisCommand_set (hba : WholeArray its ba) (hs : (encodeArray its).length < 2 ^ 31) :
    createRedisCommand ba verb size .set =
      if its.length < 2 then some (0, none)
      else some ((encodeArray its).length, some (.redisSet ba)) := by
  rw [createRedisCommand, hba.presentBulks]
  split
  · rfl
  next hl =>
    obtain ⟨key, hkey, hc⟩ := hba.second (by omega)
    simp only [hkey, hc, hba.intToSize_parsedSize hs, Option.bind_eq_bind, Option.bind_some,
      Bool.not_true, Bool.false_eq_true, if_false]

theorem createRedisCommand_del (hba : WholeArray its ba) (hs : (encodeArray its).length < 2 ^ 31)
    (hne : its ≠ []) :
    createRedisCommand ba verb size .del =
      if its.length < 2 then some (0, none)
      else some ((encodeArray its).length, some (.redisDel ba)) := by
  rw [createRedisCommand, hba.presentBulks]
  split
  · rfl
  next hl =>
    obtain ⟨key, hkey, hc⟩ := hba.second (by omega)
    obtain ⟨back, _, hback, _, _, hbc⟩ := hba.last hne
    simp only [hkey, hc, hback, hbc, hba.intToSize_parsedSize hs, Option.bind_eq_bind,
      Option.bind_some, Bool.not_true, Bool.false_eq_true, if_false, if_true]

theorem createRedisCommand_mset (verb : Bulk) (size : ℕ) (hba : WholeArray its ba)
    (hs : (encodeArray its).length < 2 ^ 31)
    (hne : its ≠ []) :
    ∃ n < (encodeArray its).length, createRedisCommand ba verb size .mset =
      if its.length < 3 then some (0, none)
      else if its.length % 2 = 0 then some (n, some (.redisMset ba))
      else some ((encodeArray its).length, some (.redisMset ba)) := by
  obtain ⟨back, it, hback, hmem, htotal, -⟩ := hba.last hne
  have hle := itemSize_le_of_mem hmem
  have h4 := four_le_headerSize it
  have hheader := headerSize_le it
  have hlen := length_encodeArray its
  refine ⟨(encodeArray its).length - itemSize it, by omega, ?_⟩
  have hwithout : ba.withoutBack = some ((encodeArray its).length - itemSize it) := by
    simp only [BulkArray.withoutBack, hback, htotal, hba.intToSize_parsedSize hs,
      Option.bind_eq_bind, Option.bind_some]
    rw [subSize_eq (by omega) (by omega)]
  simp only [createRedisCommand, hba.presentBulks, hwithout, hba.intToSize_parsedSize hs,
    Option.bind_eq_bind, Option.bind_some]

theorem answered_some {n : ℕ} {created : Created}
    (hc : createCommand bufferSize buf size = some (n, some created)) :
    Answered bufferSize its buf size ↔ n ≠ 0 ∧
      ((∃ reply, created = .error reply) ∨ n = (encodeArray its).length) ∧
      (∀ i ∈ created.bulksRead, i < created.presentBulks) ∧ created.FrontsPresent := by
  unfold Answered
  rw [hc]
  constructor
  · rintro ⟨n', created', he, h⟩
    obtain ⟨rfl, hcreated⟩ := Prod.mk.inj (Option.some.inj he)
    obtain rfl := Option.some.inj hcreated
    exact h
  · exact fun h => ⟨n, created, rfl, h⟩

theorem not_answered_none {n : ℕ} (hc : createCommand bufferSize buf size = some (n, none)) :
    ¬ Answered bufferSize its buf size := by
  rintro ⟨n', created, he, -⟩
  rw [hc] at he
  cases (Prod.mk.inj (Option.some.inj he)).2

theorem answered_whole {created : Created}
    (hc : createCommand bufferSize buf size = some ((encodeArray its).length, some created)) :
    Answered bufferSize its buf size ↔
      (∀ i ∈ created.bulksRead, i < created.presentBulks) ∧ created.FrontsPresent := by
  have hpos : (encodeArray its).length ≠ 0 := by
    have := four_le_serializePrefix its.length
    rw [length_encodeArray]
    omega
  rw [answered_some hc]
  exact ⟨fun h => h.2.2, fun h => ⟨hpos, .inr rfl, h⟩⟩

theorem frontsPresent_mget (hba : WholeArray its ba) (hne : its ≠ []) :
    (Created.redisMget ba).FrontsPresent ↔ its.length ≠ 1 := by
  constructor
  · intro h hone
    have htotal := hba.totalBulks.trans hone
    let pool : Pool := fun _ => ([], false)
    let cmd : RedisMgetCommand Unit :=
      ⟨0, fun k => ⟨pool.allocate k (), 0, [], 0⟩, .idle, none, serializePrefix 0, []⟩
    have hnew : RedisMgetCommand.new (fun _ => ()) pool (.new []) ba = some (.new [], cmd) := by
      rw [RedisMgetCommand.new, htotal]
      rfl
    let w := (World.init cmd true).next RedisMgetCommand.handlers (.start (.new []))
    have hw : Transition.Execution (World.system RedisMgetCommand.handlers fun _ _ _ => True)
        Transition.Unrestricted (World.init cmd true) w := by
      refine .tail (e := World.Event.start (.new [])) .refl ?_ trivial
      exact ⟨⟨rfl, rfl, rfl⟩, rfl⟩
    have hread : [] ∈ RedisMgetCommand.frontsRead w (.writeDone (.new [])) := List.mem_cons_self
    exact h Unit (fun _ => ()) pool (.new []) (.new []) cmd true w (.writeDone (.new [])) hnew hw
      ⟨⟨rfl, rfl, rfl⟩, rfl⟩ [] hread rfl
  · intro hl ε _ _ locate pool buffer buffer' cmd first w e hnew hw he
    refine RedisMgetCommand.frontsRead_ne_nil (RedisMgetCommand.reachable_ne_nil ?_ hw
      (RedisMgetCommand.enabled_live he)) e
    refine RedisMgetCommand.new_ne_nil ?_ hnew
    have hpos := List.length_pos_iff.mpr hne
    rw [hba.totalBulks]
    omega

/-- Exactly when a complete request is answered: its number of bulks is one that the command
of its verb is prepared for. -/
theorem answered_iff_arityFits (h : CompleteRequest bufferSize its buf size) :
    Answered bufferSize its buf size ↔ ArityFits its (verbOf its) := by
  obtain ⟨ba, verb, tail, hba, hitems, htext, hcreate⟩ := h.createCommand_eq
  have hpos := List.length_pos_iff.mpr h.nonempty
  obtain ⟨hbasic, hmget, hstats⟩ := createRedisCommand_whole verb size hba
  cases hv : verbOf its with
  | basic =>
    rw [hv, hbasic] at hcreate
    rw [answered_whole hcreate]
    simp [Created.bulksRead, Created.presentBulks, Created.FrontsPresent, ArityFits,
      hba.presentBulks]
    omega
  | set =>
    rw [hv, createRedisCommand_set hba h.small] at hcreate
    by_cases hl : its.length < 2
    · rw [if_pos hl] at hcreate
      exact iff_of_false (not_answered_none hcreate) (Nat.not_le.mpr hl)
    · rw [if_neg hl] at hcreate
      rw [answered_whole hcreate]
      simp [Created.bulksRead, Created.presentBulks, Created.FrontsPresent, ArityFits,
        hba.presentBulks]
      omega
  | mset =>
    obtain ⟨n, hn, hmset⟩ := createRedisCommand_mset verb size hba h.small h.nonempty
    rw [hv, hmset] at hcreate
    by_cases hl : its.length < 3
    · rw [if_pos hl] at hcreate
      exact iff_of_false (not_answered_none hcreate) fun ha => Nat.not_le.mpr hl ha.1
    rw [if_neg hl] at hcreate
    by_cases heven : its.length % 2 = 0
    · rw [if_pos heven] at hcreate
      refine iff_of_false ?_ fun ha => by have := ha.2; omega
      rw [answered_some hcreate]
      rintro ⟨-, ⟨reply, hreply⟩ | hlen, -⟩
      · cases hreply
      · omega
    · rw [if_neg heven] at hcreate
      rw [answered_whole hcreate]
      refine iff_of_true ⟨msetReads_lt _, trivial⟩ ⟨by omega, by omega⟩
  | mget =>
    rw [hv, hmget] at hcreate
    rw [answered_whole hcreate, frontsPresent_mget hba h.nonempty]
    simp only [Created.bulksRead, Created.presentBulks, hba.presentBulks, hba.totalBulks, ArityFits]
    constructor
    · rintro ⟨-, hl⟩
      omega
    · refine fun hl => ⟨fun i hi => ?_, by omega⟩
      have := List.mem_range'_1.mp hi
      omega
  | del =>
    rw [hv, createRedisCommand_del hba h.small h.nonempty] at hcreate
    by_cases hl : its.length < 2
    · rw [if_pos hl] at hcreate
      exact iff_of_false (not_answered_none hcreate) (Nat.not_le.mpr hl)
    · rw [if_neg hl] at hcreate
      rw [answered_whole hcreate]
      refine iff_of_true ⟨fun i hi => ?_, trivial⟩ (Nat.not_lt.mp hl)
      have := List.mem_range.mp hi
      simp only [Created.presentBulks, hba.presentBulks] at this ⊢
      omega
  | yarmstats =>
    rw [hv, hstats] at hcreate
    rw [answered_whole hcreate]
    simp [Created.bulksRead, Created.FrontsPresent, ArityFits]
  | unsupported =>
    obtain ⟨name, hname⟩ := Option.isSome_iff_exists.mp htext
    rw [hv, createRedisCommand, hname] at hcreate
    rw [answered_some hcreate]
    have hsize : size ≠ 0 := by
      have hle := h.whole.length_le
      have := four_le_serializePrefix its.length
      rw [length_encodeArray, Ptr.bytes, List.length_take] at hle
      omega
    exact iff_of_true ⟨hsize, .inl ⟨_, rfl⟩, by simp [Created.bulksRead], trivial⟩ trivial

end Arity

def getKey : List Item := [some (ascii "get"), some (ascii "k")]

theorem getKey_answered :
    CompleteRequest 1024 getKey ⟨encodeArray getKey, 0⟩ 20 ∧
      (Answered 1024 getKey ⟨encodeArray getKey, 0⟩ 20 ↔ ArityFits getKey (verbOf getKey)) := by
  have h : CompleteRequest 1024 getKey ⟨encodeArray getKey, 0⟩ 20 :=
    ⟨⟨0, by decide, rfl⟩, by decide, by decide, by decide, by decide⟩
  exact ⟨h, answered_iff_arityFits h⟩

/-- `*1\r\n$3\r\nget\r\n`, a `get` without a key. -/
def getAlone : List Item := [some (ascii "get")]

/-- A basic command is created, whose constructor reads the absent second bulk. -/
theorem getAlone_not_answered :
    CompleteRequest 1024 getAlone ⟨encodeArray getAlone, 0⟩ 13 ∧
      (∃ ba, createCommand 1024 ⟨encodeArray getAlone, 0⟩ 13 = some (13, some (.redisBasic ba)) ∧
        1 ∈ (Created.redisBasic ba).bulksRead ∧ ba.presentBulks = 1) ∧
      ¬ Answered 1024 getAlone ⟨encodeArray getAlone, 0⟩ 13 := by
  have hc : createCommand 1024 ⟨encodeArray getAlone, 0⟩ 13 = some (13, some (.redisBasic
      ((BulkArray.parse ⟨encodeArray getAlone, 0⟩ 13).get (by decide)))) := by decide
  refine ⟨⟨⟨0, by decide, rfl⟩, by decide, by decide, by decide, by decide⟩,
    ⟨_, hc, by decide, by decide⟩, ?_⟩
  rw [answered_some hc]
  rintro ⟨-, -, hread, -⟩
  exact absurd (hread 1 (by decide)) (by decide)

end Yarmproxy
