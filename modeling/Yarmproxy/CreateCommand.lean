import Yarmproxy.RedisProtocol

/-! # Recognising a request

`createCommand` is `Command::CreateCommand`: it looks at the received bytes of the next
request and either asks for more (count 0, no command) or names the command object to
construct and how many bytes the request has taken so far. -/
namespace Yarmproxy

inductive ProtocolType where
  | none | redis | memcached
  deriving DecidableEq, Repr

inductive RedisCommandType where
  | basic | set | mset | mget | del | yarmstats | unsupported
  deriving DecidableEq, Repr

def redisCommandNames : List (Bytes × RedisCommandType) :=
  [(ascii "get", .basic), (ascii "getset", .basic), (ascii "getrange", .basic),
   (ascii "ttl", .basic), (ascii "incr", .basic), (ascii "incrby", .basic),
   (ascii "incrbyfloat", .basic), (ascii "decr", .basic), (ascii "decrby", .basic),
   (ascii "strlen", .basic),
   (ascii "set", .set), (ascii "append", .set), (ascii "setrange", .set),
   (ascii "setnx", .set), (ascii "psetex", .set), (ascii "setex", .set),
   (ascii "mset", .mset), (ascii "mget", .mget),
   (ascii "del", .del), (ascii "exists", .del), (ascii "touch", .del),
   (ascii "yarmstats", .yarmstats)]

def redisCommandTypeOf (name : Bytes) : RedisCommandType :=
  (redisCommandNames.lookup (name.map toLower)).getD .unsupported

def getRedisCommandType (bulk : Bulk) : Option RedisCommandType :=
  bulk.payload.map redisCommandTypeOf

inductive MemcCommandType where
  | get | set | basic | yarmstats | unsupported
  deriving DecidableEq, Repr

def memcCommandNames : List (Bytes × MemcCommandType) :=
  [(ascii "get", .get), (ascii "gets", .get),
   (ascii "set", .set), (ascii "add", .set), (ascii "replace", .set), (ascii "append", .set),
   (ascii "prepend", .set), (ascii "cas", .set),
   (ascii "delete", .basic), (ascii "incr", .basic), (ascii "decr", .basic),
   (ascii "touch", .basic),
   (ascii "yarmstats", .yarmstats)]

def getMemcCommandType (cmdLine : Bytes) : MemcCommandType :=
  (memcCommandNames.lookup (cmdLine.takeWhile (· ≠ ch ' '))).getD .unsupported

/-- The offset behind the first occurrence of `c`, as `while(*(p++) != c);` leaves it. -/
def skipPast (c : UInt8) (bs : Bytes) : Option ℕ := (bs.findIdx? (· == c)).map (· + 1)

/-- `MemcSetCommand::ParseQuery` without the allocation: the key and the value returned. -/
def memcSetParseQuery (buf : Ptr) (cmdLen : ℕ) : Option (Bytes × ℕ) := do
  let m := buf.rest
  let p ← skipPast (ch ' ') m
  let q ← (m.drop (p + 1)).findIdx? (· == ch ' ')
  let key := (m.drop p).take (q + 1)
  -- the byte count is found backwards from the line end, if need be into earlier memory
  let start ← (buf.mem.take (buf.off + cmdLen - 2)).reverse.findIdx? (· == ch ' ')
  let bytes := buf.mem.drop (buf.off + cmdLen - 2 - start)
  some (key, intToSize (Int.bmod (atoi bytes + 2) (2 ^ 32)))

/-- The command object that `CreateCommand` constructs. -/
inductive Created where
  | redisBasic (ba : BulkArray)
  | redisSet (ba : BulkArray)
  | redisMset (ba : BulkArray)
  | redisMget (ba : BulkArray)
  | redisDel (ba : BulkArray)
  | memcGet (data : Ptr) (size : ℕ)
  | memcSet (key : Bytes)
  | memcBasic (data : Ptr)
  | stats (protocol : ProtocolType)
  | error (reply : Bytes)
  deriving DecidableEq, Repr

/-- `return ba.parsed_size()` and `return ba.parsed_size() - ba.back().total_size()` -/
def BulkArray.withoutBack (ba : BulkArray) : Option ℕ := do
  let back ← ba.items.getLast?
  let total ← back.totalSize
  some (subSize (intToSize ba.parsedSize) total)

def createRedisCommand (ba : BulkArray) (verb : Bulk) (size : ℕ) :
    RedisCommandType → Option (ℕ × Option Created)
  | .basic => do
    if !(← ba.completed) then some (0, none)
    else some (← ba.totalSize, some (.redisBasic ba))
  | .set => do
    if ba.presentBulks < 2 then some (0, none)
    else if !(← (← ba.items[1]?).completed) then some (0, none)
    else some (intToSize ba.parsedSize, some (.redisSet ba))
  | .mset => do
    if ba.presentBulks < 3 then some (0, none)
    else if ba.presentBulks % 2 = 0 then some (← ba.withoutBack, some (.redisMset ba))
    else some (intToSize ba.parsedSize, some (.redisMset ba))
  | .mget => do
    if !(← ba.completed) then some (0, none)
    else some (← ba.totalSize, some (.redisMget ba))
  | .del => do
    if ba.presentBulks < 2 then some (0, none)
    else if !(← (← ba.items[1]?).completed) then some (0, none)
    else if ← (← ba.items.getLast?).completed then
      some (intToSize ba.parsedSize, some (.redisDel ba))
    else some (← ba.withoutBack, some (.redisDel ba))
  | .yarmstats => do
    if !(← ba.completed) then some (0, none)
    else some (← ba.totalSize, some (.stats .redis))
  | .unsupported => do
    let name ← verb.toString
    some (size, some (.error
      (ascii "-ERR YarmProxy unsupported redis command:[" ++ name ++ ascii "]\r\n")))

def createRedis (buf : Ptr) (size : ℕ) : Option (ℕ × Option Created) := do
  let ba ← BulkArray.parse buf size
  if ba.totalBulks = 0 then
    some (size, some (.error
      (ascii "-ERR Bulk Array Parse Error:[" ++ buf.bytes size ++ ascii "]\r\n")))
  else match ba.items with
    | [] => some (0, none)
    | verb :: _ =>
      if 0 < (← verb.absentSize) then some (0, none)
      else createRedisCommand ba verb size (← getRedisCommandType verb)

def createMemc (buf : Ptr) (size cmdLineBytes : ℕ) : Option (ℕ × Option Created) :=
  let line := buf.bytes cmdLineBytes
  match getMemcCommandType line with
  | .get => some (cmdLineBytes, some (.memcGet buf cmdLineBytes))
  | .set => do
    let (key, bodyBytes) ← memcSetParseQuery buf cmdLineBytes
    if bodyBytes ≤ 2 then
      some (cmdLineBytes, some (.error (ascii "ERR Protocol Error:[" ++ line ++ ascii "]\r\n")))
    else some (addSize cmdLineBytes bodyBytes, some (.memcSet key))
  | .basic => some (cmdLineBytes, some (.memcBasic buf))
  | .yarmstats => some (cmdLineBytes, some (.stats .memcached))
  | .unsupported =>
    some (size, some (.error (ascii "YarmProxy Unsupported Request [" ++ line ++ ascii "]\r\n")))

def createCommand (bufferSize : ℕ) (buf : Ptr) (size : ℕ) : Option (ℕ × Option Created) :=
  match memchr buf.rest (ch '\n') size with
  | none =>
    if size > bufferSize / 2 then
      some (size, some (.error
        ((if buf.rest.getD 0 0 = ch '*' then ascii "-" else []) ++
          ascii "ERR Too long unparsable data:[" ++ buf.bytes size ++ ascii "]\r\n")))
    else some (0, none)
  | some p =>
    if buf.rest.getD 0 0 = ch '*' then createRedis buf size
    else createMemc buf size (p + 1)

/-- What the caller of `CreateCommand` may rely on for a request it must not forward. -/
def Rejected (bufferSize : ℕ) (buf : Ptr) (size : ℕ) : Prop :=
  ∃ n reply, createCommand bufferSize buf size = some (n, some (.error reply)) ∧ n ≤ size

/-- The verb is read from the first bulk whatever its own parse result was: the branch for
an unknown verb is taken and the text it quotes lies in the buffer. -/
def UnknownVerb (verb : Bulk) : Prop :=
  verb.absentSize = some 0 ∧ getRedisCommandType verb = some .unsupported ∧
    verb.toString.isSome

theorem createRedisCommand_error {ba : BulkArray} {verb : Bulk} {size n : ℕ} {reply : Bytes}
    {t : RedisCommandType} (h : createRedisCommand ba verb size t = some (n, some (.error reply))) :
    t = .unsupported ∧ verb.toString.isSome ∧ n = size := by
  cases t with
  | unsupported =>
    simp only [createRedisCommand, Option.bind_eq_bind, Option.bind_eq_some_iff] at h
    obtain ⟨name, hn, he⟩ := h
    simp only [Option.some.injEq, Prod.mk.injEq] at he
    exact ⟨rfl, by simp [hn], he.1.symm⟩
  | _ =>
    exfalso
    simp only [createRedisCommand, Option.bind_eq_bind] at h
    repeat' first
      | (split at h)
      | (rw [Option.bind_eq_some_iff] at h; obtain ⟨_, _, h⟩ := h)
    all_goals simp at h

/-- A buffer that starts an array, holds a complete line and does not parse. -/
structure Malformed (buf : Ptr) (size : ℕ) (ba : BulkArray) : Prop where
  star : buf.rest.getD 0 0 = ch '*'
  line : (memchr buf.rest (ch '\n') size).isSome
  parsed : BulkArray.parse buf size = some ba
  bad : ba.parsedSize < 0

theorem createCommand_star {bufferSize size : ℕ} {buf : Ptr} (hs : buf.rest.getD 0 0 = ch '*')
    (hl : (memchr buf.rest (ch '\n') size).isSome) :
    createCommand bufferSize buf size = createRedis buf size := by
  obtain ⟨p, hp⟩ := Option.isSome_iff_exists.mp hl
  rw [createCommand, hp]
  exact if_pos hs

theorem array_rejected_iff {bufferSize size : ℕ} {buf : Ptr} {ba : BulkArray}
    (hs : buf.rest.getD 0 0 = ch '*') (hl : (memchr buf.rest (ch '\n') size).isSome)
    (hparsed : BulkArray.parse buf size = some ba) :
    Rejected bufferSize buf size ↔
      ba.totalBulks = 0 ∨ ∃ verb, ba.items.head? = some verb ∧ UnknownVerb verb := by
  unfold Rejected
  rw [createCommand_star hs hl, createRedis, hparsed]
  simp only [Option.bind_eq_bind, Option.bind_some]
  by_cases ht : ba.totalBulks = 0
  · simp [ht]
  rw [if_neg ht]
  cases hi : ba.items with
  | nil => simp [ht]
  | cons verb items =>
    simp only [List.head?_cons, Option.some.injEq, exists_eq_left', ht, false_or]
    constructor
    · rintro ⟨n, reply, he, _⟩
      rw [Option.bind_eq_some_iff] at he
      obtain ⟨absent, ha, he⟩ := he
      split at he
      · simp at he
      · rw [Option.bind_eq_some_iff] at he
        obtain ⟨t, hg, he⟩ := he
        obtain ⟨rfl, hs, -⟩ := createRedisCommand_error he
        have hz : absent = 0 := by omega
        exact ⟨hz ▸ ha, hg, hs⟩
    · rintro ⟨ha, hg, hs⟩
      obtain ⟨name, hn⟩ := Option.isSome_iff_exists.mp hs
      refine ⟨size, ascii "-ERR YarmProxy unsupported redis command:[" ++ name ++ ascii "]\r\n",
        ?_, le_rfl⟩
      rw [ha]
      simp only [Option.bind_some, Nat.lt_irrefl, if_false]
      rw [hg]
      simp only [Option.bind_some, createRedisCommand, Option.bind_eq_bind, hn]

theorem parseBulkItems_head {p : Ptr} {bytes maxBulks : ℕ} {ret : ℤ} {items : List Bulk}
    {verb : Bulk}
    (h : parseBulkItems p bytes maxBulks = some (ret, items)) (hv : items.head? = some verb) :
    verb.rawData = p := by
  unfold parseBulkItems at h
  cases maxBulks with
  | zero =>
    cases h
    cases hv
  | succ fuel =>
    rw [parseBulkItemsLoop] at h
    split at h
    case isFalse =>
      cases h
      cases hv
    simp only [List.nil_append] at h
    split at h
    · cases h
      cases hv
      exact Bulk.rawData_parse p _
    split at h
    · cases h
      cases hv
    obtain ⟨total, -, h⟩ := Option.bind_eq_some_iff.mp h
    obtain ⟨q, -, h⟩ := Option.bind_eq_some_iff.mp h
    rw [parseBulkItemsLoop_acc, Option.map_eq_some_iff] at h
    obtain ⟨r, -, h⟩ := h
    cases h
    cases hv
    exact Bulk.rawData_parse p _

def countDigits (buf : Ptr) (size : ℕ) : Bytes := ((buf.rest.take size).drop 1).takeWhile isDigit

theorem BulkArray.parse_head {buf : Ptr} {size : ℕ} {ba : BulkArray}
    (h : BulkArray.parse buf size = some ba) :
    ba.rawData = buf ∧ ∀ verb, ba.items.head? = some verb →
      verb.rawData = ⟨buf.mem, buf.off + (countDigits buf size).length + 3⟩ := by
  have empty : ∀ {field}, some (⟨buf, field, []⟩ : BulkArray) = some ba → ba.rawData = buf ∧
      ∀ verb, ba.items.head? = some verb →
        verb.rawData = ⟨buf.mem, buf.off + (countDigits buf size).length + 3⟩ := by
    rintro field ⟨⟩
    exact ⟨rfl, nofun⟩
  rw [parse] at h
  simp only [scanCount_eq] at h
  split at h
  · exact empty h
  split at h
  · exact empty h
  split at h
  · exact empty h
  split at h
  · exact empty h
  obtain ⟨⟨ret, items⟩, hitems, h⟩ := Option.bind_eq_some_iff.mp h
  have hhead : ∀ verb, items.head? = some verb →
      verb.rawData = ⟨buf.mem, buf.off + (countDigits buf size).length + 3⟩ := by
    intro verb hv
    rw [parseBulkItems_head hitems hv]
    simp only [countDigits]
    congr 1
    omega
  split at h
  · cases h
    exact ⟨rfl, hhead⟩
  · cases h
    exact ⟨rfl, hhead⟩

theorem BulkArray.totalBulks_eq_zero_iff {ba : BulkArray} : ba.totalBulks = 0 ↔
    stoi (ba.rawData.rest.drop 1) = none ∨ stoi (ba.rawData.rest.drop 1) = some 0 := by
  rw [totalBulks]
  cases hs : stoi (ba.rawData.rest.drop 1) with
  | none => simp
  | some i =>
    have := stoi_bounds hs
    simp only [reduceCtorEq, Option.some.injEq, false_or, intToSize]
    omega

theorem redisCommandTypeOf_eq_unsupported_iff {name : Bytes} :
    redisCommandTypeOf name = .unsupported ↔
      ∀ entry ∈ redisCommandNames, entry.1 ≠ name.map toLower := by
  -- every entry of the table has a handler
  have handled : ∀ entry ∈ redisCommandNames, entry.2 ≠ .unsupported := by decide
  rw [redisCommandTypeOf]
  cases hl : redisCommandNames.lookup (name.map toLower) with
  | none =>
    rw [List.lookup_eq_none_iff] at hl
    refine iff_of_true rfl fun entry hmem heq => ?_
    have hne := hl entry hmem
    rw [heq, bne_self_eq_false] at hne
    exact Bool.false_ne_true hne
  | some t =>
    have hmem := Lists.mem_of_lookup hl
    refine iff_of_false (handled _ hmem) fun h => h _ hmem rfl

theorem unsupported_iff {verb : Bulk} : getRedisCommandType verb = some .unsupported ↔
    ∃ name, verb.payload = some name ∧
      ∀ entry ∈ redisCommandNames, entry.1 ≠ name.map toLower := by
  simp only [getRedisCommandType, Option.map_eq_some_iff, redisCommandTypeOf_eq_unsupported_iff]

/-- Exactly when a request with a syntax error is answered by an error command: `stoi` finds no
count behind the star, or zero, or the bulk behind the count line is there and its verb is in no
entry of the table. -/
theorem malformed_rejected_iff {bufferSize size : ℕ} {buf : Ptr} {ba : BulkArray}
    (h : Malformed buf size ba) :
    (Rejected bufferSize buf size ↔
      ba.totalBulks = 0 ∨ ∃ verb, ba.items.head? = some verb ∧ UnknownVerb verb) ∧
    (ba.totalBulks = 0 ↔ stoi (buf.rest.drop 1) = none ∨ stoi (buf.rest.drop 1) = some 0) ∧
    ∀ verb, ba.items.head? = some verb →
      verb.rawData = ⟨buf.mem, buf.off + (countDigits buf size).length + 3⟩ ∧
      (getRedisCommandType verb = some .unsupported ↔ ∃ name, verb.payload = some name ∧
        ∀ entry ∈ redisCommandNames, entry.1 ≠ name.map toLower) := by
  obtain ⟨hraw, hhead⟩ := BulkArray.parse_head h.parsed
  refine ⟨array_rejected_iff h.star h.line h.parsed, ?_,
    fun verb hv => ⟨hhead verb hv, unsupported_iff⟩⟩
  rw [BulkArray.totalBulks_eq_zero_iff, hraw]

def malformedFoo : Ptr := ⟨ascii "*2\r\n$3\r\nfoo\r\n!bad\r\n", 0⟩

theorem malformedFoo_rejected :
    ∃ ba, Malformed malformedFoo 19 ba ∧
      (Rejected 4096 malformedFoo 19 ↔
        ba.totalBulks = 0 ∨ ∃ verb, ba.items.head? = some verb ∧ UnknownVerb verb) := by
  have h : Malformed malformedFoo 19 ((BulkArray.parse malformedFoo 19).get (by decide)) :=
    ⟨by decide, by decide, by simp, by decide⟩
  exact ⟨_, h, (malformed_rejected_iff h).1⟩

/-- `get` with a second argument that is not a bulk. -/
def malformedGet : Ptr := ⟨ascii "*2\r\n$3\r\nget\r\n!bad\r\n", 0⟩

/-- The request is handed to a backend command, and 5563 bytes of the 19 are consumed. -/
theorem malformedGet_forwarded :
    (∃ ba, Malformed malformedGet 19 ba ∧
      createCommand 4096 malformedGet 19 = some (5563, some (.redisBasic ba))) ∧
    ¬ Rejected 4096 malformedGet 19 := by
  have h : Malformed malformedGet 19 ((BulkArray.parse malformedGet 19).get (by decide)) :=
    ⟨by decide, by decide, by simp, by decide⟩
  have hc : createCommand 4096 malformedGet 19 =
      some (5563, some (.redisBasic ((BulkArray.parse malformedGet 19).get (by decide)))) := by
    decide
  refine ⟨⟨_, h, hc⟩, ?_⟩
  rintro ⟨n, reply, he, _⟩
  rw [hc] at he
  simp at he

end Yarmproxy
