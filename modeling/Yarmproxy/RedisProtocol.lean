import Yarmproxy.ReadBuffer

/-! # The RESP wrappers

`Bulk` and `BulkArray` as the source parses them in place. A scan that is not bounded by
the received bytes may run to the end of the allocation; the functions that contain one
return `none` there, since what follows is outside the buffer. -/
namespace Yarmproxy

/-- `SIZE_PARSE_ERROR` -/
def sizeParseError : ℤ := -10001

/-- `size_t(*p - '0')`: the difference is an `int` and may be negative. -/
def digitSize (c : UInt8) : ℕ :=
  intToSize ((if c < 128 then (c.toNat : ℤ) else c.toNat - 256) - 48)

/-- `total = total * 10 + size_t(*p - '0')` -/
def accDigit (total : ℕ) (c : UInt8) : ℕ := (total * 10 + digitSize c) % 2 ^ 64

/-- The header loop of the `Bulk` constructor: it stops at a carriage return or after
`bytes` bytes. Returns `p - data` and the accumulated length. -/
def scanHeader (bytes : ℕ) : Bytes → ℕ → ℕ → ℕ × ℕ
  | [], k, total => (k, total)
  | c :: cs, k, total =>
    if c ≠ ch '\r' ∧ k < bytes then scanHeader bytes cs (k + 1) (accDigit total c)
    else (k, total)

/-- The header loop of `Bulk::total_size`: it stops at a carriage return only. -/
def scanTotal : Bytes → ℕ → ℕ → Option (ℕ × ℕ)
  | [], _, _ => none
  | c :: cs, k, total =>
    if c = ch '\r' then some (k, total) else scanTotal cs (k + 1) (accDigit total c)

structure Bulk where
  rawData : Ptr
  presentSize : ℤ
  deriving DecidableEq, Repr

namespace Bulk

def parseSize (m : Bytes) (bytes : ℕ) : ℤ :=
  if bytes < 4 then 0
  else if m.getD 0 0 ≠ ch '$' then sizeParseError
  else if m.getD 1 0 = ch '-' then
    if m.getD 2 0 ≠ ch '1' then sizeParseError
    else if bytes < 5 then 0
    else if m.getD 3 0 ≠ ch '\r' ∨ m.getD 4 0 ≠ ch '\n' then sizeParseError
    else 5
  else
    let (k, total) := scanHeader bytes (m.drop 1) 1 0
    if m.getD k 0 = ch '\r' ∧ k + 1 < bytes ∧ m.getD (k + 1) 0 = ch '\n' then
      sizeToInt (min bytes ((k + total + 4) % 2 ^ 64))
    else 0

def parse (data : Ptr) (bytes : ℕ) : Bulk := ⟨data, parseSize data.rest bytes⟩

@[simp] theorem rawData_parse (data : Ptr) (bytes : ℕ) : (parse data bytes).rawData = data := rfl

def totalOf (m : Bytes) : Option ℕ :=
  if m.getD 1 0 = ch '-' then some 5
  else (scanTotal (m.drop 1) 1 0).map fun (k, total) => (total + k + 4) % 2 ^ 64

def totalSize (b : Bulk) : Option ℕ := totalOf b.rawData.rest

/-- The offset of the payload from `raw_data()`. -/
def payloadOffset (b : Bulk) : Option ℕ :=
  ((b.rawData.rest.drop 2).findIdx? (· == ch '\n')).map (· + 3)

def payloadSize (b : Bulk) : ℕ :=
  match stoi (b.rawData.rest.drop 1) with
  | none => 0
  | some sz => if sz > 0 then sz.toNat else 0

/-- `std::string(payload_data(), payload_size())`; `none` also when the text would reach
beyond the allocation. -/
def payload (b : Bulk) : Option Bytes := do
  let k ← b.payloadOffset
  if k + b.payloadSize ≤ b.rawData.rest.length then
    some ((b.rawData.rest.drop k).take b.payloadSize)
  else none

def absentSize (b : Bulk) : Option ℕ :=
  b.totalSize.map fun total =>
    if intToSize b.presentSize ≥ total then 0 else subSize total (intToSize b.presentSize)

def completed (b : Bulk) : Option Bool :=
  if b.presentSize > 0 then b.absentSize.map (· == 0) else some false

/-- `none` also when the text would reach beyond the allocation. -/
def toString (b : Bulk) : Option Bytes :=
  if b.rawData.rest.getD 1 0 = ch '-' then some (ascii "nil")
  else do
    let total ← b.totalSize
    let k ← b.payloadOffset
    let absent ← b.absentSize
    let n := subSize (subSize (subSize total k) absent) 2
    if k + n ≤ b.rawData.rest.length then some ((b.rawData.rest.drop k).take n) else none

end Bulk

/-- `BulkArray::SerializePrefix` -/
def serializePrefix (i : ℕ) : Bytes := ascii "*" ++ dec i ++ crlf

/-- The loop of `BulkArray::ParseBulkItems`, with `p` as an offset and `parsed_bytes` the
`int` it accumulates. `fuel` is `max_bulks - items->size()`. -/
def parseBulkItemsLoop (data : Ptr) (bytes : ℕ) :
    ℕ → Ptr → ℤ → List Bulk → Option (ℤ × List Bulk)
  | 0, _, parsed, items => some (parsed, items)
  | fuel + 1, p, parsed, items =>
    if p.off < data.off + bytes then
      let back := Bulk.parse p (data.off + bytes - p.off)
      if back.presentSize < 0 then some (-1, items ++ [back])
      else if back.presentSize = 0 then some (parsed, items)
      else do
        let total ← back.totalSize
        let q ← p.add total
        parseBulkItemsLoop data bytes fuel q (Int.bmod (parsed + total) (2 ^ 32))
          (items ++ [back])
    else some (parsed, items)

theorem parseBulkItemsLoop_acc (data : Ptr) (bytes : ℕ) :
    ∀ (fuel : ℕ) (p : Ptr) (parsed : ℤ) (items : List Bulk),
    parseBulkItemsLoop data bytes fuel p parsed items =
      (parseBulkItemsLoop data bytes fuel p parsed []).map fun r => (r.1, items ++ r.2) := by
  intro fuel
  induction fuel with
  | zero =>
    intro p parsed items
    simp [parseBulkItemsLoop]
  | succ fuel ih =>
    intro p parsed items
    simp only [parseBulkItemsLoop]
    split
    · split
      · simp
      · split
        · simp
        · cases (Bulk.parse p (data.off + bytes - p.off)).totalSize with
          | none => rfl
          | some total =>
            simp only [Option.bind_eq_bind, Option.bind_some]
            cases p.add total with
            | none => rfl
            | some q =>
              simp only [Option.bind_some]
              rw [ih, ih q _ ([] ++ _), Option.map_map]
              simp [Function.comp_def]
    · simp

def parseBulkItems (data : Ptr) (bytes maxBulks : ℕ) : Option (ℤ × List Bulk) :=
  parseBulkItemsLoop data bytes maxBulks data 0 []

structure BulkArray where
  rawData : Ptr
  /-- `parsed_size_`, a `size_t` -/
  parsedField : ℕ
  items : List Bulk
  deriving DecidableEq, Repr

namespace BulkArray

def scanCount : Bytes → ℕ → ℕ → ℕ × ℕ
  | [], k, bulks => (k, bulks)
  | c :: cs, k, bulks => if isDigit c then scanCount cs (k + 1) (accDigit bulks c) else (k, bulks)

theorem scanCount_eq : ∀ (l : Bytes) (k t : ℕ), scanCount l k t =
    (k + (l.takeWhile isDigit).length, (l.takeWhile isDigit).foldl accDigit t) := by
  intro l
  induction l with
  | nil => intro k t; rfl
  | cons c l ih =>
    intro k t
    rw [scanCount]
    by_cases h : isDigit c = true
    · rw [if_pos h, ih, List.takeWhile_cons_of_pos h, List.length_cons, List.foldl_cons]
      congr 1
      omega
    · rw [if_neg h, List.takeWhile_cons_of_neg h]
      rfl

def parse (data : Ptr) (bytes : ℕ) : Option BulkArray :=
  let m := data.rest
  if bytes < 4 then some ⟨data, 0, []⟩
  else if m.getD 0 0 ≠ ch '*' then some ⟨data, intToSize sizeParseError, []⟩
  else
    let (k, bulks) := scanCount ((m.take bytes).drop 1) 1 0
    if k + 2 > bytes then some ⟨data, 0, []⟩
    else if k = 1 ∨ m.getD k 0 ≠ ch '\r' ∨ m.getD (k + 1) 0 ≠ ch '\n' then
      some ⟨data, intToSize sizeParseError, []⟩
    else do
      let p : Ptr := ⟨data.mem, data.off + k + 2⟩
      let (ret, items) ← parseBulkItems p (bytes - (k + 2)) bulks
      if ret < 0 then some ⟨data, intToSize sizeParseError, items⟩
      else some ⟨data, addSize (k + 2) (intToSize ret), items⟩

def parsedSize (ba : BulkArray) : ℤ := sizeToInt ba.parsedField

def totalBulks (ba : BulkArray) : ℕ :=
  match stoi (ba.rawData.rest.drop 1) with
  | none => 0
  | some i => intToSize i

def presentBulks (ba : BulkArray) : ℕ := ba.items.length

def absentBulks (ba : BulkArray) : ℕ := subSize ba.totalBulks ba.presentBulks

def completed (ba : BulkArray) : Option Bool :=
  if ba.items.length ≠ ba.totalBulks then some false
  else match ba.items.getLast? with
    | none => some true
    | some back => back.absentSize.map fun absent => !decide (0 < absent)

def totalSize (ba : BulkArray) : Option ℕ :=
  if ba.items.length < ba.totalBulks then some 0
  else if ba.totalBulks = 0 then some 4
  else match ba.items with
    | [] => none
    | front :: _ =>
      ba.items.foldlM (fun total item => item.totalSize.map (addSize total))
        (front.rawData.off - ba.rawData.off)

end BulkArray
end Yarmproxy
