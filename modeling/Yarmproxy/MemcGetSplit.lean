import Yarmproxy.MemcGetCommand
import Yarmproxy.MemcLine

/-! # Splitting a `get` line

The constructor cuts the line into words, starting behind its fourth byte, and queues each
word with the byte in front of it for the endpoint the word is located at. What every backend
is sent is then compared with the line a client would send it. -/
namespace Yarmproxy

namespace MemcGetCommand

variable {ε : Type}

/-- The text between the offsets `p` and `q`, which is what `Locate` is asked for. -/
def word (m : Bytes) (key : ℕ × ℕ) : Bytes := (m.drop key.1).take (key.2 - key.1)

def piece (m : Bytes) (key : ℕ × ℕ) : Bytes := (m.drop (key.1 - 1)).take (1 + key.2 - key.1)

theorem drop_lead (pre rest : Bytes) (lead : UInt8) :
    (pre ++ lead :: rest).drop (pre.length + 1) = rest := by
  rw [← List.drop_drop, List.drop_left]
  rfl

theorem word_eq (pre w rest : Bytes) (lead : UInt8) :
    word (pre ++ lead :: (w ++ rest)) (pre.length + 1, pre.length + 1 + w.length) = w := by
  rw [word, drop_lead, Nat.add_sub_cancel_left, List.take_left]

theorem piece_eq (pre w rest : Bytes) (lead : UInt8) :
    piece (pre ++ lead :: (w ++ rest)) (pre.length + 1, pre.length + 1 + w.length) = lead :: w := by
  have hlen : 1 + (pre.length + 1 + w.length) - (pre.length + 1) = (lead :: w).length := by
    simp only [List.length_cons]
    omega
  rw [piece, Nat.add_sub_cancel, List.drop_left]
  simp only [hlen, ← List.cons_append, List.take_left]

/-- A word as `Locate` sees it and as it is queued. -/
def cut (m : Bytes) (key : ℕ × ℕ) : Bytes × Bytes := (word m key, piece m key)

theorem cut_eq (pre w rest : Bytes) (lead : UInt8) :
    cut (pre ++ lead :: (w ++ rest)) (pre.length + 1, pre.length + 1 + w.length) =
      (w, lead :: w) := by
  rw [cut, word_eq, piece_eq]

theorem scan_word {w : Bytes} {c : UInt8} (rest : Bytes)
    (hw : ∀ d ∈ w, d ≠ ch ' ' ∧ d ≠ ch '\r' ∧ d ≠ ch '\n') (hc : c = ch ' ' ∨ c = ch '\r') :
    (w ++ c :: rest).findIdx? (fun c => c == ch ' ' || c == ch '\r') = some w.length := by
  apply Lists.findIdx?_stops
  · intro d hd
    simp [(hw d hd).1, (hw d hd).2.1]
  · rcases hc with rfl | rfl <;> rfl

theorem scanKeys_end {m : Bytes} {size p : ℕ} (h : size - 2 ≤ p) (fuel : ℕ) :
    scanKeys m size fuel p = some [] := by
  cases fuel with
  | zero => rfl
  | succ fuel => rw [scanKeys, if_neg (by omega)]

theorem scanKeys_succ {m : Bytes} {size p : ℕ} (hp : p < size - 2) (fuel : ℕ) :
    scanKeys m size (fuel + 1) p =
      ((m.drop p).findIdx? fun c => c == ch ' ' || c == ch '\r').bind fun n =>
        (scanKeys m size fuel (p + n + 1)).map ((p, p + n) :: ·) := by
  rw [scanKeys, if_pos hp]
  cases (m.drop p).findIdx? fun c => c == ch ' ' || c == ch '\r' with
  | none => rfl
  | some n =>
    simp only [Option.bind_eq_bind, Option.bind_some]
    cases scanKeys m size fuel (p + n + 1) <;> rfl

theorem scanKeys_words {m tail : Bytes} {size : ℕ} (ws : List Bytes) (hws : ∀ k ∈ ws, IsKey k) :
    ∀ (pre w : Bytes) (lead : UInt8) (fuel : ℕ),
      (∀ c ∈ w, c ≠ ch ' ' ∧ c ≠ ch '\r' ∧ c ≠ ch '\n') → (ws = [] → w ≠ []) →
      ws.length < fuel → m = pre ++ lead :: (w ++ (spaced ws ++ (crlf ++ tail))) →
      size = pre.length + 1 + w.length + (spaced ws).length + 2 →
      ∃ keys, scanKeys m size fuel (pre.length + 1) = some keys ∧
        keys.map (cut m) = (w, lead :: w) :: ws.map fun k => (k, ch ' ' :: k) := by
  induction ws with
  | nil =>
    intro pre w lead fuel hw hne hfuel hm hsize
    obtain ⟨fuel, rfl⟩ := Nat.exists_eq_succ_of_ne_zero (Nat.ne_zero_of_lt hfuel)
    have hlen := List.length_pos_iff.mpr (hne rfl)
    simp only [spaced, List.flatMap_nil, List.length_nil] at hsize
    refine ⟨[(pre.length + 1, pre.length + 1 + w.length)], ?_, ?_⟩
    · have hdrop : m.drop (pre.length + 1) = w ++ ch '\r' :: (ch '\n' :: tail) := by
        rw [hm, drop_lead]
        rfl
      rw [scanKeys_succ (by omega), hdrop, scan_word _ hw (Or.inr rfl), Option.bind_some,
        scanKeys_end (by omega)]
      rfl
    · rw [List.map_singleton, hm, cut_eq]
      rfl
  | cons w' ws ih =>
    intro pre w lead fuel hw _ hfuel hm hsize
    obtain ⟨fuel, rfl⟩ := Nat.exists_eq_succ_of_ne_zero (Nat.ne_zero_of_lt hfuel)
    have hkey := hws w' (by simp)
    simp only [spaced_cons, List.length_cons, List.length_append] at hsize hfuel
    obtain ⟨keys, hkeys, hcuts⟩ := ih (fun k hk => hws k (by simp [hk]))
      (pre ++ lead :: w) w' (ch ' ') fuel hkey.plain (fun _ => hkey.ne_nil) (by omega)
      (by rw [hm]; simp) (by simp only [List.length_append, List.length_cons]; omega)
    have hlen : (pre ++ lead :: w).length + 1 = pre.length + 1 + w.length + 1 := by
      simp only [List.length_append, List.length_cons]
      omega
    have hcut := cut_eq pre w (spaced (w' :: ws) ++ (crlf ++ tail)) lead
    rw [← hm] at hcut
    refine ⟨(pre.length + 1, pre.length + 1 + w.length) :: keys, ?_, ?_⟩
    · rw [scanKeys_succ (by omega), hm, drop_lead, spaced_cons, List.cons_append,
        scan_word _ hw (Or.inl rfl), Option.bind_some, ← hlen]
      rw [hm, spaced_cons, List.cons_append] at hkeys
      rw [hkeys]
      rfl
    · rw [List.map_cons, hcut, hcuts]
      rfl

def endpoint (c : MemcGetCommand ε) (b : ℕ) : ε := (c.backend b).remoteEndpoint

/-- The segments of backend `b` in a row. -/
def queued (c : MemcGetCommand ε) (b : ℕ) : Bytes := (c.subquery b).segments.flatMap (·.bytes)

theorem queued_closeSegments (c : MemcGetCommand ε) (b : ℕ) :
    (closeSegments c).queued b = c.queued b ++ crlf := by
  simp [queued, closeSegments]

structure Queued [DecidableEq ε] (locate : Bytes → ε) (pushed : List (Bytes × Bytes))
    (c : MemcGetCommand ε) : Prop where
  distinct : ∀ i < c.count, ∀ j < c.count, c.endpoint i = c.endpoint j → i = j
  needed : ∀ i < c.count, ∃ d ∈ pushed, locate d.1 = c.endpoint i
  covered : ∀ d ∈ pushed, ∃ i < c.count, c.endpoint i = locate d.1
  bytes : ∀ i < c.count, c.queued i =
    ascii "get" ++ (pushed.filter (locate ·.1 = c.endpoint i)).flatMap (·.2)

section Push
variable [DecidableEq ε] {locate : Bytes → ε} {pool : Pool} {data : Ptr}
  {pushed : List (Bytes × Bytes)} {c : MemcGetCommand ε}

theorem Queued.more (h : Queued locate pushed c) {b : ℕ} (hb : b < c.count) {w : Bytes}
    (he : c.endpoint b = locate w) (s : Segment) :
    Queued locate (pushed ++ [(w, s.bytes)])
      (c.setSubquery b { c.subquery b with segments := (c.subquery b).segments ++ [s] }) := by
  have hend : ∀ i, (c.setSubquery b { c.subquery b with
      segments := (c.subquery b).segments ++ [s] }).endpoint i = c.endpoint i := by
    intro i
    by_cases hi : i = b
    · subst hi
      simp [setSubquery, endpoint, backend]
    · simp [setSubquery, endpoint, backend, hi]
  constructor
  · intro i hi j hj hij
    rw [hend, hend] at hij
    exact h.distinct i hi j hj hij
  · intro i hi
    obtain ⟨d, hd, hl⟩ := h.needed i hi
    exact ⟨d, by simp [hd], (hl.trans (hend i).symm)⟩
  · intro d hd
    rcases List.mem_append.mp hd with hd | hd
    · obtain ⟨i, hi, hl⟩ := h.covered d hd
      exact ⟨i, hi, (hend i).trans hl⟩
    · obtain rfl := List.mem_singleton.mp hd
      exact ⟨b, hb, (hend b).trans he⟩
  · intro i hi
    rw [hend, List.filter_append, List.flatMap_append, ← List.append_assoc, ← h.bytes i hi]
    by_cases hib : i = b
    · subst hib
      simp [setSubquery, queued, he]
    · have hne : ¬ locate w = c.endpoint i := fun hw => hib (h.distinct i hi b hb (by rw [he, hw]))
      simp [setSubquery, queued, hib, hne]

theorem Queued.open_ (h : Queued locate pushed c) {w : Bytes} {c' : MemcGetCommand ε}
    {k : BackendConn ε} {s : Segment} (hn : ∀ i < c.count, c.endpoint i ≠ locate w)
    (hk : k.remoteEndpoint = locate w) (hcount : c'.count = c.count + 1)
    (hsub : c'.subquery = Function.update c.subquery c.count ⟨k, [⟨none, ascii "get"⟩, s]⟩) :
    Queued locate (pushed ++ [(w, s.bytes)]) c' := by
  have hold : ∀ i < c.count, c'.endpoint i = c.endpoint i ∧ c'.queued i = c.queued i := by
    intro i hi
    have hne : i ≠ c.count := by omega
    simp [hsub, endpoint, queued, backend, hne]
  have hnew : c'.endpoint c.count = locate w ∧ c'.queued c.count = ascii "get" ++ s.bytes := by
    simp [hsub, endpoint, queued, backend, hk]
  have hsplit : ∀ i < c'.count, i < c.count ∨ i = c.count := fun i hi => by omega
  constructor
  · intro i hi j hj hij
    rcases hsplit i hi with hi | rfl <;> rcases hsplit j hj with hj | rfl
    · rw [(hold i hi).1, (hold j hj).1] at hij
      exact h.distinct i hi j hj hij
    · rw [(hold i hi).1, hnew.1] at hij
      exact absurd hij (hn i hi)
    · rw [(hold j hj).1, hnew.1] at hij
      exact absurd hij.symm (hn j hj)
    · rfl
  · intro i hi
    rcases hsplit i hi with hi | rfl
    · obtain ⟨d, hd, hl⟩ := h.needed i hi
      exact ⟨d, by simp [hd], hl.trans (hold i hi).1.symm⟩
    · exact ⟨(w, s.bytes), by simp, hnew.1.symm⟩
  · intro d hd
    rcases List.mem_append.mp hd with hd | hd
    · obtain ⟨i, hi, hl⟩ := h.covered d hd
      exact ⟨i, by omega, (hold i hi).1.trans hl⟩
    · obtain rfl := List.mem_singleton.mp hd
      exact ⟨c.count, by omega, hnew.1⟩
  · intro i hi
    rw [List.filter_append, List.flatMap_append]
    rcases hsplit i hi with hi | rfl
    · have hne : ¬ locate w = c.endpoint i := fun hw => hn i hi hw.symm
      rw [(hold i hi).1, (hold i hi).2, h.bytes i hi]
      simp [hne]
    · have hnone : pushed.filter (locate ·.1 = locate w) = [] := by
        rw [List.filter_eq_nil_iff]
        intro d hd hw
        obtain ⟨i, hi, hl⟩ := h.covered d hd
        exact hn i hi (hl.trans (by simpa using hw))
      rw [hnew.1, hnew.2, hnone]
      simp

theorem pushKey_queued {s : ReadBuffer × MemcGetCommand ε} (h : Queued locate pushed s.2)
    (key : ℕ × ℕ) :
    Queued locate (pushed ++ [cut data.rest key])
      (pushKey locate pool data s key).2 := by
  obtain ⟨buffer, c⟩ := s
  obtain ⟨p, q⟩ := key
  change Queued locate pushed c at h
  unfold pushKey
  simp only
  split
  next b hb =>
    have hfound := List.find?_some hb
    have hmem := List.mem_of_find?_eq_some hb
    exact h.more (List.mem_range.mp hmem) (of_decide_eq_true hfound)
      ⟨some (data.off + p - 1), piece data.rest (p, q)⟩
  next hb =>
    rw [List.find?_eq_none] at hb
    have hn : ∀ i < c.count, c.endpoint i ≠ locate (word data.rest (p, q)) := by
      intro i hi he
      exact hb i (List.mem_range.mpr hi) (decide_eq_true he)
    exact h.open_ hn (s := ⟨some (data.off + p - 1), piece data.rest (p, q)⟩) rfl rfl rfl

theorem pushKeys_queued (keys : List (ℕ × ℕ)) :
    ∀ (pushed : List (Bytes × Bytes)) (s : ReadBuffer × MemcGetCommand ε),
      Queued locate pushed s.2 →
      Queued locate (pushed ++ keys.map (cut data.rest))
        (keys.foldl (pushKey locate pool data) s).2 := by
  induction keys with
  | nil =>
    intro pushed s h
    simpa using h
  | cons key keys ih =>
    intro pushed s h
    have := ih _ (pushKey locate pool data s key) (pushKey_queued h key)
    simpa using this

end Push

section New
variable [DecidableEq ε] {locate : Bytes → ε} {data : Ptr}

theorem new_queued [Inhabited ε] (locate : Bytes → ε) (pool : Pool) (buffer : ReadBuffer)
    {pre w tail : Bytes} {lead : UInt8} {ws : List Bytes}
    (hd : data.rest = pre ++ lead :: (w ++ (spaced ws ++ (crlf ++ tail)))) (hpre : pre.length = 3)
    (hw : ∀ c ∈ w, c ≠ ch ' ' ∧ c ≠ ch '\r' ∧ c ≠ ch '\n') (hws : ∀ k ∈ ws, IsKey k)
    (hne : ws = [] → w ≠ []) :
    ∃ buffer' c, new locate pool buffer data (4 + w.length + (spaced ws).length + 2) =
        some (buffer', closeSegments c) ∧
      Queued locate ((w, lead :: w) :: ws.map fun k => (k, ch ' ' :: k)) c := by
  have hcount : ws.length ≤ (spaced ws).length := by
    clear hd hws hne
    induction ws with
    | nil => simp
    | cons k ks ih =>
      simp only [spaced_cons, List.length_cons, List.length_append]
      omega
  obtain ⟨keys, hkeys, hcuts⟩ := scanKeys_words ws hws pre w lead
    (4 + w.length + (spaced ws).length + 2) hw hne (by omega) hd (by rw [hpre])
  rw [hpre] at hkeys
  rw [new, hkeys]
  simp only [Option.bind_eq_bind, Option.bind_some]
  refine ⟨_, _, rfl, ?_⟩
  rw [← hcuts]
  refine pushKeys_queued keys [] _ ⟨?_, ?_, ?_, ?_⟩ <;> simp

/-- Each backend is sent the line of its own keys, and there is exactly one for every key. -/
structure Splits (locate : Bytes → ε) (verb : Bytes) (keys : List Bytes) (c : MemcGetCommand ε) :
    Prop where
  lines : ∀ b < c.count, c.queued b = requestLine verb (keys.filter (locate · = c.endpoint b))
  unique : ∀ k ∈ keys, ∃! b, b < c.count ∧ c.endpoint b = locate k
  needed : ∀ b < c.count, ∃ k ∈ keys, locate k = c.endpoint b

theorem pieces_spaced (keys : List Bytes) (ep : ε) :
    ((keys.map fun k => (k, ch ' ' :: k)).filter (locate ·.1 = ep)).flatMap (·.2) =
      spaced (keys.filter (locate · = ep)) := by
  rw [List.filter_map, List.flatMap_map]
  rfl

theorem Queued.splits_get {c : MemcGetCommand ε} {keys : List Bytes}
    (h : Queued locate (keys.map fun k => (k, ch ' ' :: k)) c) :
    Splits locate (ascii "get") keys (closeSegments c) := by
  constructor
  · intro b hb
    rw [queued_closeSegments, h.bytes b hb, pieces_spaced, List.append_assoc]
    rfl
  · intro k hk
    obtain ⟨b, hb, he⟩ := h.covered _ (List.mem_map_of_mem hk)
    refine ⟨b, ⟨hb, he⟩, ?_⟩
    rintro b' ⟨hb', he'⟩
    exact h.distinct b' hb' b hb (he'.trans he.symm)
  · intro b hb
    obtain ⟨d, hd, he⟩ := h.needed b hb
    obtain ⟨k, hk, rfl⟩ := List.mem_map.mp hd
    exact ⟨k, hk, he⟩

theorem Queued.splits_gets_iff {c : MemcGetCommand ε} {keys : List Bytes} (hne : keys ≠ [])
    (h : Queued locate (([], [ch 's']) :: keys.map fun k => (k, ch ' ' :: k)) c) :
    Splits locate (ascii "gets") keys (closeSegments c) ↔ ∀ k ∈ keys, locate k = locate [] := by
  have hqueued : ∀ b < c.count, c.queued b = ascii "get" ++
      ((if locate [] = c.endpoint b then [ch 's'] else []) ++
        spaced (keys.filter (locate · = c.endpoint b))) := by
    intro b hb
    rw [h.bytes b hb, List.filter_cons]
    by_cases he : locate [] = c.endpoint b
    · simp [he, ← pieces_spaced]
    · simp [he, ← pieces_spaced]
  constructor
  · intro hs k hk
    by_contra hloc
    obtain ⟨b, ⟨hb, he⟩, -⟩ := hs.unique k hk
    have hline := hs.lines b hb
    have hb' : c.endpoint b = locate k := he
    rw [queued_closeSegments, hqueued b hb, hb', if_neg (fun e => hloc e.symm)] at hline
    -- the fourth byte is the blank in front of the first key
    obtain ⟨k', ks, hks⟩ : ∃ k' ks, keys.filter (locate · = locate k) = k' :: ks :=
      List.exists_cons_of_ne_nil (List.ne_nil_of_mem (List.mem_filter.mpr ⟨hk, by simp⟩))
    rw [hks] at hline
    have hbyte := congrArg (·[3]?) hline
    simp [requestLine, ascii] at hbyte
    exact absurd hbyte (by decide)
  · intro hall
    obtain ⟨k₀, hk₀⟩ := List.exists_mem_of_ne_nil keys hne
    have hend : ∀ b < c.count, locate [] = c.endpoint b := by
      intro b hb
      obtain ⟨d, hd, he⟩ := h.needed b hb
      rcases List.mem_cons.mp hd with rfl | hd
      · exact he
      · obtain ⟨k, hk, rfl⟩ := List.mem_map.mp hd
        exact (hall k hk).symm.trans he
    constructor
    · intro b hb
      rw [queued_closeSegments, hqueued b hb, if_pos (hend b hb), requestLine]
      simp [ascii]
      rfl
    · intro k hk
      obtain ⟨b, hb, he⟩ := h.covered (k, ch ' ' :: k) (by simp [hk])
      refine ⟨b, ⟨hb, he⟩, ?_⟩
      rintro b' ⟨hb', he'⟩
      exact h.distinct b' hb' b hb (he'.trans he.symm)
    · intro b hb
      exact ⟨k₀, hk₀, (hall k₀ hk₀).trans (hend b hb)⟩

end New

/-- A `get` or `gets` line over some keys at the front of the received bytes. -/
structure GetRequest (verb : Bytes) (keys : List Bytes) (data : Ptr) (size : ℕ) : Prop where
  verb_eq : verb = ascii "get" ∨ verb = ascii "gets"
  keys_ne : keys ≠ []
  isKey : ∀ k ∈ keys, IsKey k
  rest : ∃ tail, data.rest = requestLine verb keys ++ tail
  size_le : (requestLine verb keys).length ≤ size

section Request
variable {verb : Bytes} {keys : List Bytes} {data : Ptr} {size : ℕ}

theorem GetRequest.created (h : GetRequest verb keys data size) (bufferSize : ℕ) :
    createCommand bufferSize data size =
      some ((requestLine verb keys).length,
        some (.memcGet data (requestLine verb keys).length)) := by
  obtain ⟨tail, hrest⟩ := h.rest
  have hknown : verb ∈ memcCommandNames.map Prod.fst := by
    rcases h.verb_eq with rfl | rfl <;> decide
  have htype : getMemcCommandType (requestLine verb keys) = .get := by
    rw [getMemcCommandType_requestLine (verb_plain _ hknown).1 h.keys_ne]
    rcases h.verb_eq with rfl | rfl <;> decide
  rw [createCommand_requestLine bufferSize hknown h.isKey hrest h.size_le, createMemc]
  simp only [bytes_requestLine hrest, htype]

variable {ε : Type} [DecidableEq ε] [Inhabited ε] {locate : Bytes → ε} {pool : Pool}
  {buffer : ReadBuffer}

/-- The line is handed to a `MemcGetCommand`, and that splits it as it should exactly when the
verb is `get`, or all keys are at home where the empty key is. -/
theorem get_split_iff (h : GetRequest verb keys data size) (bufferSize : ℕ) :
    createCommand bufferSize data size =
        some ((requestLine verb keys).length, some (.memcGet data (requestLine verb keys).length)) ∧
      ((∃ buffer' c, new locate pool buffer data (requestLine verb keys).length =
        some (buffer', c) ∧
          Splits locate verb keys c) ↔
        verb = ascii "get" ∨ ∀ k ∈ keys, locate k = locate []) := by
  refine ⟨h.created bufferSize, ?_⟩
  obtain ⟨tail, hrest⟩ := h.rest
  rcases h.verb_eq with rfl | rfl
  · obtain ⟨k, ks, rfl⟩ := List.exists_cons_of_ne_nil h.keys_ne
    have hlen : (requestLine (ascii "get") (k :: ks)).length = 4 + k.length + (spaced ks).length +
        2 := by
      simp only [requestLine, spaced_cons, List.length_append, List.length_cons]
      have : (ascii "get").length = 3 ∧ crlf.length = 2 := by decide
      omega
    have hkey := h.isKey k (by simp)
    have hwords : data.rest = ascii "get" ++ ch ' ' :: (k ++ (spaced ks ++ (crlf ++ tail))) := by
      rw [hrest]
      simp [requestLine]
    obtain ⟨buffer', c, hnew, hq⟩ := new_queued locate pool buffer hwords (by decide) hkey.plain
      (fun k' hk' => h.isKey k' (by simp [hk'])) (fun _ => hkey.ne_nil)
    rw [hlen]
    exact ⟨fun _ => Or.inl rfl, fun _ => ⟨buffer', _, hnew, Queued.splits_get hq⟩⟩
  · have hlen : (requestLine (ascii "gets") keys).length = 4 + 0 + (spaced keys).length + 2 := by
      simp only [requestLine, List.length_append]
      have : (ascii "gets").length = 4 ∧ crlf.length = 2 := by decide
      omega
    have hwords : data.rest = ascii "get" ++ ch 's' :: ([] ++ (spaced keys ++ (crlf ++ tail))) := by
      rw [hrest]
      simp [requestLine, ascii]
    obtain ⟨buffer', c, hnew, hq⟩ := new_queued locate pool buffer hwords (by decide) (by simp)
      h.isKey (fun hnil => absurd hnil h.keys_ne)
    rw [hlen]
    have hverb : ascii "gets" ≠ ascii "get" := by decide
    simp only [List.length_nil] at hnew
    simp only [hnew, Option.some.injEq, Prod.mk.injEq, hverb, false_or]
    rw [← Queued.splits_gets_iff h.keys_ne hq]
    constructor
    · rintro ⟨_, _, ⟨rfl, rfl⟩, hs⟩
      exact hs
    · exact fun hs => ⟨buffer', _, ⟨rfl, rfl⟩, hs⟩

end Request

def keyPool : Pool := fun _ => ([], true)

def keyBuffer : ReadBuffer := .new []

def getKeys : Ptr := ⟨ascii "get a bb\r\n", 0⟩

def byLength (key : Bytes) : Bool := key.length == 1

/-- Two keys at two endpoints. -/
theorem getKey_split :
    GetRequest (ascii "get") [ascii "a", ascii "bb"] getKeys 10 ∧
      ∃ buffer' c, new byLength keyPool keyBuffer getKeys 10 = some (buffer', c) ∧ c.count = 2 ∧
        Splits byLength (ascii "get") [ascii "a", ascii "bb"] c := by
  have h : GetRequest (ascii "get") [ascii "a", ascii "bb"] getKeys 10 :=
    ⟨by decide, by decide, by decide, ⟨[], by decide⟩, by decide⟩
  have hcount : (new byLength keyPool keyBuffer getKeys 10).map (fun r => r.2.count) = some 2 := by
    decide +kernel
  obtain ⟨buffer', c, hnew, hsplits⟩ : ∃ buffer' c,
      new byLength keyPool keyBuffer getKeys 10 = some (buffer', c) ∧
        Splits byLength (ascii "get") [ascii "a", ascii "bb"] c :=
    (get_split_iff h 4096).2.mpr (Or.inl rfl)
  refine ⟨h, buffer', c, hnew, ?_, hsplits⟩
  rw [hnew] at hcount
  exact Option.some.inj hcount

def getsKey : Ptr := ⟨ascii "gets k\r\n", 0⟩

def emptyApart (key : Bytes) : Bool := key == []

def getsNew : Option (ReadBuffer × MemcGetCommand Bool) :=
  new emptyApart keyPool keyBuffer getsKey 8

theorem getsNew_isSome : getsNew.isSome = true := by decide +kernel

/-- `gets k` asks for the value without its unique number, and sends the bare verb to the
backend of the empty key. -/
theorem getsKey_not_split :
    GetRequest (ascii "gets") [ascii "k"] getsKey 8 ∧
      ∃ buffer' c, new emptyApart keyPool keyBuffer getsKey 8 = some (buffer', c) ∧
        c.count = 2 ∧ c.queued 0 = ascii "gets\r\n" ∧ c.queued 1 = ascii "get k\r\n" ∧
        ¬ Splits emptyApart (ascii "gets") [ascii "k"] c := by
  refine ⟨⟨by decide, by decide, by decide, ⟨[], by decide⟩, by decide⟩, _, _,
    (Option.some_get getsNew_isSome).symm, by decide +kernel, by decide +kernel, by
      decide +kernel, ?_⟩
  intro h
  have hline := h.lines 1 (by decide +kernel)
  exact absurd hline (by decide +kernel)

end MemcGetCommand
end Yarmproxy
