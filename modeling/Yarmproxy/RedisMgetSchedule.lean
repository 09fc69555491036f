import Yarmproxy.RedisMgetBackend
import Yarmproxy.Outcome

/-! # The reply schedule of a Redis `MGET`

The request is a plan: its keys in order, each with the backend that is asked for it. `done`
are the entries whose bulks have been taken from the replies, and `todo` is what the waiting
queue still stands for. -/
namespace Yarmproxy
namespace RedisMgetCommand

abbrev Plan := List (ℕ × Bytes)

/-- The keys that `b` is asked for. -/
def keysOf (l : Plan) (b : ℕ) : List Bytes := (l.filter (·.1 = b)).map Prod.snd

theorem keysOf_append (l l' : Plan) (b : ℕ) : keysOf (l ++ l') b = keysOf l b ++ keysOf l' b := by
  simp [keysOf]

theorem keysOf_of_owner {l : Plan} {b : ℕ} (h : ∀ e ∈ l, e.1 = b) :
    keysOf l b = l.map Prod.snd := by
  rw [keysOf, List.filter_eq_self.mpr (by simpa using h)]

theorem keysOf_of_ne {l : Plan} {b i : ℕ} (h : ∀ e ∈ l, e.1 = b) (hi : i ≠ b) :
    keysOf l i = [] := by
  rw [keysOf, List.filter_eq_nil_iff.mpr, List.map_nil]
  intro e he
  simpa [h e he] using Ne.symm hi

/-- The owners of the entries that the runs of the waiting queue stand for. -/
def owners (queue : List (ℕ × ℕ)) : List ℕ := queue.flatMap fun r => List.replicate r.2 r.1

section Run
variable {todo : Plan} {b n j : ℕ} {queue : List (ℕ × ℕ)}
  (h : owners ((b, n) :: queue) = todo.map Prod.fst) (hj : j ≤ n)
include h hj

theorem length_of_run : j ≤ todo.length := by
  have := congrArg List.length h
  simp only [owners, List.flatMap_cons, List.length_append, List.length_replicate,
    List.length_map] at this
  omega

theorem owner_of_run : ∀ e ∈ todo.take j, e.1 = b := by
  have htake : (todo.take j).map Prod.fst = List.replicate j b := by
    rw [List.map_take, ← h, owners, List.flatMap_cons,
      List.take_append_of_le_length (by simpa using hj), List.take_replicate, Nat.min_eq_left hj]
  intro e he
  exact List.eq_of_mem_replicate (htake ▸ List.mem_map_of_mem he)

theorem owners_drop_run : owners ((b, n - j) :: queue) = (todo.drop j).map Prod.fst := by
  rw [List.map_drop, ← h, owners, owners, List.flatMap_cons, List.flatMap_cons,
    List.drop_append_of_le_length (by simpa using hj), List.drop_replicate]

theorem keysOf_run : (keysOf (todo.take j) b).length = j ∧
    keysOf todo b = keysOf (todo.take j) b ++ keysOf (todo.drop j) b := by
  constructor
  · rw [keysOf_of_owner (owner_of_run h hj), List.length_map, List.length_take,
      Nat.min_eq_left (length_of_run h hj)]
  · rw [← keysOf_append, List.take_append_drop]

theorem keysOf_take_run : keysOf (todo.take j) b = (keysOf todo b).take j := by
  obtain ⟨hlen, hsplit⟩ := keysOf_run h hj
  rw [hsplit, List.take_left' hlen]

theorem keysOf_drop_run : keysOf (todo.drop j) b = (keysOf todo b).drop j := by
  obtain ⟨hlen, hsplit⟩ := keysOf_run h hj
  rw [hsplit, List.drop_left' hlen]

theorem keysOf_drop_of_ne {i : ℕ} (hi : i ≠ b) : keysOf (todo.drop j) i = keysOf todo i := by
  conv_rhs => rw [← List.take_append_drop j todo, keysOf_append,
    keysOf_of_ne (owner_of_run h hj) hi, List.nil_append]

end Run

variable {ε : Type} {store : ε → Bytes → Item} {clean : Prop} {plan done todo : Plan} {ep : ℕ → ε}
  {exempt : Option ℕ} {out : Bytes} {writing : Option (Option ℕ)} {first : Bool} {b : ℕ}
  {c : RedisMgetCommand ε} {S F : ℕ → Bytes}

/-- The backend whose turn it is to reply. -/
def front (c : RedisMgetCommand ε) : Option ℕ := c.waitingReplyQueue.head?.map Prod.fst

theorem exists_run_of_front (h : c.front = some b) :
    ∃ n queue, c.waitingReplyQueue = (b, n) :: queue := by
  rw [front] at h
  cases hq : c.waitingReplyQueue with
  | nil => simp [hq] at h
  | cons run queue =>
    obtain ⟨f, n⟩ := run
    obtain rfl : f = b := by simpa [hq] using h
    exact ⟨n, queue, rfl⟩

def value (store : ε → Bytes → Item) (c : RedisMgetCommand ε) (e : ℕ × Bytes) : Item :=
  answer store (c.backend e.1) e.2

theorem serializePrefix_ne_nil (n : ℕ) : serializePrefix n ≠ [] :=
  List.length_pos_iff.mp (Nat.lt_of_lt_of_le (by decide) (four_le_serializePrefix n))

/-- Whose turn it is to act: the client's, to take a write, or the front backend's. -/
inductive Turn (S : ℕ → Bytes) (writing : Option (Option ℕ)) (c : RedisMgetCommand ε) : Prop where
  | free : writing = none → c.reply.isWriting = false →
    (∀ f queue, c.waitingReplyQueue = (f, 0) :: queue →
      0 < (c.backend f).buffer.parsedUnreceivedBytes ∨ 0 < (c.backend f).buffer.unprocessedBytes) →
    Turn S writing c
  | busy {r} : writing = some (some r) → r < c.count → c.front = some r →
    c.reply.isWriting = true → c.replyingBackend = some r →
    (c.backend r).buffer.unprocessedBytes = 0 → S r ≠ [] → Turn S writing c

/-- `F b` of the reply of `b` has been handed to the client. `pending` is the part of the taken
bulks that has not, which belongs to the front backend. -/
structure Relayed (store : ε → Bytes → Item) (plan done : Plan) (F : ℕ → Bytes)
    (pending out : Bytes) (c : RedisMgetCommand ε) : Prop where
  reply : out ++ pending = serializePrefix plan.length ++ encodeItems (done.map (value store c))
  shares : ∀ b < c.count, F b ++ (if c.front = some b then pending else []) =
    encodeItems ((keysOf done b).map (answer store (c.backend b)))
  rest : c.front = none → pending = []

inductive Progress (store : ε → Bytes → Item) (plan done : Plan) (S F : ℕ → Bytes) (out : Bytes)
    (writing : Option (Option ℕ)) (first : Bool) (c : RedisMgetCommand ε) : Prop where
  | idle : c.replyPrefix = serializePrefix plan.length → done = [] → c.reply.isWriting = false →
    (∀ r ∈ c.waitingReplyQueue, 0 < r.2) → out = [] → writing = none → first = false →
    Progress store plan done S F out writing first c
  | heading : c.replyPrefix = serializePrefix plan.length → done = [] → c.reply.isWriting = false →
    (∀ r ∈ c.waitingReplyQueue, 0 < r.2) → out = serializePrefix plan.length →
    writing = some none → first = true → Progress store plan done S F out writing first c
  | body (pending : Bytes) : c.replyPrefix = [] → Relayed store plan done F pending out c →
    Turn S writing c → first = true → Progress store plan done S F out writing first c

structure Good (store : ε → Bytes → Item) (clean : Prop) (plan : Plan) (ep : ℕ → ε)
    (exempt : Option ℕ) (out : Bytes) (writing : Option (Option ℕ)) (first : Bool)
    (c : RedisMgetCommand ε) (done todo : Plan) (S F : ℕ → Bytes) : Prop where
  split : done ++ todo = plan
  bound : ∀ e ∈ plan, e.1 < c.count
  endpoint : ∀ b < c.count, (c.backend b).remoteEndpoint = ep b
  runs : owners c.waitingReplyQueue = todo.map Prod.fst
  later : ∀ r ∈ c.waitingReplyQueue.tail, 0 < r.2
  link : ∀ b < c.count, Link store clean (keysOf done b) (keysOf todo b) (S b) (F b) (c.subquery b)
  locked : ∀ b < c.count, (c.backend b).noRecycle = false →
    Locked (writing == some (some b)) (c.backend b)
  reading : ∀ b < c.count, (c.backend b).noRecycle = false → (c.backend b).isReadingReply = true →
    S b = [] ∨
      (c.front = some b ∧ writing = none ∧ c.replyPrefix = [] ∧ c.replyingBackend = some b)
  /-- a backend that has failed reads no more, except while its time-out is handled -/
  quiet : ∀ b < c.count, (c.backend b).noRecycle = true → (c.backend b).isReadingReply = true →
    exempt = some b
  exempted : ∀ b, exempt = some b →
    b < c.count ∧ (c.backend b).noRecycle = true ∧ (c.backend b).aborted = false
  progress : Progress store plan done S F out writing first c

/-- The front backend has its query or a read outstanding. -/
def Busy (c : RedisMgetCommand ε) : Prop :=
  ∀ f, c.front = some f → (c.backend f).query ≠ none ∨
    ((c.backend f).noRecycle = false ∧ (c.backend f).isReadingReply = true)

/-- Between two handlers nothing stalls, provided that the run is `clean`. -/
def Scheduled (store : ε → Bytes → Item) (clean : Prop) (plan : Plan) (ep : ℕ → ε)
    (exempt : Option ℕ) (first : Bool) (out : Bytes) (writing : Option (Option ℕ))
    (c : RedisMgetCommand ε) : Prop :=
  ∃ done todo S F, Good store clean plan ep exempt out writing first c done todo S F ∧
    (clean → c.replyPrefix = [] → writing = none → Busy c)

/-- The whole reply has been written. -/
structure Assembled (store : ε → Bytes → Item) (plan : Plan) (ep : ℕ → ε) (exempt : Option ℕ)
    (out : Bytes) (c : RedisMgetCommand ε) : Prop where
  reply : out = serializePrefix plan.length ++ encodeItems (plan.map (value store c))
  endpoint : ∀ b < c.count, (c.backend b).remoteEndpoint = ep b
  exempted : ∀ b, exempt = some b → (c.backend b).noRecycle = true

abbrev Acted (store : ε → Bytes → Item) (clean : Prop) (plan : Plan) (ep : ℕ → ε)
    (exempt : Option ℕ) (out : Bytes) (writing : Option (Option ℕ)) (first : Bool) :
    Ctx (RedisMgetCommand ε) → Prop :=
  Outcome handlers (Scheduled store clean plan ep exempt first) (Assembled store plan ep exempt) out
    writing first

@[simp] theorem backend_setSubquery (s : MgetSubquery ε) (i : ℕ) :
    (c.setSubquery b s).backend i = if i = b then s.backend else c.backend i := by
  rw [backend, subquery_setSubquery]
  split
  · rfl
  · rfl

@[simp] theorem count_setSubquery (s : MgetSubquery ε) : (c.setSubquery b s).count = c.count := rfl

@[simp] theorem front_setSubquery (s : MgetSubquery ε) : (c.setSubquery b s).front = c.front := rfl

theorem mem_keysOf {l : Plan} {e : ℕ × Bytes} (h : e ∈ l) : e.2 ∈ keysOf l e.1 :=
  List.mem_map_of_mem (List.mem_filter.mpr ⟨h, by simp⟩)

theorem value_setSubquery (store : ε → Bytes → Item) {s : MgetSubquery ε}
    (hep : s.backend.remoteEndpoint = (c.backend b).remoteEndpoint)
    (hv : keysOf done b = [] ∨ s.backend.noRecycle = (c.backend b).noRecycle) :
    done.map (value store (c.setSubquery b s)) = done.map (value store c) ∧
    ∀ i, (keysOf done i).map (answer store ((c.setSubquery b s).backend i)) =
      (keysOf done i).map (answer store (c.backend i)) := by
  have hanswer : s.backend.noRecycle = (c.backend b).noRecycle →
      answer store s.backend = answer store (c.backend b) := by
    intro hn
    funext key
    rw [answer, answer, BackendConn.error, BackendConn.error, hn, hep]
  constructor
  · refine List.map_congr_left fun e he => ?_
    rw [value, value, backend_setSubquery]
    split
    next hb =>
      rcases hv with hv | hv
      · have := mem_keysOf he
        rw [hb, hv] at this
        cases this
      · rw [hanswer hv, hb]
    next => rfl
  · intro i
    rw [backend_setSubquery]
    split
    next hb =>
      rcases hv with hv | hv
      · rw [hb, hv]
        rfl
      · rw [hanswer hv, hb]
    next => rfl

theorem Good.setSubquery {s : MgetSubquery ε} {source : Bytes}
    (h : Good store clean plan ep exempt out writing first c done todo S F) (exempt' : Option ℕ)
    (hb : b < c.count)
    (hlink : Link store clean (keysOf done b) (keysOf todo b) source (F b) s)
    (hep : s.backend.remoteEndpoint = (c.backend b).remoteEndpoint)
    (hlocked : s.backend.noRecycle = false → Locked (writing == some (some b)) s.backend)
    (hreading : s.backend.noRecycle = false → s.backend.isReadingReply = true → source = [] ∨
      (c.front = some b ∧ writing = none ∧ c.replyPrefix = [] ∧ c.replyingBackend = some b))
    (hquiet : s.backend.noRecycle = true → s.backend.isReadingReply = true → exempt' = some b)
    (hexempt : ∀ i, exempt' = some i →
      if i = b then s.backend.noRecycle = true ∧ s.backend.aborted = false else exempt = some i)
    (hother : ∀ i, exempt = some i → i ≠ b → exempt' = some i)
    (hvalue : keysOf done b = [] ∨ s.backend.noRecycle = (c.backend b).noRecycle)
    (hturn : writing = some (some b) → s.backend.buffer.unprocessedBytes = 0 ∧ source ≠ [])
    (hzero : ∀ queue, c.waitingReplyQueue = (b, 0) :: queue → writing = none →
      0 < s.backend.buffer.parsedUnreceivedBytes ∨ 0 < s.backend.buffer.unprocessedBytes) :
    Good store clean plan ep exempt' out writing first (c.setSubquery b s) done todo
      (Function.update S b source) F := by
  obtain ⟨hvalues, hshares⟩ := value_setSubquery store hep hvalue
  refine ⟨h.split, h.bound, ?_, h.runs, h.later, ?_, ?_, ?_, ?_, ?_, ?_⟩
  · intro i hi
    rw [backend_setSubquery]
    split
    next hib => rw [hep, ← hib, h.endpoint i hi]
    next => exact h.endpoint i hi
  · intro i hi
    rw [subquery_setSubquery, Function.update_apply]
    split
    next hib => exact hib ▸ hlink
    next => exact h.link i hi
  · intro i hi
    rw [backend_setSubquery]
    split
    next hib => exact hib ▸ hlocked
    next => exact h.locked i hi
  · intro i hi
    rw [backend_setSubquery, Function.update_apply]
    split
    next hib => exact hib ▸ hreading
    next => exact h.reading i hi
  · intro i hi
    rw [backend_setSubquery]
    split
    next hib => exact hib ▸ hquiet
    next hib => exact fun he hr => hother i (h.quiet i hi he hr) hib
  · intro i hi
    have hex := hexempt i hi
    rw [backend_setSubquery]
    split
    next hib =>
      rw [if_pos hib] at hex
      exact ⟨hib ▸ hb, hex⟩
    next hib =>
      rw [if_neg hib] at hex
      exact h.exempted i hex
  · cases h.progress with
    | idle h₁ h₂ h₃ h₄ h₅ h₆ h₇ => exact .idle h₁ h₂ h₃ h₄ h₅ h₆ h₇
    | heading h₁ h₂ h₃ h₄ h₅ h₆ h₇ => exact .heading h₁ h₂ h₃ h₄ h₅ h₆ h₇
    | body pending h₁ hr ht h₄ =>
      refine .body pending h₁ ⟨?_, fun i hi => ?_, hr.rest⟩ ?_ h₄
      · rw [hvalues]
        exact hr.reply
      · rw [hshares]
        exact hr.shares i hi
      · cases ht with
        | free hw hi hz =>
          refine .free hw hi fun f queue hq => ?_
          rw [backend_setSubquery]
          split
          next hf => exact hzero queue (hf ▸ hq) hw
          next => exact hz f queue hq
        | @busy r hw hr hf hi hrep hun hs =>
          refine .busy hw hr hf hi hrep ?_ ?_
          · rw [backend_setSubquery]
            split
            next hrb => exact (hturn (hrb ▸ hw)).1
            next => exact hun
          · rw [Function.update_apply]
            split
            next hrb => exact (hturn (hrb ▸ hw)).2
            next => exact hs

theorem Relayed.take {pending : Bytes} {n j : ℕ} {queue : List (ℕ × ℕ)}
    (h : Relayed store plan done F pending out c) (hq : c.waitingReplyQueue = (b, n) :: queue)
    (hruns : owners c.waitingReplyQueue = todo.map Prod.fst) (hj : j ≤ n) (hb : b < c.count) :
    out ++ (pending ++ encodeItems (((keysOf todo b).map (answer store (c.backend b))).take j)) =
      serializePrefix plan.length ++ encodeItems ((done ++ todo.take j).map (value store c)) ∧
    F b ++ (pending ++ encodeItems (((keysOf todo b).map (answer store (c.backend b))).take j)) =
      encodeItems ((keysOf (done ++ todo.take j) b).map (answer store (c.backend b))) := by
  rw [hq] at hruns
  have hfront : c.front = some b := by simp [front, hq]
  have hown := owner_of_run hruns hj
  have hvalues : (todo.take j).map (value store c) =
      ((keysOf todo b).map (answer store (c.backend b))).take j := by
    rw [← List.map_take, ← keysOf_take_run hruns hj, keysOf_of_owner hown, List.map_map]
    refine List.map_congr_left fun e he => ?_
    rw [value, hown e he]
    rfl
  constructor
  · rw [← List.append_assoc, h.reply, List.map_append, hvalues, encodeItems_append,
      List.append_assoc]
  · have hshare := h.shares b hb
    rw [if_pos hfront] at hshare
    rw [← List.append_assoc, hshare, keysOf_append, keysOf_take_run hruns hj, List.map_append,
      encodeItems_append, List.map_take]

theorem Stream.next_part {taken left : List Item} {source forwarded data pending : Bytes}
    {buffer : ReadBuffer} (ha : source <+: encodeArray (taken ++ left))
    (hr : Relay source
      ((serializePrefix (taken ++ left).length).length + (encodeItems taken).length)
      (serializePrefix (taken ++ left).length ++ forwarded ++ data) buffer)
    (hp : forwarded ++ pending = encodeItems taken) : ∃ rest, data ++ rest = pending := by
  have hbytes := hr.bytes
  have hlen := hr.parsed
  rw [encodeArray, encodeItems_append] at ha
  generalize serializePrefix (taken ++ left).length = header at *
  have hpre : header ++ (forwarded ++ data) <+: header ++
      (encodeItems taken ++ encodeItems left) := by
    refine List.IsPrefix.trans ⟨buffer.queued, ?_⟩ ha
    rw [← List.append_assoc header]
    exact hbytes
  rw [List.prefix_append_right_inj] at hpre
  have hle : (forwarded ++ data).length ≤ (encodeItems taken).length := by
    simp only [List.length_append] at hlen ⊢
    omega
  have hpre' : forwarded ++ data <+: encodeItems taken :=
    List.prefix_of_prefix_length_le hpre (List.prefix_append _ _) hle
  rw [← hp, List.prefix_append_right_inj] at hpre'
  exact hpre'

/-- The parts of a connection that neither the parser nor a client write touches. -/
structure SameConn (k k' : BackendConn ε) : Prop where
  endpoint : k'.remoteEndpoint = k.remoteEndpoint
  error : k'.noRecycle = k.noRecycle
  aborted : k'.aborted = k.aborted
  reading : k'.isReadingReply = k.isReadingReply

theorem SameConn.answer {k k' : BackendConn ε} (h : SameConn k k') :
    answer store k' = answer store k := by
  funext key
  rw [RedisMgetCommand.answer, RedisMgetCommand.answer, BackendConn.error, BackendConn.error,
    h.error, h.endpoint]

theorem Good.handed {c' : RedisMgetCommand ε} {s : MgetSubquery ε} {n j : ℕ}
    {queue : List (ℕ × ℕ)} {data rest pending : Bytes}
    (h : Good store clean plan ep exempt out none first c done todo S F) (hb : b < c.count)
    (hq : c.waitingReplyQueue = (b, n) :: queue) (hj : j ≤ n)
    (hrel : Relayed store plan done F pending out c) (hfirst : first = true) (hsource : S b ≠ [])
    (hread : (c.backend b).noRecycle = false → (c.backend b).isReadingReply = false)
    (hrest : data ++ rest =
      pending ++ encodeItems (((keysOf todo b).map (answer store (c.backend b))).take j))
    (hlink : Link store clean (keysOf (done ++ todo.take j) b) (keysOf (todo.drop j) b) (S b)
      (F b ++ data) s)
    (hsame : SameConn (c.backend b) s.backend)
    (hlocked : s.backend.noRecycle = false → Locked true s.backend)
    (hun : s.backend.buffer.unprocessedBytes = 0)
    (hcount : c'.count = c.count)
    (hsub : ∀ i, c'.subquery i = if i = b then s else c.subquery i)
    (hheader : c'.replyPrefix = []) (hwriting : c'.reply.isWriting = true)
    (hreplying : c'.replyingBackend = some b)
    (hqueue : c'.waitingReplyQueue = (b, n - j) :: queue) :
    Good store clean plan ep exempt (out ++ data) (some (some b)) first c' (done ++ todo.take j)
      (todo.drop j) S (Function.update F b (F b ++ data)) := by
  have hruns := h.runs
  rw [hq] at hruns
  have hfront : c.front = some b := by simp [front, hq]
  have hfront' : c'.front = some b := by simp [front, hqueue]
  have hback : ∀ i, c'.backend i = if i = b then s.backend else c.backend i := by
    intro i
    rw [backend, hsub]
    split
    · rfl
    · rfl
  have hconn : ∀ i, SameConn (c.backend i) (c'.backend i) := by
    intro i
    rw [hback]
    split
    next hi => exact hi ▸ hsame
    next => exact ⟨rfl, rfl, rfl, rfl⟩
  have hvalue : value store c' = value store c := by
    funext e
    rw [value, value, (hconn e.1).answer]
  obtain ⟨hreply, hshare⟩ := hrel.take hq h.runs hj hb
  refine ⟨?_, ?_, ?_, ?_, ?_, ?_, ?_, ?_, ?_, ?_, .body rest hheader ⟨?_, ?_, ?_⟩
    (.busy rfl (hcount ▸ hb) hfront' hwriting hreplying ?_ hsource) hfirst⟩
  · rw [List.append_assoc, List.take_append_drop, h.split]
  · exact fun e he => hcount ▸ h.bound e he
  · intro i hi
    rw [(hconn i).endpoint, h.endpoint i (hcount ▸ hi)]
  · rw [hqueue, owners_drop_run hruns hj]
  · have hlater := h.later
    rw [hq] at hlater
    rw [hqueue]
    exact hlater
  · intro i hi
    rw [hsub, Function.update_apply]
    split
    next hib => exact hib ▸ hlink
    next hib =>
      rw [keysOf_append, keysOf_of_ne (owner_of_run hruns hj) hib, List.append_nil,
        keysOf_drop_of_ne hruns hj hib]
      exact h.link i (hcount ▸ hi)
  · intro i hi
    rw [hback]
    split
    next hib =>
      rw [hib, beq_self_eq_true]
      exact hlocked
    next hib =>
      have : ((some (some b) : Option (Option ℕ)) == some (some i)) = false := by
        simpa using Ne.symm hib
      rw [this]
      exact h.locked i (hcount ▸ hi)
  · intro i hi he hr
    rw [(hconn i).error] at he
    rw [(hconn i).reading] at hr
    by_cases hib : i = b
    · subst hib
      rw [hread he] at hr
      cases hr
    · refine (h.reading i (hcount ▸ hi) he hr).imp id fun hf => ?_
      exact absurd (Option.some.inj (hf.1.symm.trans hfront)) hib
  · intro i hi he hr
    exact h.quiet i (hcount ▸ hi) ((hconn i).error ▸ he) ((hconn i).reading ▸ hr)
  · intro i hi
    rw [hcount, (hconn i).error, (hconn i).aborted]
    exact h.exempted i hi
  · rw [hvalue, List.append_assoc, hrest]
    exact hreply
  · intro i hi
    rw [(hconn i).answer, hfront', Function.update_apply]
    split
    next hib =>
      rw [hib, if_pos rfl, List.append_assoc, hrest]
      exact hshare
    next hib =>
      have hshares := hrel.shares i (hcount ▸ hi)
      have hne : some b ≠ some i := fun hbi => hib (Option.some.inj hbi).symm
      rw [hfront, if_neg hne] at hshares
      rw [if_neg hne, keysOf_append, keysOf_of_ne (owner_of_run hruns hj) hib]
      simpa using hshares
  · intro hn
    cases hfront'.symm.trans hn
  · rw [hback, if_pos rfl]
    exact hun

theorem Advanced.same {s s' : MgetSubquery ε} (h : Advanced s s') :
    SameConn s.backend s'.backend := by
  obtain ⟨⟨_, _, _, rfl⟩, _, _⟩ := h
  exact ⟨rfl, rfl, rfl, rfl⟩

theorem Good.body (h : Good store clean plan ep exempt out none first c done todo S F)
    (hheader : c.replyPrefix = []) : ∃ pending, Relayed store plan done F pending out c ∧
      c.reply.isWriting = false ∧ first = true ∧
      ∀ f queue, c.waitingReplyQueue = (f, 0) :: queue →
        0 < (c.backend f).buffer.parsedUnreceivedBytes ∨
          0 < (c.backend f).buffer.unprocessedBytes := by
  cases h.progress with
  | idle hp => exact absurd (hp.symm.trans hheader) (serializePrefix_ne_nil _)
  | heading hp => exact absurd (hp.symm.trans hheader) (serializePrefix_ne_nil _)
  | body pending _ hr ht hf =>
    cases ht with
    | free _ hi hz => exact ⟨pending, hr, hi, hf, hz⟩
    | busy hw => cases hw

theorem Good.write {s : MgetSubquery ε} {n j : ℕ} {queue : List (ℕ × ℕ)}
    (h : Good store clean plan ep exempt out none first c done todo S F) (hb : b < c.count)
    (hheader : c.replyPrefix = []) (hq : c.waitingReplyQueue = (b, n) :: queue) (hj : j ≤ n)
    (ha : Advanced (c.subquery b) s)
    (hs : Stream ((keysOf done b).map (answer store (c.backend b)) ++
        ((keysOf todo b).map (answer store (c.backend b))).take j)
      (((keysOf todo b).map (answer store (c.backend b))).drop j) (S b) (F b) s)
    (hun : 0 < s.backend.buffer.unprocessedBytes) (hsource : S b ≠ [])
    (hread : (c.backend b).noRecycle = false → (c.backend b).isReadingReply = false) :
    ∃ data buffer, Yarmproxy.tryWriteReply b s.backend c.reply =
        ({ s.backend with buffer := buffer }, ⟨true, true⟩, [.writeReply data (some b)]) ∧
      Good store clean plan ep exempt (out ++ data) (some (some b)) first
        { c.setSubquery b { s with backend := { s.backend with buffer := buffer } } with
          replyingBackend := some b
          reply := ⟨true, true⟩
          waitingReplyQueue := (b, n - j) :: queue }
        (done ++ todo.take j) (todo.drop j) S (Function.update F b (F b ++ data)) := by
  obtain ⟨pending, hrel, hwriting, hfirst, _⟩ := h.body hheader
  have hruns := h.runs
  rw [hq] at hruns
  obtain ⟨_, hshare⟩ := hrel.take hq h.runs hj hb
  have hlink := (h.link b hb).advance j ha hs
  obtain ⟨hne, habsent, hr⟩ := hs.parsed.resolve_left fun ⟨_, _, _, hr⟩ => by
    rw [hr.unprocessedBytes] at hun
    omega
  obtain ⟨data, buffer, _, heq, hrelay, hsize, hlocks, hzero⟩ :=
    hr.tryWriteReply_some b hwriting hun
  have htaken : (keysOf (done ++ todo.take j) b).map (answer store (c.backend b)) =
      (keysOf done b).map (answer store (c.backend b)) ++
        ((keysOf todo b).map (answer store (c.backend b))).take j := by
    rw [keysOf_append, keysOf_take_run hruns hj, List.map_append, List.map_take]
  rw [htaken] at hshare
  obtain ⟨rest, hrest⟩ := Stream.next_part hs.answer hrelay hshare
  refine ⟨data, buffer, heq,
    h.handed (s := { s with backend := { s.backend with buffer := buffer } })
    hb hq hj hrel hfirst hsource hread hrest ?_ ?_ ?_ hzero rfl
    (fun i => Function.update_apply _ _ _ _) hheader rfl rfl rfl⟩
  · rw [keysOf_append, keysOf_take_run hruns hj, keysOf_drop_run hruns hj]
    refine hlink.setBuffer hsize ?_
    rw [ha.same.answer, List.map_append, List.map_take, List.map_drop]
    exact ⟨hs.answer, hs.complete, .inr ⟨hne, habsent, List.append_assoc _ (F b) data ▸ hrelay⟩⟩
  · exact ⟨ha.same.endpoint, ha.same.error, ha.same.aborted, ha.same.reading⟩
  · intro he
    have he' : (c.backend b).noRecycle = false := ha.same.error ▸ he
    have hl := h.locked b hb he'
    obtain ⟨⟨buffer', complete, absent, rfl⟩, _, hlocks'⟩ := ha
    exact hl.write (hread he') (hlocks.trans (congrArg (· + 1) hlocks'))

theorem tryWriteReply_acted {buf : ReadBuffer} {s : MgetSubquery ε} {n j : ℕ} {queue : List (ℕ × ℕ)}
    (h : Good store clean plan ep exempt out none first c done todo S F) (hb : b < c.count)
    (hheader : c.replyPrefix = []) (hq : c.waitingReplyQueue = (b, n) :: queue) (hj : j ≤ n)
    (ha : Advanced (c.subquery b) s)
    (hs : Stream ((keysOf done b).map (answer store (c.backend b)) ++
        ((keysOf todo b).map (answer store (c.backend b))).take j)
      (((keysOf todo b).map (answer store (c.backend b))).drop j) (S b) (F b) s)
    (hun : 0 < s.backend.buffer.unprocessedBytes) (hsource : S b ≠ [])
    (hread : (c.backend b).noRecycle = false → (c.backend b).isReadingReply = false) :
    Acted store clean plan ep exempt out none first (tryWriteReply b ⟨buf, first,
      { c.setSubquery b s with
        replyingBackend := some b
        waitingReplyQueue := (b, n - j) :: queue }, []⟩) := by
  obtain ⟨_, _, _, hfirst, _⟩ := h.body hheader
  obtain ⟨data, buffer, heq, hg⟩ := h.write hb hheader hq hj ha hs hun hsource hread
  have hback : RedisMgetCommand.backend { c.setSubquery b s with
      replyingBackend := some b
      waitingReplyQueue := (b, n - j) :: queue } b = s.backend := by
    simp [backend, setSubquery]
  have hcmd : (tryWriteReply b ⟨buf, first, { c.setSubquery b s with
      replyingBackend := some b
      waitingReplyQueue := (b, n - j) :: queue }, []⟩) = ⟨buf, first,
      { c.setSubquery b { s with backend := { s.backend with buffer := buffer } } with
        replyingBackend := some b
        reply := ⟨true, true⟩
        waitingReplyQueue := (b, n - j) :: queue }, [.writeReply data (some b)]⟩ := by
    have heq' : Yarmproxy.tryWriteReply b s.backend (RedisMgetCommand.reply { c.setSubquery b s with
        replyingBackend := some b
        waitingReplyQueue := (b, n - j) :: queue }) = _ := heq
    simp only [tryWriteReply, hback, heq']
    simp [setBackend, setSubquery]
  rw [hcmd]
  refine .wrote rfl rfl hfirst rfl ⟨_, _, _, _, hg, fun _ _ hw => ?_⟩
  cases hw

theorem Good.replying (h : Good store clean plan ep exempt out none first c done todo S F)
    (hf : c.front = some b) :
    Good store clean plan ep exempt out none first { c with replyingBackend := some b } done todo S
      F := by
  refine ⟨h.split, h.bound, h.endpoint, h.runs, h.later, h.link, h.locked, ?_, h.quiet, h.exempted,
    ?_⟩
  · intro i hi he hr
    refine (h.reading i hi he hr).imp id fun ⟨hfi, hw, hp, _⟩ => ⟨hfi, hw, hp, ?_⟩
    exact hf.symm.trans hfi
  · cases h.progress with
    | idle h₁ h₂ h₃ h₄ h₅ h₆ h₇ => exact .idle h₁ h₂ h₃ h₄ h₅ h₆ h₇
    | heading h₁ h₂ h₃ h₄ h₅ h₆ h₇ => exact .heading h₁ h₂ h₃ h₄ h₅ h₆ h₇
    | body pending h₁ hr ht h₄ =>
      refine .body pending h₁ ⟨hr.reply, hr.shares, hr.rest⟩ ?_ h₄
      cases ht with
      | free hw hi hz => exact .free hw hi hz
      | busy hw => cases hw

theorem parseReply_result {n : ℕ} {queue : List (ℕ × ℕ)}
    (h : Good store clean plan ep exempt out none first c done todo S F) (hb : b < c.count)
    (hheader : c.replyPrefix = []) (hq : c.waitingReplyQueue = (b, n) :: queue)
    (hnew : 0 < (c.backend b).buffer.unparsedBytes ∨ 0 < (c.backend b).buffer.unprocessedBytes) :
    (∃ c', c.parseReply b = some (c', false)) ∨
    ∃ s j, c.parseReply b =
        some ({ c.setSubquery b s with waitingReplyQueue := (b, n - j) :: queue }, true) ∧ j ≤ n ∧
      Advanced (c.subquery b) s ∧
      Stream ((keysOf done b).map (answer store (c.backend b)) ++
          ((keysOf todo b).map (answer store (c.backend b))).take j)
        (((keysOf todo b).map (answer store (c.backend b))).drop j) (S b) (F b) s ∧
      (0 < s.backend.buffer.unprocessedBytes ∨ (s = c.subquery b ∧ j = 0 ∧ 0 < n ∧
        (c.backend b).buffer.queued.length < 40 ∧ S b ≠ encodeArray
          ((keysOf done b).map (answer store (c.backend b)) ++
            (keysOf todo b).map (answer store (c.backend b))))) := by
  obtain ⟨_, _, _, _, hzero⟩ := h.body hheader
  have hlink := h.link b hb
  unfold parseReply
  simp only
  by_cases hun : 0 < (c.backend b).buffer.unprocessedBytes
  · rw [if_pos hun]
    have hstay : ∀ s, c.setSubquery b s =
        { c.setSubquery b s with waitingReplyQueue := (b, n - 0) :: queue } := by
      intro s
      rw [Nat.sub_zero, ← hq]
      rfl
    split
    next hall =>
      refine .inr ⟨{ c.subquery b with backend := (c.backend b).setReplyRecvComplete }, 0,
        congrArg (fun c => some (c, true)) (hstay _), Nat.zero_le _, ⟨⟨_, _, _, rfl⟩, rfl, rfl⟩, ?_,
        .inl hun⟩
      have hwhole := hlink.stream.whole hun hall.1 hall.2
      rw [List.take_zero, List.drop_zero, List.append_nil]
      exact ⟨hlink.stream.answer, fun _ => hwhole, hlink.stream.parsed⟩
    next =>
      refine .inr ⟨c.subquery b, 0, ?_, Nat.zero_le _, Advanced.refl _, ?_, .inl hun⟩
      · rw [← hstay, setSubquery_self]
      · rw [List.take_zero, List.drop_zero, List.append_nil]
        exact hlink.stream
  · rw [if_neg hun]
    have hunparsed := hnew.resolve_right hun
    have hn : 0 < n := by
      rw [Nat.pos_iff_ne_zero]
      rintro rfl
      have hmissing := (hzero b queue hq).resolve_right hun
      obtain ⟨_, _, hr⟩ := hlink.stream.relay
      change 0 < (c.subquery b).backend.buffer.unparsedBytes at hunparsed
      change 0 < (c.subquery b).backend.buffer.parsedUnreceivedBytes at hmissing
      rw [hr.unparsedBytes] at hunparsed
      rw [hr.parsedUnreceivedBytes] at hmissing
      omega
    have hloop := parseReplyLoop_result _ hq (.inl hn) hlink.stream
      (by simpa using hlink.countable) (le_refl _)
    change (∃ c', parseReplyLoop b (c.backend b).buffer.unparsedBytes c = some (c', false)) ∨ _
    generalize parseReplyLoop b (c.backend b).buffer.unparsedBytes c = r at hloop ⊢
    cases hloop with
    | failed => exact .inl ⟨_, rfl⟩
    | @parsed s j hj _ ha hs hstay hsome hend =>
      refine .inr ⟨s, j, rfl, hj, ha, hs, ?_⟩
      rcases Nat.eq_zero_or_pos j with rfl | hpos
      · obtain ⟨rfl, hwait⟩ := hstay rfl
        refine .inr ⟨rfl, rfl, hn, ?_, ?_⟩
        · have h40 := hend.resolve_left (by omega)
          obtain ⟨_, _, hr⟩ := hlink.stream.relay
          change ¬ 0 < (c.subquery b).backend.buffer.unprocessedBytes at hun
          change 0 < (c.subquery b).backend.buffer.unparsedBytes at hunparsed
          rw [hr.unprocessedBytes] at hun
          rw [hr.unparsedBytes] at hunparsed h40
          have := hr.length_queued
          exact (by omega : (c.subquery b).backend.buffer.queued.length < 40)
        · exact (hwait hn).resolve_left (Nat.ne_of_gt hunparsed)
      · exact .inl (hsome hpos)

theorem Good.readMore {n : ℕ} {queue : List (ℕ × ℕ)}
    (h : Good store clean plan ep exempt out none first c done todo S F) (hb : b < c.count)
    (hheader : c.replyPrefix = []) (hreplying : c.replyingBackend = some b)
    (hq : c.waitingReplyQueue = (b, n) :: queue) (hsource : S b ≠ [])
    (hread : (c.backend b).noRecycle = false → (c.backend b).isReadingReply = false)
    (hmissing : S b ≠ encodeArray ((keysOf done b).map (answer store (c.backend b)) ++
      (keysOf todo b).map (answer store (c.backend b))))
    (hspace : (c.backend b).buffer.queued.length < 40)
    (hzero : n = 0 → 0 < (c.backend b).buffer.parsedUnreceivedBytes) :
    Scheduled store clean plan ep exempt first out none
      (c.setBackend b (c.backend b).tryReadMoreReply) := by
  have hlink := h.link b hb
  have hfront : c.front = some b := by simp [front, hq]
  have he : (c.backend b).noRecycle = false := hlink.noError hmissing
  have hl : Locked false (c.backend b) := h.locked b hb he
  have hcomplete : (c.backend b).replyRecvComplete = false := by
    rw [Bool.eq_false_iff]
    exact fun hc => hmissing (hlink.stream.complete hc)
  rw [hl.tryReadMoreReply (hread he) hcomplete hlink.stream.valid hspace hlink.room.1]
  have hg := h.setSubquery exempt hb (hlink.readReply hsource) rfl
    (fun _ => hl.readReply (hread he)) (fun _ _ => .inr ⟨hfront, rfl, hheader, hreplying⟩)
    (fun hn => by cases he.symm.trans hn) ?_ (fun _ hi _ => hi) (.inr rfl) (by simp) ?_
  · refine ⟨done, todo, _, F, hg, fun _ _ _ f hf => ?_⟩
    obtain rfl : b = f := Option.some.inj (hfront.symm.trans hf)
    refine .inr ?_
    change (BackendConn.noRecycle (RedisMgetCommand.backend (c.setSubquery b _) b)) = false ∧ _
    rw [setBackend, backend_setSubquery, if_pos rfl]
    exact ⟨he, rfl⟩
  · intro i hi
    split
    next hib =>
      have := (h.exempted i hi).2.1
      rw [hib, he] at this
      cases this
    next => exact hi
  · intro queue' hq' _
    refine .inl (hzero ?_)
    rw [hq] at hq'
    exact (Prod.mk.inj (List.cons.inj hq').1).2

theorem Good.first_of_body (h : Good store clean plan ep exempt out writing first c done todo S F)
    (hheader : c.replyPrefix = []) : first = true := by
  cases h.progress with
  | idle hp => exact absurd (hp.symm.trans hheader) (serializePrefix_ne_nil _)
  | heading hp => exact absurd (hp.symm.trans hheader) (serializePrefix_ne_nil _)
  | body _ _ _ _ hf => exact hf

section Handlers
variable {buf : ReadBuffer}

theorem Good.quiet_acted (h : Good store clean plan ep exempt out writing first c done todo S F)
    (hbusy : clean → c.replyPrefix = [] → writing = none → Busy c) :
    Acted store clean plan ep exempt out writing first ⟨buf, first, c, []⟩ :=
  .quiet rfl ⟨_, _, _, _, h, hbusy⟩

theorem backendReadyToReply_front {n : ℕ} {queue : List (ℕ × ℕ)} {x : Ctx (RedisMgetCommand ε)}
    (hfirst : x.first = true) (hheader : x.cmd.replyPrefix = [])
    (hq : x.cmd.waitingReplyQueue = (b, n) :: queue) : backendReadyToReply b x =
      afterParse b { x with cmd := { x.cmd with replyingBackend := some b } }
        (parseReply { x.cmd with replyingBackend := some b } b) := by
  have hcomplete : x.cmd.replyPrefixComplete = true := by simp [replyPrefixComplete, hheader]
  unfold backendReadyToReply
  rw [if_neg (by simp [hfirst])]
  generalize afterParse b { x with cmd := { x.cmd with replyingBackend := some b } }
    (parseReply { x.cmd with replyingBackend := some b } b) = y
  simp [hq, hcomplete]

theorem backendReadyToReply_other {x : Ctx (RedisMgetCommand ε)}
    (h : ¬ x.cmd.replyPrefix = [] ∨ ¬ x.cmd.front = some b) :
    backendReadyToReply b x = x ∨ backendReadyToReply b x = x.emit .abort := by
  unfold backendReadyToReply
  split
  next => exact .inl rfl
  next =>
    split
    next => exact .inr rfl
    next f n queue hrun =>
      left
      split
      next => rfl
      next hp =>
        have hheader : x.cmd.replyPrefix = [] := by simpa [replyPrefixComplete] using hp
        refine if_pos fun hbf => ?_
        simp [hheader, front, hrun, hbf] at h

theorem backendReadyToReply_acted
    (h : Good store clean plan ep exempt out writing first c done todo S F)
    (hb : b < c.count) (hsource : S b ≠ [])
    (hfree : c.front = some b → c.replyPrefix = [] → writing = none)
    (hread : (c.backend b).noRecycle = false → (c.backend b).isReadingReply = false)
    (hnew : 0 < (c.backend b).buffer.unparsedBytes ∨ 0 < (c.backend b).buffer.unprocessedBytes)
    (hbusy : clean → c.replyPrefix = [] → writing = none → c.front ≠ some b → Busy c) :
    Acted store clean plan ep exempt out writing first
      (backendReadyToReply b ⟨buf, first, c, []⟩) := by
  by_cases hturn : c.replyPrefix = [] ∧ c.front = some b
  swap
  · have hquiet : Acted store clean plan ep exempt out writing first ⟨buf, first, c, []⟩ :=
      h.quiet_acted fun hc hp hw => hbusy hc hp hw fun hf => hturn ⟨hp, hf⟩
    rcases backendReadyToReply_other (x := ⟨buf, first, c, []⟩) (not_and_or.mp hturn) with hx | hx
    · rw [hx]
      exact hquiet
    · rw [hx]
      exact .stopped rfl (.inl rfl)
  obtain ⟨hheader, hfront⟩ := hturn
  obtain ⟨n, queue, hq⟩ := exists_run_of_front hfront
  obtain rfl := hfree hfront hheader
  have hg := h.replying hfront
  rw [backendReadyToReply_front (h.first_of_body hheader) hheader hq]
  rcases parseReply_result hg hb hheader hq hnew with ⟨c', hr⟩ | ⟨s, j, hr, hj, ha, hs, hend⟩
  · rw [hr]
    exact .stopped rfl (.inl rfl)
  · rw [hr]
    have hback : RedisMgetCommand.backend { RedisMgetCommand.setSubquery
        { c with replyingBackend := some b } b s with
        waitingReplyQueue := (b, n - j) :: queue } b = s.backend := by
      simp [backend, setSubquery]
    simp only [afterParse, hback]
    rw [if_neg (by simp)]
    by_cases hun : s.backend.buffer.unprocessedBytes = 0
    · obtain ⟨rfl, rfl, hn, h40, hmissing⟩ := hend.resolve_left (by omega)
      rw [if_pos hun, setSubquery_self, Nat.sub_zero, ← hq]
      exact .quiet rfl (hg.readMore hb hheader rfl hq hsource hread hmissing h40 (by omega))
    · rw [if_neg hun]
      exact tryWriteReply_acted hg hb hheader hq hj ha hs (by omega) hsource hread

theorem Good.front_due {f n : ℕ} {queue : List (ℕ × ℕ)}
    (h : Good store clean plan ep exempt out writing first c done todo S F)
    (hq : c.waitingReplyQueue = (f, n) :: queue) (hn : 0 < n) :
    f < c.count ∧ keysOf todo f ≠ [] := by
  have hruns := h.runs
  rw [hq] at hruns
  have hlen := length_of_run hruns (show 1 ≤ n by omega)
  obtain ⟨e, todo', rfl⟩ := List.exists_cons_of_length_pos hlen
  have he := owner_of_run hruns (show 1 ≤ n by omega) e (by simp)
  constructor
  · rw [← he]
    exact h.bound e (h.split ▸ by simp)
  · rw [← he]
    exact List.ne_nil_of_mem (mem_keysOf (List.mem_cons_self))

/-- Between two client writes: everything that has been taken has been handed on. -/
structure Pause (store : ε → Bytes → Item) (done : Plan) (S F : ℕ → Bytes)
    (c : RedisMgetCommand ε) : Prop where
  started : c.replyPrefix = []
  handed : ∀ b < c.count, F b = encodeItems ((keysOf done b).map (answer store (c.backend b)))
  runs : ∀ r ∈ c.waitingReplyQueue, 0 < r.2
  reading : ∀ b < c.count, (c.backend b).noRecycle = false →
    (c.backend b).isReadingReply = true → S b = []

theorem nextBackendStartReply_acted
    (h : Good store clean plan ep exempt out none first c done todo S F)
    (hp : Pause store done S F c) :
    Acted store clean plan ep exempt out none first
      (nextBackendStartReply ⟨buf, first, c, []⟩) := by
  unfold nextBackendStartReply
  rw [if_neg (by simp [replyPrefixComplete, hp.started])]
  split
  next => exact .stopped rfl (.inr (.inl rfl))
  next f n queue hq =>
    have hq : c.waitingReplyQueue = (f, n) :: queue := hq
    have hfront : c.front = some f := by simp [front, hq]
    obtain ⟨hf, hdue⟩ := h.front_due hq (hp.runs _ (by rw [hq]; exact List.mem_cons_self))
    have hlink := h.link f hf
    split
    next hun =>
      have hsource : S f ≠ [] := by
        intro hnil
        obtain ⟨_, _, hr⟩ := hlink.stream.relay
        change 0 < (c.subquery f).backend.buffer.unparsedBytes at hun
        rw [hr.unparsedBytes, hnil, List.length_nil] at hun
        omega
      refine backendReadyToReply_acted h hf hsource (fun _ _ => rfl) ?_ (.inl hun)
        (fun _ _ _ hne => absurd hfront hne)
      intro he
      rw [Bool.eq_false_iff]
      exact fun hr => hsource (hp.reading f hf he hr)
    next hun =>
      refine h.quiet_acted fun hclean _ _ g hg => ?_
      obtain rfl : f = g := Option.some.inj (hfront.symm.trans hg)
      have hhanded := hp.handed f hf
      rw [hhanded] at hlink
      exact hlink.waits hdue (Nat.eq_zero_of_not_pos hun) hclean

theorem rotateReplyingBackend_acted
    (h : Good store clean plan ep exempt out none first c done todo S F)
    (hp : Pause store done S F c) :
    Acted store clean plan ep exempt out none first
      (rotateReplyingBackend ⟨buf, first, c, []⟩) := by
  unfold rotateReplyingBackend
  split
  next hempty =>
    have hq : c.waitingReplyQueue = [] := List.isEmpty_iff.mp hempty
    have htodo : todo = [] := by
      have := h.runs
      rw [hq] at this
      exact List.map_eq_nil_iff.mp this.symm
    obtain rfl : done = plan := by rw [← h.split, htodo, List.append_nil]
    obtain ⟨pending, hrel, _⟩ := h.body hp.started
    have hreply := hrel.reply
    rw [hrel.rest (by simp [front, hq]), List.append_nil] at hreply
    exact .rotated rfl rfl ⟨hreply, h.endpoint, fun b hb => (h.exempted b hb).2.1⟩
  next => exact nextBackendStartReply_acted h hp

theorem writtenHeader_acted (h : Scheduled store clean plan ep none first out (some none) c) :
    Acted store clean plan ep none out none first
      (onWriteReplyFinished none .success ⟨buf, first, c, []⟩) := by
  obtain ⟨done, todo, S, F, h, _⟩ := h
  obtain ⟨rfl, hidle, hruns, rfl, hfirst⟩ : done = [] ∧ c.reply.isWriting = false ∧
      (∀ r ∈ c.waitingReplyQueue, 0 < r.2) ∧ out = serializePrefix plan.length ∧ first = true := by
    cases h.progress with
    | idle _ _ _ _ _ hw => cases hw
    | heading _ h₂ h₃ h₄ h₅ _ h₇ => exact ⟨h₂, h₃, h₄, h₅, h₇⟩
    | body _ _ _ ht =>
      cases ht with
      | free hw => cases hw
      | busy hw => cases hw
  have hread : ∀ b < c.count, (c.backend b).noRecycle = false →
      (c.backend b).isReadingReply = true → S b = [] := by
    intro b hb he hr
    exact (h.reading b hb he hr).resolve_right fun hf => by cases hf.2.1
  have hnone : ∀ b < c.count, F b = [] := by
    intro b hb
    rcases (h.link b hb).stream.parsed with ⟨_, hf, _⟩ | ⟨hne, _⟩
    · exact hf
    · exact absurd rfl hne
  have hg : Good store clean plan ep none (serializePrefix plan.length) none first
      { c with replyPrefix := [] } [] todo S F := by
    refine ⟨h.split, h.bound, h.endpoint, h.runs, h.later, h.link, fun b hb => h.locked b hb,
      fun b hb he hr => .inl (hread b hb he hr), h.quiet, h.exempted,
      .body [] rfl ⟨rfl, ?_, fun _ => rfl⟩ (.free rfl hidle ?_) hfirst⟩
    · intro b hb
      rw [hnone b hb]
      split
      · rfl
      · rfl
    · intro f queue hq
      have := hruns (f, 0) (by rw [hq]; exact List.mem_cons_self)
      cases this
  exact nextBackendStartReply_acted hg ⟨rfl, fun b hb => hnone b hb, hruns, hread⟩

@[simp] theorem subquery_writeDone (r i : ℕ) : (c.writeDone r).subquery i =
    if i = r then { c.subquery r with backend :=
      { c.backend r with buffer := (c.backend r).buffer.decRecycleLock } } else c.subquery i :=
  Function.update_apply _ _ _ _

@[simp] theorem backend_writeDone (r i : ℕ) : (c.writeDone r).backend i =
    if i = r then { c.backend r with buffer := (c.backend r).buffer.decRecycleLock }
    else c.backend i := by
  rw [backend, subquery_writeDone]
  split
  · rfl
  · rfl

theorem sameConn_writeDone (r i : ℕ) : SameConn (c.backend i) ((c.writeDone r).backend i) := by
  rw [backend_writeDone]
  split
  next hi => exact hi ▸ ⟨rfl, rfl, rfl, rfl⟩
  next => exact ⟨rfl, rfl, rfl, rfl⟩

/-- The state in which the client takes bytes of the front backend `r`. -/
structure Writing (store : ε → Bytes → Item) (plan done : Plan) (S F : ℕ → Bytes) (r : ℕ)
    (pending out : Bytes) (c : RedisMgetCommand ε) : Prop where
  started : c.replyPrefix = []
  relayed : Relayed store plan done F pending out c
  bound : r < c.count
  front : c.front = some r
  busy : c.reply.isWriting = true
  replying : c.replyingBackend = some r
  handed : (c.backend r).buffer.unprocessedBytes = 0
  source : S r ≠ []
  reading : ∀ b < c.count, (c.backend b).noRecycle = false →
    (c.backend b).isReadingReply = true → S b = []

theorem Good.client_busy {r : ℕ}
    (h : Good store clean plan ep exempt out (some (some r)) first c done todo S F) :
    ∃ pending, Writing store plan done S F r pending out c := by
  have hread : ∀ b < c.count, (c.backend b).noRecycle = false →
      (c.backend b).isReadingReply = true → S b = [] := by
    intro b hb he hrb
    exact (h.reading b hb he hrb).resolve_right fun hf => by cases hf.2.1
  cases h.progress with
  | idle _ _ _ _ _ hw => cases hw
  | heading _ _ _ _ _ hw => cases hw
  | body pending hp hrel ht hf =>
    cases ht with
    | free hw => cases hw
    | busy hw hr hfr hi hrep hun hs =>
      cases hw
      exact ⟨pending, hp, hrel, hr, hfr, hi, hrep, hun, hs, hread⟩

theorem Writing.quiet {r : ℕ} {pending : Bytes} (h : Writing store plan done S F r pending out c)
    (he : (c.backend r).noRecycle = false) : (c.backend r).isReadingReply = false := by
  rw [Bool.eq_false_iff]
  exact fun hr => h.source (h.reading r h.bound he hr)

/-- A client write of backend `r` has completed, and `queue` is what it leaves of the runs. -/
theorem Good.written {r : ℕ} {pending : Bytes} {queue : List (ℕ × ℕ)}
    (h : Good store clean plan ep exempt out (some (some r)) first c done todo S F)
    (hw : Writing store plan done S F r pending out c)
    (hruns : owners queue = owners c.waitingReplyQueue) (hlater : ∀ r ∈ queue.tail, 0 < r.2)
    (hfront : queue.head?.map Prod.fst = some r ∨ pending = [])
    (hzero : ∀ f queue', queue = (f, 0) :: queue' →
      0 < ((c.writeDone r).backend f).buffer.parsedUnreceivedBytes ∨
        0 < ((c.writeDone r).backend f).buffer.unprocessedBytes) :
    Good store clean plan ep exempt out none first
      { c.writeDone r with waitingReplyQueue := queue } done todo S F := by
  have hconn := sameConn_writeDone (c := c) r
  have hvalue : value store (c.writeDone r) = value store c := by
    funext e
    rw [value, value, (hconn e.1).answer]
  refine ⟨h.split, h.bound, fun i hi => (hconn i).endpoint.trans (h.endpoint i hi),
    hruns.trans h.runs, hlater, ?_, ?_, ?_, ?_, ?_,
    .body pending hw.started ⟨?_, ?_, ?_⟩ (.free rfl rfl hzero) (h.first_of_body hw.started)⟩
  · intro i hi
    change Link _ _ _ _ _ _ ((c.writeDone r).subquery i)
    rw [subquery_writeDone]
    split
    next hir => exact hir ▸ (h.link r hw.bound).decRecycleLock
    next => exact h.link i hi
  · intro i hi
    have hl := h.locked i hi
    change ((c.writeDone r).backend i).noRecycle = false → Locked _ ((c.writeDone r).backend i)
    rw [backend_writeDone]
    split
    next hir =>
      subst hir
      rw [beq_self_eq_true] at hl
      exact fun he => (hl he).written (hw.quiet he) (h.link i hi).stream.valid
    next hir =>
      have : ((some (some r) : Option (Option ℕ)) == some (some i)) = false := by
        simpa using Ne.symm hir
      rw [this] at hl
      exact hl
  · intro i hi he hri
    exact .inl (hw.reading i hi ((hconn i).error.symm.trans he) ((hconn i).reading.symm.trans hri))
  · intro i hi he hri
    exact h.quiet i hi ((hconn i).error.symm.trans he) ((hconn i).reading.symm.trans hri)
  · intro i hi
    obtain ⟨hb, he, ha⟩ := h.exempted i hi
    exact ⟨hb, (hconn i).error.trans he, (hconn i).aborted.trans ha⟩
  · change _ = _ ++ encodeItems (done.map (value store (c.writeDone r)))
    rw [hvalue]
    exact hw.relayed.reply
  · intro i hi
    change F i ++ (if queue.head?.map Prod.fst = some i then pending else []) =
      encodeItems ((keysOf done i).map (answer store ((c.writeDone r).backend i)))
    rw [(hconn i).answer]
    have hshares := hw.relayed.shares i hi
    rcases hfront with hf | rfl
    · rwa [hf, ← hw.front]
    · simpa using hshares
  · intro hn
    rcases hfront with hf | hp
    · cases hf.symm.trans hn
    · exact hp

/-- What is left to hand on of the bulks taken from `r`, when all that has arrived has been. -/
theorem Stream.nothing_pending {taken left : List Item} {source forwarded pending : Bytes}
    {s : MgetSubquery ε} (h : Stream taken left source forwarded s)
    (hp : forwarded ++ pending = encodeItems taken) (hun : s.backend.buffer.unprocessedBytes = 0)
    (hall : s.backend.buffer.parsedUnreceivedBytes = 0) : pending = [] := by
  have hlen := congrArg List.length hp
  rw [List.length_append] at hlen
  refine List.length_eq_zero_iff.mp ?_
  rcases h.parsed with ⟨rfl, _⟩ | ⟨_, _, hr⟩
  · simp only [encodeItems, List.flatMap_nil, List.length_nil] at hlen
    omega
  · rw [hr.unprocessedBytes] at hun
    rw [hr.parsedUnreceivedBytes] at hall
    generalize serializePrefix (taken ++ left).length = header at *
    rw [List.length_append] at hun
    omega

theorem Stream.partly {taken left : List Item} {source forwarded : Bytes} {s : MgetSubquery ε}
    (h : Stream taken left source forwarded s) (hun : s.backend.buffer.unprocessedBytes = 0)
    (hmissing : 0 < s.backend.buffer.parsedUnreceivedBytes) :
    s.backend.buffer.queued.length < 40 ∧ source ≠ encodeArray (taken ++ left) := by
  rcases h.parsed with ⟨_, _, _, hr⟩ | ⟨_, _, hr⟩
  · rw [hr.parsedUnreceivedBytes] at hmissing
    omega
  · have hlen := hr.length_queued
    rw [hr.unprocessedBytes] at hun
    rw [hr.parsedUnreceivedBytes] at hmissing
    refine ⟨by omega, fun hwhole => ?_⟩
    have := congrArg List.length hwhole
    rw [length_encodeArray_append] at this
    omega

theorem popRun_eq (c : RedisMgetCommand ε) :
    ∃ queue, c.popRun = { c with waitingReplyQueue := queue } ∧
    owners queue = owners c.waitingReplyQueue ∧
    ((∀ r ∈ c.waitingReplyQueue.tail, 0 < r.2) → ∀ r ∈ queue, 0 < r.2) := by
  unfold popRun
  split
  next f queue hq =>
    refine ⟨queue, rfl, ?_, fun hlater => ?_⟩
    · rw [hq, owners, owners, List.flatMap_cons, List.replicate_zero, List.nil_append]
    · rwa [hq] at hlater
  next hq =>
    refine ⟨c.waitingReplyQueue, rfl, rfl, fun hlater => ?_⟩
    intro r hr
    cases hrun : c.waitingReplyQueue with
    | nil => simp [hrun] at hr
    | cons run queue =>
      rw [hrun] at hr hlater
      rcases List.mem_cons.mp hr with rfl | hr
      · obtain ⟨f, n⟩ := r
        exact Nat.pos_of_ne_zero fun hn => hq f queue (by rw [hrun, show n = 0 from hn])
      · exact hlater r hr

theorem writtenBulks_acted {r : ℕ}
    (h : Scheduled store clean plan ep none first out (some (some r)) c) :
    Acted store clean plan ep none out none first
      (onWriteReplyFinished (some r) .success ⟨buf, first, c, []⟩) := by
  obtain ⟨done, todo, S, F, h, _⟩ := h
  obtain ⟨pending, hw⟩ := h.client_busy
  have hlink := h.link r hw.bound
  obtain ⟨_, _, hrelay⟩ := hlink.stream.relay
  -- the buffer's counters do not notice that it is unlocked
  have hmissing : ((c.writeDone r).backend r).buffer.parsedUnreceivedBytes =
      (c.backend r).buffer.parsedUnreceivedBytes := by
    rw [backend_writeDone, if_pos rfl]
    exact hrelay.decRecycleLock.parsedUnreceivedBytes.trans hrelay.parsedUnreceivedBytes.symm
  have hun : ((c.writeDone r).backend r).buffer.unprocessedBytes = 0 := by
    rw [backend_writeDone, if_pos rfl]
    exact (hrelay.decRecycleLock.unprocessedBytes.trans hrelay.unprocessedBytes.symm).trans
      hw.handed
  have hfront : (c.writeDone r).waitingReplyQueue.head?.map Prod.fst = some r := hw.front
  have hreplying : (c.writeDone r).replyingBackend = some r := hw.replying
  unfold onWriteReplyFinished
  simp only [ne_eq, not_true_eq_false, if_false, hw.busy, Bool.not_true, Bool.false_eq_true, hfront,
    hreplying, or_self]
  by_cases hall : ((c.writeDone r).backend r).buffer.parsedUnreceivedBytes = 0
  · rw [if_pos hall]
    obtain rfl : pending = [] := by
      have hshare := hw.relayed.shares r hw.bound
      rw [if_pos hw.front] at hshare
      exact hlink.stream.nothing_pending hshare hw.handed (hmissing ▸ hall)
    obtain ⟨queue, hpop, howners, hpos⟩ := popRun_eq (c.writeDone r)
    have hruns := hpos h.later
    rw [hpop]
    refine rotateReplyingBackend_acted (h.written hw howners ?_ (.inr rfl) ?_)
      ⟨hw.started, ?_, hruns, ?_⟩
    · exact fun run hrun => hruns run (List.mem_of_mem_tail hrun)
    · rintro f queue' rfl
      exact absurd (hruns (f, 0) List.mem_cons_self) (Nat.lt_irrefl 0)
    · intro b hb
      have hshares := hw.relayed.shares b hb
      change F b = encodeItems ((keysOf done b).map (answer store ((c.writeDone r).backend b)))
      rw [(sameConn_writeDone r b).answer, ← hshares]
      split
      · rw [List.append_nil]
      · rw [List.append_nil]
    · intro b hb he hr
      exact hw.reading b hb ((sameConn_writeDone r b).error.symm.trans he)
        ((sameConn_writeDone r b).reading.symm.trans hr)
  · rw [if_neg hall]
    have hpos : 0 < ((c.writeDone r).backend r).buffer.parsedUnreceivedBytes :=
      Nat.pos_of_ne_zero hall
    obtain ⟨n, queue, hq⟩ := exists_run_of_front hw.front
    have hg : Good store clean plan ep none out none first (c.writeDone r) done todo S F := by
      refine h.written hw rfl h.later (.inl hw.front) fun f queue' hq' => .inl ?_
      obtain rfl : r = f := (Prod.mk.inj (List.cons.inj (hq.symm.trans hq')).1).1
      exact hpos
    obtain ⟨hspace, hpart⟩ := (hg.link r hw.bound).stream.partly hun hpos
    exact .quiet rfl (hg.readMore hw.bound hw.started hw.replying hq hw.source
      (fun he => (sameConn_writeDone r r).reading.trans
        (hw.quiet ((sameConn_writeDone r r).error.symm.trans he))) hpart hspace (fun _ => hpos))

end Handlers

end RedisMgetCommand
end Yarmproxy
