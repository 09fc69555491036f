import Yarmproxy.MemcGetReply
import Yarmproxy.Outcome
import Mathlib.Data.List.Nodup
import Mathlib.Data.List.Perm.Subperm

/-! # Assembling the reply to a memcached `get`

The backends reply in the order in which they were first heard of. While no backend is
counted twice, the bytes written are the replies of the counted backends and the part of the
current one that has been forwarded. -/
namespace Yarmproxy
namespace MemcGetCommand

variable {ε : Type}

/-- What the proxy forwards for one backend, depending on whether it is the last one and
whether its connect failed. -/
def share (count : ℕ) (last failed : Bool) (vs : List ValueBlock) : Bytes :=
  if failed then
    if last then if 1 < count then endLine else memcErrorReply .connect else []
  else keptReply last vs

/-- A backend whose reply is still coming in; `forwarded` has been written to the client. -/
structure Receiving (vs : List ValueBlock) (forwarded : Bytes) (k : BackendConn ε) : Prop where
  incomplete : k.replyRecvComplete = false
  noError : k.noRecycle = false
  answer : k.received <+: memcReply vs
  short : k.received ≠ memcReply vs
  relay : ∃ parts rest, vs = parts ++ rest ∧
    Relay k.received (valueBytes parts).length forwarded k.buffer

/-- A backend that has replied, or has failed, with `target` to be forwarded for it. -/
structure Complete (vs : List ValueBlock) (target forwarded : Bytes) (k : BackendConn ε) :
    Prop where
  complete : k.replyRecvComplete = true
  whole : k.noRecycle = false → k.received = memcReply vs
  quiet : k.noRecycle = true → k.isReadingReply = false
  relay : Relay target target.length forwarded k.buffer

structure Heard (vs : List ValueBlock) (target forwarded : Bytes) (k : BackendConn ε) : Prop where
  room : 31 ≤ k.buffer.bufferSize
  query : k.query = none
  state : Receiving vs forwarded k ∨ Complete vs target forwarded k

/-- A backend that has neither replied nor failed yet. -/
structure Unheard (k : BackendConn ε) : Prop where
  room : 31 ≤ k.buffer.bufferSize
  noError : k.noRecycle = false
  incomplete : k.replyRecvComplete = false
  received : k.received = []
  relay : Relay [] 0 [] k.buffer
  query : k.query = none ∨ k.isReadingReply = false

section Heard
variable {vs : List ValueBlock} {target forwarded : Bytes} {k : BackendConn ε}

theorem Heard.valid (h : Heard vs target forwarded k) : k.buffer.Valid := by
  rcases h.state with hs | hs
  · obtain ⟨_, _, _, hr⟩ := hs.relay
    exact hr.valid
  · exact hs.relay.valid

theorem Heard.finished (h : Heard vs target forwarded k) (hf : k.finished = true) :
    forwarded = target := by
  rcases h.state with hs | hs
  · simp [BackendConn.finished, hs.incomplete] at hf
  · obtain ⟨_, hle⟩ := hs.relay.finished hf
    have hb := hs.relay.bytes
    have hq := hs.relay.length_queued
    rw [Nat.min_self] at hle
    have hz : k.buffer.queued = [] := List.length_eq_zero_iff.mp (by omega)
    rwa [hz, List.append_nil] at hb

theorem complete_of_finished (hf : k.finished = true) : k.replyRecvComplete = true := by
  simp only [BackendConn.finished, Bool.and_eq_true] at hf
  exact hf.1

/-- `TryWriteReply` on a backend that has been heard of. -/
theorem Heard.tryWriteReply (h : Heard vs target forwarded k) (b : ℕ) (r : ReplyState) :
    Yarmproxy.tryWriteReply b k r = (k, r, []) ∨
    (r.isWriting = false ∧ ∃ data buffer, data ≠ [] ∧
      Yarmproxy.tryWriteReply b k r =
        ({ k with buffer := buffer }, ⟨true, true⟩, [.writeReply data (some b)]) ∧
      Heard vs target (forwarded ++ data) { k with buffer := buffer }) := by
  rcases h.state with hs | hs
  · obtain ⟨parts, rest, hvs, hr⟩ := hs.relay
    rcases hr.tryWriteReply b r with ⟨hskip, _⟩ | ⟨hw, data, buffer, hd, he, hr', hsize⟩
    · exact Or.inl hskip
    · refine Or.inr ⟨hw, data, buffer, hd, he, hsize.symm ▸ h.room, h.query, Or.inl ?_⟩
      exact ⟨hs.incomplete, hs.noError, hs.answer, hs.short, parts, rest, hvs, hr'⟩
  · rcases hs.relay.tryWriteReply b r with ⟨hskip, _⟩ | ⟨hw, data, buffer, hd, he, hr', hsize⟩
    · exact Or.inl hskip
    · refine Or.inr ⟨hw, data, buffer, hd, he, hsize.symm ▸ h.room, h.query, Or.inr ?_⟩
      exact ⟨hs.complete, hs.whole, hs.quiet, hr'⟩

theorem Heard.decRecycleLock (h : Heard vs target forwarded k) :
    Heard vs target forwarded { k with buffer := k.buffer.decRecycleLock } := by
  refine ⟨by simpa using h.room, h.query, h.state.imp ?_ ?_⟩
  · intro hs
    obtain ⟨parts, rest, hvs, hr⟩ := hs.relay
    exact ⟨hs.incomplete, hs.noError, hs.answer, hs.short, parts, rest, hvs, hr.decRecycleLock⟩
  · intro hs
    exact ⟨hs.complete, hs.whole, hs.quiet, hs.relay.decRecycleLock⟩

theorem Heard.tryReadMoreReply (h : Heard vs target forwarded k) :
    Heard vs target forwarded k.tryReadMoreReply := by
  unfold BackendConn.tryReadMoreReply
  split
  next => exact h
  next hc =>
    refine ⟨h.room, h.query, h.state.imp ?_ ?_⟩
    · intro hs
      obtain ⟨parts, rest, hvs, hr⟩ := hs.relay
      exact ⟨hs.incomplete, hs.noError, hs.answer, hs.short, parts, rest, hvs, hr.incRecycleLock⟩
    · intro hs
      simp [hs.complete] at hc

theorem noRecycle_tryReadMoreReply (k : BackendConn ε) :
    k.tryReadMoreReply.noRecycle = k.noRecycle ∧
      k.tryReadMoreReply.replyRecvComplete = k.replyRecvComplete := by
  unfold BackendConn.tryReadMoreReply
  split
  · exact ⟨rfl, rfl⟩
  · exact ⟨rfl, rfl⟩

end Heard

theorem backend_setSubquery (c : MemcGetCommand ε) (b : ℕ) (s : MemcSubquery ε) (i : ℕ) :
    (c.setSubquery b s).backend i = if i = b then s.backend else c.backend i := by
  by_cases h : i = b
  · subst h
    simp [setSubquery, backend]
  · simp [setSubquery, backend, h]

@[simp] theorem backend_setBackend (c : MemcGetCommand ε) (b : ℕ) (k : BackendConn ε) (i : ℕ) :
    (c.setBackend b k).backend i = if i = b then k else c.backend i :=
  backend_setSubquery c b _ i

section Frame
variable (c : MemcGetCommand ε) (b : ℕ) (k : BackendConn ε)

@[simp] theorem count_setBackend : (c.setBackend b k).count = c.count := rfl

@[simp] theorem lastBackend_setBackend : (c.setBackend b k).lastBackend = c.lastBackend := rfl

@[simp] theorem reply_setBackend : (c.setBackend b k).reply = c.reply := rfl

@[simp] theorem replyingBackend_setBackend :
    (c.setBackend b k).replyingBackend = c.replyingBackend := rfl

@[simp] theorem waitingReplyQueue_setBackend :
    (c.setBackend b k).waitingReplyQueue = c.waitingReplyQueue := rfl

@[simp] theorem completedBackends_setBackend :
    (c.setBackend b k).completedBackends = c.completedBackends := rfl

@[simp] theorem receivedReplyBackends_setBackend :
    (c.setBackend b k).receivedReplyBackends = c.receivedReplyBackends := rfl

theorem tryMarkLastBackend_frame : ∃ received last, c.tryMarkLastBackend b =
    { c with receivedReplyBackends := received, lastBackend := last } := by
  unfold tryMarkLastBackend
  split
  · exact ⟨_, _, rfl⟩
  · exact ⟨_, _, rfl⟩

@[simp] theorem count_tryMarkLastBackend : (c.tryMarkLastBackend b).count = c.count := by
  obtain ⟨_, _, h⟩ := c.tryMarkLastBackend_frame b
  rw [h]

@[simp] theorem backend_tryMarkLastBackend (i : ℕ) :
    (c.tryMarkLastBackend b).backend i = c.backend i := by
  obtain ⟨_, _, h⟩ := c.tryMarkLastBackend_frame b
  rw [h]
  rfl

@[simp] theorem reply_tryMarkLastBackend : (c.tryMarkLastBackend b).reply = c.reply := by
  obtain ⟨_, _, h⟩ := c.tryMarkLastBackend_frame b
  rw [h]

@[simp] theorem replyingBackend_tryMarkLastBackend :
    (c.tryMarkLastBackend b).replyingBackend = c.replyingBackend := by
  obtain ⟨_, _, h⟩ := c.tryMarkLastBackend_frame b
  rw [h]

@[simp] theorem waitingReplyQueue_tryMarkLastBackend :
    (c.tryMarkLastBackend b).waitingReplyQueue = c.waitingReplyQueue := by
  obtain ⟨_, _, h⟩ := c.tryMarkLastBackend_frame b
  rw [h]

@[simp] theorem completedBackends_tryMarkLastBackend :
    (c.tryMarkLastBackend b).completedBackends = c.completedBackends := by
  obtain ⟨_, _, h⟩ := c.tryMarkLastBackend_frame b
  rw [h]

end Frame

theorem setBackend_self (c : MemcGetCommand ε) (b : ℕ) : c.setBackend b (c.backend b) = c := by
  simp [setBackend, setSubquery, backend]

section Good
variable (blocks : ℕ → List ValueBlock)

def target (c : MemcGetCommand ε) (b : ℕ) : Bytes :=
  share c.count (c.lastBackend == some b) (c.backend b).noRecycle (blocks b)

/-- What has been forwarded for backend `b` when the backends of `counted` are done and
`current` has been forwarded for the replying one. -/
def forwardedOf (c : MemcGetCommand ε) (counted : List ℕ) (current : Bytes) (b : ℕ) : Bytes :=
  if b ∈ counted then target blocks c b
  else if c.replyingBackend = some b then current else []

/-- The command between two steps of its reply schedule. `counted` are the backends behind
`completed_backends_`; `arrived` holds a backend just heard of and not yet placed. -/
structure Good (out : Bytes) (writing : Option (Option ℕ)) (first : Bool)
    (c : MemcGetCommand ε) (counted : List ℕ) (current : Bytes) (arrived : List ℕ) : Prop where
  nodup : c.receivedReplyBackends.Nodup
  bound : ∀ b ∈ c.receivedReplyBackends, b < c.count
  last : c.lastBackend = if c.receivedReplyBackends.length = c.count
    then c.receivedReplyBackends.getLast? else none
  completed : c.completedBackends = counted.length
  order : c.receivedReplyBackends =
    counted ++ (c.replyingBackend.toList ++ (c.waitingReplyQueue ++ arrived))
  waits : first = false → c.replyingBackend = none ∧ counted = []
  out : out = counted.flatMap (target blocks c) ++ current
  idle : c.replyingBackend = none → current = []
  writing : (writing = none ∧ c.reply.isWriting = false) ∨
    ∃ r, c.replyingBackend = some r ∧ writing = some (some r) ∧ c.reply.isWriting = true
  heard : ∀ b ∈ c.receivedReplyBackends,
    Heard (blocks b) (target blocks c b) (forwardedOf blocks c counted current b) (c.backend b)
  done : ∀ b ∈ counted, (c.backend b).replyRecvComplete = true
  silent : ∀ b < c.count, b ∉ c.receivedReplyBackends → Unheard (c.backend b)

variable {blocks} {out : Bytes} {writing : Option (Option ℕ)} {first : Bool}
  {c : MemcGetCommand ε} {counted : List ℕ} {current : Bytes} {arrived : List ℕ} {b : ℕ}

theorem target_setSubquery (blocks : ℕ → List ValueBlock) {s : MemcSubquery ε}
    (hk : s.backend.noRecycle = (c.backend b).noRecycle) :
    target blocks (c.setSubquery b s) = target blocks c := by
  funext i
  have hn : ((c.setSubquery b s).backend i).noRecycle = (c.backend i).noRecycle := by
    rw [backend_setSubquery]
    split
    next h => rw [h, hk]
    next => rfl
  simp only [target, hn]
  rfl

theorem Good.setSubquery {s : MemcSubquery ε}
    (h : Good blocks out writing first c counted current arrived)
    (hk : s.backend.noRecycle = (c.backend b).noRecycle)
    (hh : b ∈ c.receivedReplyBackends →
      Heard (blocks b) (target blocks c b) (forwardedOf blocks c counted current b) s.backend)
    (hd : b ∈ counted → s.backend.replyRecvComplete = true)
    (hu : b ∉ c.receivedReplyBackends → Unheard s.backend) :
    Good blocks out writing first (c.setSubquery b s) counted current arrived := by
  have ht := target_setSubquery blocks hk
  have hf : forwardedOf blocks (c.setSubquery b s) counted current =
      forwardedOf blocks c counted current := by
    funext i
    simp only [forwardedOf, ht]
    rfl
  refine ⟨h.nodup, h.bound, h.last, h.completed, h.order, h.waits, ?_, h.idle, h.writing, ?_, ?_,
    ?_⟩
  · rw [ht]
    exact h.out
  · intro i hi
    rw [ht, hf, backend_setSubquery]
    split
    next he =>
      subst he
      exact hh hi
    next => exact h.heard i hi
  · intro i hi
    rw [backend_setSubquery]
    split
    next he =>
      subst he
      exact hd hi
    next => exact h.done i hi
  · intro i hi hn
    rw [backend_setSubquery]
    split
    next he =>
      subst he
      exact hu hn
    next => exact h.silent i hi hn

theorem Good.not_counted (h : Good blocks out writing first c counted current arrived)
    (hb : b ∈ c.replyingBackend.toList ++ (c.waitingReplyQueue ++ arrived)) : b ∉ counted := by
  have hn := h.nodup
  rw [h.order] at hn
  exact fun hc => (List.disjoint_of_nodup_append hn) hc hb

theorem Good.forwardedOf_current (h : Good blocks out writing first c counted current arrived)
    (hr : c.replyingBackend = some b) : forwardedOf blocks c counted current b = current := by
  have hb : b ∉ counted := h.not_counted (by simp [hr])
  simp [forwardedOf, hb, hr]

theorem Good.replying_ne (h : Good blocks out writing first c counted current arrived)
    (hb : b ∈ c.waitingReplyQueue ++ arrived) : c.replyingBackend ≠ some b := by
  intro hr
  have hn := h.nodup
  rw [h.order, hr] at hn
  have := (List.disjoint_of_nodup_append (List.nodup_append.mp hn).2.1)
  exact this (by simp) hb

theorem Good.forwardedOf_waiting (h : Good blocks out writing first c counted current arrived)
    (hb : b ∈ c.waitingReplyQueue ++ arrived) : forwardedOf blocks c counted current b = [] := by
  have hc : b ∉ counted := h.not_counted (List.mem_append_right _ hb)
  simp [forwardedOf, hc, h.replying_ne hb]

theorem Good.mem_received (h : Good blocks out writing first c counted current arrived)
    (hb : b ∈ counted ∨ c.replyingBackend = some b ∨ b ∈ c.waitingReplyQueue ∨ b ∈ arrived) :
    b ∈ c.receivedReplyBackends := by
  rw [h.order]
  rcases hb with hb | hb | hb | hb <;> simp [hb]

theorem Good.activate (queue rest : List ℕ)
    (h : Good blocks out writing first c counted current arrived)
    (hf : first = true) (hr : c.replyingBackend = none)
    (hq : c.waitingReplyQueue ++ arrived = b :: (queue ++ rest)) :
    Good blocks out none first { c with replyingBackend := some b, waitingReplyQueue := queue }
      counted [] rest := by
  have hcur := h.idle hr
  have hb : forwardedOf blocks c counted current b = [] := h.forwardedOf_waiting (by simp [hq])
  have hnc : b ∉ counted := h.not_counted (by simp [hq])
  have hfwd : forwardedOf blocks { c with replyingBackend := some b, waitingReplyQueue := queue }
      counted [] = forwardedOf blocks c counted current := by
    funext i
    simp only [forwardedOf, hcur, ite_self]
    rfl
  obtain ⟨hwr, hi⟩ : writing = none ∧ c.reply.isWriting = false := by
    rcases h.writing with hw | ⟨r, hr', _⟩
    · exact hw
    · simp [hr] at hr'
  refine ⟨h.nodup, h.bound, h.last, h.completed, ?_, by simp [hf], ?_, by simp, Or.inl ⟨rfl, hi⟩,
    ?_, h.done, h.silent⟩
  · rw [h.order, hr, hq]
    simp
  · rw [h.out, hcur]
    rfl
  · intro i hi
    rw [hfwd]
    exact h.heard i hi

theorem Good.count (h : Good blocks out writing first c counted current arrived)
    (hw : writing = none) (hr : c.replyingBackend = some b) (hfin : (c.backend b).finished = true) :
    Good blocks out none first
      { c with replyingBackend := none, completedBackends := c.completedBackends + 1 }
      (counted ++ [b]) [] arrived := by
  have hb : b ∈ c.receivedReplyBackends := h.mem_received (Or.inr (Or.inl hr))
  have hcur : current = target blocks c b := by
    have := (h.heard b hb).finished hfin
    rwa [h.forwardedOf_current hr] at this
  have hfirst : first = true := by
    by_contra hf
    have := (h.waits (by simpa using hf)).1
    simp [hr] at this
  have hi : c.reply.isWriting = false := by
    rcases h.writing with ⟨_, hi⟩ | ⟨_, _, hw', _⟩
    · exact hi
    · simp [hw] at hw'
  have hfwd : ∀ i, forwardedOf blocks
      { c with replyingBackend := none, completedBackends := c.completedBackends + 1 }
      (counted ++ [b]) [] i = forwardedOf blocks c counted current i := by
    intro i
    by_cases hib : i = b
    · rw [hib, h.forwardedOf_current hr, hcur]
      simp only [forwardedOf, List.mem_append, List.mem_singleton, or_true, if_true]
      rfl
    · have hne : c.replyingBackend ≠ some i := by
        rw [hr]
        simpa using Ne.symm hib
      simp only [forwardedOf, List.mem_append, List.mem_singleton, hib, or_false, hne,
        if_false, reduceCtorEq]
      rfl
  refine ⟨h.nodup, h.bound, h.last, ?_, ?_, by simp [hfirst], ?_, by simp, Or.inl ⟨rfl, hi⟩,
    ?_, ?_, h.silent⟩
  · simp [h.completed]
  · rw [h.order, hr]
    simp
  · rw [h.out, hcur, List.flatMap_append, List.flatMap_singleton, List.append_nil]
    rfl
  · intro i hi
    rw [hfwd i]
    exact h.heard i hi
  · intro i hi
    rcases List.mem_append.mp hi with hi | hi
    · exact h.done i hi
    · obtain rfl := List.mem_singleton.mp hi
      exact complete_of_finished hfin

/-- The `VALUE` blocks of the answering backends, in the order of `order`. -/
def merged (blocks : ℕ → List ValueBlock) (c : MemcGetCommand ε) (order : List ℕ) : Bytes :=
  order.flatMap fun b => if (c.backend b).error then [] else valueBytes (blocks b)

/-- A whole reply: every backend's blocks once and one `END`, or the error line of the only
backend. -/
structure Assembled (blocks : ℕ → List ValueBlock) (out : Bytes) (c : MemcGetCommand ε) : Prop where
  counted : c.completedBackends = c.count
  reply : if c.count = 1 ∧ (c.backend 0).error = true then out = memcErrorReply .connect
    else ∃ order, order.Perm (List.range c.count) ∧ out = merged blocks c order ++ endLine

theorem Good.received_length_le (h : Good blocks out writing first c counted current arrived) :
    c.receivedReplyBackends.length ≤ c.count := by
  have hs := (List.subperm_of_subset h.nodup
    (fun b hb => List.mem_range.mpr (h.bound b hb))).length_le
  rwa [List.length_range] at hs

theorem Good.arrive (h : Good blocks out writing first c counted current []) (hb : b < c.count)
    (hn : b ∉ c.receivedReplyBackends) {k : BackendConn ε}
    (hh : Heard (blocks b) (target blocks ((c.tryMarkLastBackend b).setBackend b k) b) [] k) :
    Good blocks out writing first ((c.tryMarkLastBackend b).setBackend b k) counted current
      [b] := by
  have hnodup : (c.receivedReplyBackends ++ [b]).Nodup := by
    refine List.nodup_append.mpr ⟨h.nodup, List.nodup_singleton b, ?_⟩
    intro i hi j hj
    obtain rfl := List.mem_singleton.mp hj
    exact fun he => hn (he ▸ hi)
  have hbound : ∀ i ∈ c.receivedReplyBackends ++ [b], i < c.count := by
    intro i hi
    rcases List.mem_append.mp hi with hi | hi
    · exact h.bound i hi
    · exact List.mem_singleton.mp hi ▸ hb
  have hlen : c.receivedReplyBackends.length < c.count := by
    have := (List.subperm_of_subset hnodup
      (fun i hi => List.mem_range.mpr (hbound i hi))).length_le
    rw [List.length_append, List.length_range, List.length_singleton] at this
    omega
  have hlast : c.lastBackend = none := by
    rw [h.last, if_neg (by omega)]
  have hrec : (c.tryMarkLastBackend b).receivedReplyBackends = c.receivedReplyBackends ++ [b] := by
    simp only [tryMarkLastBackend, if_neg hn]
  have hmark : (c.tryMarkLastBackend b).lastBackend =
      if (c.receivedReplyBackends ++ [b]).length = c.count then some b else none := by
    simp only [tryMarkLastBackend, if_neg hn, hlast]
  -- the shares of the backends heard of before do not change
  have ht : ∀ i ≠ b, target blocks ((c.tryMarkLastBackend b).setBackend b k) i =
      target blocks c i := by
    intro i hi
    have hl : ((c.tryMarkLastBackend b).lastBackend == some i) = (c.lastBackend == some i) := by
      rw [hmark, hlast]
      split
      next => simpa using Ne.symm hi
      next => rfl
    simp [target, hi, hl]
  have hne : ∀ i ∈ c.receivedReplyBackends, i ≠ b := fun i hi he => hn (he ▸ hi)
  have hfwd : ∀ i ∈ c.receivedReplyBackends,
      forwardedOf blocks ((c.tryMarkLastBackend b).setBackend b k) counted current i =
        forwardedOf blocks c counted current i := by
    intro i hi
    simp [forwardedOf, ht i (hne i hi)]
  refine ⟨?_, ?_, ?_, by simpa using h.completed, ?_, by simpa using h.waits, ?_,
    by simpa using h.idle, by simpa using h.writing, ?_, ?_, ?_⟩
  · simpa [hrec] using hnodup
  · simpa [hrec] using hbound
  · simp [hrec, hmark]
  · simp [hrec, h.order]
  · rw [h.out]
    congr 1
    exact List.flatMap_congr fun i hi => (ht i (hne i (h.mem_received (Or.inl hi)))).symm
  · intro i hi
    rw [receivedReplyBackends_setBackend, hrec] at hi
    rcases List.mem_append.mp hi with hi | hi
    · rw [ht i (hne i hi), hfwd i hi, backend_setBackend, if_neg (hne i hi)]
      simpa using h.heard i hi
    · obtain rfl := List.mem_singleton.mp hi
      have hc : i ∉ counted := fun hc => hn (h.mem_received (Or.inl hc))
      have hr : c.replyingBackend ≠ some i := fun hr => hn (h.mem_received (Or.inr (Or.inl hr)))
      simpa [forwardedOf, hc, hr] using hh
  · intro i hi
    have := hne i (h.mem_received (Or.inl hi))
    simpa [this] using h.done i hi
  · intro i hi hnot
    rw [receivedReplyBackends_setBackend, hrec, List.mem_append, not_or] at hnot
    have hib : i ≠ b := by simpa using hnot.2
    simpa [hib] using h.silent i (by simpa using hi) hnot.1

theorem target_of_not_last (hb : c.lastBackend ≠ some b) :
    target blocks c b = if (c.backend b).error then [] else valueBytes (blocks b) := by
  have : (c.lastBackend == some b) = false := by simpa using hb
  simp only [target, share, keptReply, this, BackendConn.error]
  rfl

theorem target_last (hb : c.lastBackend = some b)
    (hn : 1 < c.count ∨ (c.backend b).error = false) :
    target blocks c b =
      (if (c.backend b).error then [] else valueBytes (blocks b)) ++ endLine := by
  have : (c.lastBackend == some b) = true := by simp [hb]
  cases he : (c.backend b).noRecycle with
  | true =>
    have hn : 1 < c.count := hn.resolve_right (by simp [BackendConn.error, he])
    simp [target, share, this, BackendConn.error, he, hn]
  | false => simp [target, share, keptReply, memcReply, this, BackendConn.error, he]

theorem Good.assembled (h : Good blocks out writing first c counted [] [])
    (hr : c.replyingBackend = none) (hc : counted ≠ []) (hn : c.count ≤ c.completedBackends) :
    Assembled blocks out c := by
  have hle := h.received_length_le
  have hord := h.order
  rw [hr, List.append_nil, Option.toList_none, List.nil_append] at hord
  have hlen : c.receivedReplyBackends.length = counted.length + c.waitingReplyQueue.length := by
    rw [hord, List.length_append]
  rw [h.completed] at hn
  have hwait : c.waitingReplyQueue = [] := List.length_eq_zero_iff.mp (by omega)
  rw [hwait, List.append_nil] at hord
  have hall : counted.length = c.count := by omega
  have hperm : counted.Perm (List.range c.count) := by
    refine List.Subperm.perm_of_length_le (List.subperm_of_subset (hord ▸ h.nodup) ?_) ?_
    · exact fun b hb => List.mem_range.mpr (h.bound b (hord ▸ hb))
    · rw [List.length_range, hall]
  refine ⟨by rw [h.completed, hall], ?_⟩
  obtain ⟨init, l, rfl⟩ := (List.eq_nil_or_concat' counted).resolve_left hc
  have hlast : c.lastBackend = some l := by
    rw [h.last, hord, if_pos hall, List.getLast?_append]
    rfl
  have hnotlast : ∀ b ∈ init, c.lastBackend ≠ some b := by
    intro b hb he
    rw [hlast, Option.some.injEq] at he
    have hnd := h.nodup
    rw [hord, he] at hnd
    exact List.disjoint_of_nodup_append hnd hb (List.mem_singleton_self b)
  have hinit : init.flatMap (target blocks c) = merged blocks c init := by
    exact List.flatMap_congr fun b hb => target_of_not_last (hnotlast b hb)
  have hout := h.out
  rw [List.append_nil, List.flatMap_append, hinit, List.flatMap_singleton] at hout
  by_cases hone : 1 < c.count ∨ (c.backend l).error = false
  · rw [if_neg]
    · refine ⟨_, hperm, ?_⟩
      rw [hout, target_last hlast hone, merged, merged, List.flatMap_append,
        List.flatMap_singleton, List.append_assoc]
    · rintro ⟨hcount, herr⟩
      have hl : l < c.count := h.bound l (by simp [hord])
      obtain rfl : l = 0 := by omega
      simp [hcount, herr] at hone
  · obtain ⟨hcount, herr⟩ := not_or.mp hone
    rw [List.length_append, List.length_singleton] at hall
    have hl : l < c.count := h.bound l (by simp [hord])
    obtain rfl : l = 0 := by omega
    have hnil : init = [] := List.length_eq_zero_iff.mp (by omega)
    have he : (c.backend 0).noRecycle = true := by simpa [BackendConn.error] using herr
    rw [if_pos ⟨by omega, he⟩, hout, hnil]
    simp [target, share, hlast, he, hcount, merged]

end Good

/-- Between two handlers of the first command a free client has no backend waiting for it. -/
def Scheduled (blocks : ℕ → List ValueBlock) (first : Bool) (out : Bytes)
    (writing : Option (Option ℕ)) (c : MemcGetCommand ε) : Prop :=
  (∃ counted current, Good blocks out writing first c counted current []) ∧
    (first = true → c.replyingBackend = none → c.waitingReplyQueue = [])

abbrev Acted (blocks : ℕ → List ValueBlock) (out : Bytes) (writing : Option (Option ℕ))
    (first : Bool) (x : Ctx (MemcGetCommand ε)) : Prop :=
  Outcome handlers (Scheduled blocks first) (Assembled blocks) out writing first x

section Acted
variable {blocks : ℕ → List ValueBlock} {out : Bytes} {writing : Option (Option ℕ)} {first : Bool}
  {counted arrived : List ℕ} {current : Bytes} {b : ℕ} {x : Ctx (MemcGetCommand ε)}

theorem Good.first_of_replying (h : Good blocks out writing first x.cmd counted current arrived)
    (hr : x.cmd.replyingBackend = some b) : first = true := by
  by_contra hf
  have := (h.waits (by simpa using hf)).1
  simp [hr] at this

theorem Good.write (h : Good blocks out writing first x.cmd counted current [])
    (hr : x.cmd.replyingBackend = some b) {data : Bytes} {k : BackendConn ε}
    (hk : k.noRecycle = (x.cmd.backend b).noRecycle)
    (hh : Heard (blocks b) (target blocks x.cmd b) (current ++ data) k) :
    Good blocks (out ++ data) (some (some b)) first
      { x.cmd.setBackend b k with reply := ⟨true, true⟩ }
      counted (current ++ data) [] := by
  have hc : b ∉ counted := h.not_counted (by simp [hr])
  have hb : b ∈ x.cmd.receivedReplyBackends := h.mem_received (Or.inr (Or.inl hr))
  have ht : target blocks (x.cmd.setBackend b k) = target blocks x.cmd :=
    target_setSubquery blocks hk
  -- only the replying backend sees the longer `current`
  have hfwd : ∀ i, forwardedOf blocks (x.cmd.setBackend b k) counted (current ++ data) i =
      if i = b then current ++ data else forwardedOf blocks x.cmd counted current i := by
    intro i
    simp only [forwardedOf, ht]
    by_cases hi : i = b
    · subst hi
      simp [hc, hr]
    · have : x.cmd.replyingBackend ≠ some i := by
        rw [hr]
        simpa using Ne.symm hi
      simp [hi, this]
  refine ⟨h.nodup, h.bound, h.last, h.completed, h.order, h.waits, ?_, ?_, Or.inr ⟨b, hr, rfl, rfl⟩,
    ?_, ?_, ?_⟩
  · rw [h.out, List.append_assoc]
    exact congrArg (fun t => List.flatMap t counted ++ (current ++ data)) ht.symm
  · exact fun hn => absurd (hr.symm.trans hn) (by simp)
  · intro i hi
    change Heard (blocks i) (target blocks (x.cmd.setBackend b _) i)
      (forwardedOf blocks (x.cmd.setBackend b _) counted (current ++ data) i)
      ((x.cmd.setBackend b _).backend i)
    rw [hfwd, ht, backend_setBackend]
    split
    next he =>
      subst he
      exact hh
    next => exact h.heard i hi
  · intro i hi
    have hne : i ≠ b := fun he => hc (he ▸ hi)
    change ((x.cmd.setBackend b _).backend i).replyRecvComplete = true
    rw [backend_setBackend, if_neg hne]
    exact h.done i hi
  · intro i hi hn
    have hne : i ≠ b := fun he => hn (he ▸ hb)
    change Unheard ((x.cmd.setBackend b _).backend i)
    rw [backend_setBackend, if_neg hne]
    exact h.silent i hi hn

theorem tryWriteReply_acted (h : Good blocks out writing first x.cmd counted current [])
    (hr : x.cmd.replyingBackend = some b) (he : x.effects = []) :
    Acted blocks out writing first (tryWriteReply b x) := by
  have hb : b ∈ x.cmd.receivedReplyBackends := h.mem_received (Or.inr (Or.inl hr))
  have hheard := h.heard b hb
  rw [h.forwardedOf_current hr] at hheard
  rcases hheard.tryWriteReply b x.cmd.reply with hskip | ⟨hw, data, buffer, _, hwrite, hheard'⟩
  · have hx : tryWriteReply b x = x := by
      simp [tryWriteReply, hskip, setBackend_self]
    rw [hx]
    exact .quiet (by simp [Ctx.visible, he]) ⟨⟨_, _, h⟩, by simp [hr]⟩
  · have hx : tryWriteReply b x = { x with
        cmd := { x.cmd.setBackend b { x.cmd.backend b with buffer := buffer } with
          reply := ⟨true, true⟩ }
        effects := [.writeReply data (some b)] } := by
      simp [tryWriteReply, hwrite, he]
    have hnone : writing = none := by
      rcases h.writing with ⟨hn, _⟩ | ⟨_, _, _, hi⟩
      · exact hn
      · simp [hw] at hi
    rw [hx]
    refine .wrote rfl hnone (h.first_of_replying hr) rfl ⟨⟨_, _, h.write hr rfl hheard'⟩, ?_⟩
    exact fun _ hn => absurd (hr.symm.trans hn) (by simp)

/-- The counted backends grow by one with every round, so the recursion is on the queue. -/
theorem nextBackendStartReply_acted (hf : first = true) (queue : List ℕ) :
    ∀ (x : Ctx (MemcGetCommand ε)) (counted : List ℕ), x.effects = [] →
      Good blocks out none first
        { x.cmd with replyingBackend := none, waitingReplyQueue := queue } counted [] [] →
      Acted blocks out none first (nextBackendStartReply queue x) := by
  induction queue with
  | nil =>
    intro x counted he h
    exact .quiet (by simp [nextBackendStartReply, Ctx.visible, he]) ⟨⟨_, _, h⟩, fun _ _ => rfl⟩
  | cons b queue ih =>
    intro x counted he h
    have hact := h.activate (b := b) queue [] hf rfl (by simp)
    simp only [nextBackendStartReply]
    split
    next hfin =>
      have hcount := hact.count rfl rfl hfin
      split
      next => exact ih _ _ he hcount
      next hge =>
        refine .rotated (Ctx.visible_emit_of_nil he rfl) rfl ?_
        obtain ⟨hall, hreply⟩ := hcount.assembled rfl (by simp) (Nat.le_of_not_lt hge)
        exact ⟨hall, hreply⟩
    next => exact tryWriteReply_acted (x := { x with cmd := _ }) hact rfl he

theorem rotateReplyingBackend_acted (h : Good blocks out none first x.cmd counted current [])
    (hr : x.cmd.replyingBackend = some b) (hfin : (x.cmd.backend b).finished = true)
    (he : x.effects = []) : Acted blocks out none first (rotateReplyingBackend x) := by
  have hcount := h.count rfl hr hfin
  unfold rotateReplyingBackend
  simp only
  split
  next => exact nextBackendStartReply_acted (h.first_of_replying hr) _ _ _ he hcount
  next hge =>
    refine .rotated (Ctx.visible_emit_of_nil he rfl) rfl ?_
    obtain ⟨hall, hreply⟩ := hcount.assembled rfl (by simp) (Nat.le_of_not_lt hge)
    exact ⟨hall, hreply⟩

theorem Good.writing_none (h : Good blocks out writing first x.cmd counted current arrived)
    (hi : x.cmd.reply.isWriting = false) : writing = none := by
  rcases h.writing with ⟨hn, _⟩ | ⟨_, _, _, hi'⟩
  · exact hn
  · simp [hi] at hi'

theorem replying_acted (h : Good blocks out writing first x.cmd counted current [])
    (hr : x.cmd.replyingBackend = some b)
    (hd : x.cmd.reply.isWriting = true → (x.cmd.backend b).finished = false)
    (he : x.effects = []) :
    Acted blocks out writing first
      (if (x.cmd.backend b).finished then rotateReplyingBackend x else tryWriteReply b x) := by
  split
  next hfin =>
    have hi : x.cmd.reply.isWriting = false := by
      by_contra hi
      simp [hd (by simpa using hi)] at hfin
    obtain rfl := h.writing_none hi
    exact rotateReplyingBackend_acted h hr hfin he
  next => exact tryWriteReply_acted h hr he

/-- Backend `b` has just been heard of for the first time, or again before it was counted. -/
theorem backendReadyToReply_acted
      (h : Good blocks out writing x.first x.cmd counted current arrived)
    (hready : x.first = true → x.cmd.replyingBackend = none → x.cmd.waitingReplyQueue = [])
    (hb : arrived = [b] ∨ arrived = [] ∧ b ∈ x.cmd.receivedReplyBackends ∧ b ∉ counted)
    (hd : x.cmd.replyingBackend = some b → x.cmd.reply.isWriting = true →
      (x.cmd.backend b).finished = false)
    (he : x.effects = []) :
    Acted blocks out writing x.first (backendReadyToReply b x) := by
  unfold backendReadyToReply
  split
  next ha =>
    simp only [activates, Bool.and_eq_true, Bool.or_eq_true, beq_iff_eq] at ha
    obtain ⟨hf, ha⟩ := ha
    rcases hb with rfl | ⟨rfl, hmem, hnc⟩
    · have hnone := ha.resolve_right (h.replying_ne (by simp))
      have hw := hready hf hnone
      have hact := h.activate (b := b) x.cmd.waitingReplyQueue [] hf hnone (by simp [hw])
      have hi : x.cmd.reply.isWriting = false := by
        rcases h.writing with ⟨_, hi⟩ | ⟨r, hr, _⟩
        · exact hi
        · simp [hnone] at hr
      obtain rfl := h.writing_none hi
      exact replying_acted (x := { x with cmd := _ }) hact rfl (by simp [hi]) he
    · have hr : x.cmd.replyingBackend = some b := by
        refine ha.resolve_left fun hnone => hnc ?_
        rw [h.order, hnone, hready hf hnone] at hmem
        simpa using hmem
      have hx : { x with cmd := { x.cmd with replyingBackend := some b } } = x := by
        rw [← hr]
      simp only [hx]
      exact replying_acted h hr (hd hr) he
  next ha =>
    simp only [activates, Bool.and_eq_true, Bool.or_eq_true, beq_iff_eq, not_and, not_or] at ha
    have hwait : x.first = true → x.cmd.replyingBackend ≠ none := fun hf => (ha hf).1
    split
    next hq =>
      rcases hb with rfl | ⟨rfl, _⟩
      · have hn := h.nodup
        rw [h.order] at hn
        have hn := (List.nodup_append.mp (List.nodup_append.mp hn).2.1).2.1
        exact absurd (List.mem_singleton_self b) (List.disjoint_of_nodup_append hn hq)
      · exact .quiet (by simp [Ctx.visible, he])
          ⟨⟨_, _, h⟩, fun hf hr => absurd hr (hwait hf)⟩
    next hq =>
      rcases hb with rfl | ⟨rfl, hmem, hnc⟩
      · refine .quiet (by simp [Ctx.visible, he]) ⟨⟨counted, current, ?_⟩, fun hf hr =>
          absurd hr (hwait hf)⟩
        exact ⟨h.nodup, h.bound, h.last, h.completed,
          by simpa using h.order, h.waits, h.out, h.idle, h.writing, h.heard, h.done, h.silent⟩
      · -- it is neither counted nor waiting, so it would be the replying one
        rw [h.order] at hmem
        simp only [List.mem_append, hnc, hq, List.not_mem_nil, false_or, or_false,
          Option.mem_toList] at hmem
        exact absurd hmem (ha (h.first_of_replying hmem)).2

end Acted

end MemcGetCommand
end Yarmproxy
