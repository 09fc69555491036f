import Yarmproxy.BackendTimers
import Mathlib.Data.List.Nodup

/-! # The callbacks of a backend connection

Every `WriteQuery` and every `ReadReply` is followed to the callbacks that are invoked for it. A
query passes through a connect and one or several writes; each of these operations has a
completion handler and a timer handler, and all of them belong to the call that began with it. -/
namespace Yarmproxy

inductive CallKind where
  | writeQuery | readReply
  deriving DecidableEq, Repr

/-- The call that a callback answers. -/
def Callback.kind : Callback → CallKind
  | .querySent _ => .writeQuery
  | .replyReceived _ => .readReply

def Operation.callKind : Operation → CallKind
  | .connect | .write => .writeQuery
  | .read => .readReply

/-- What `OnTimeout` calls back with. -/
def Operation.timeoutCallback : Operation → Callback
  | .connect => .querySent .backendConnectTimeout
  | .write => .querySent .backendWriteTimeout
  | .read => .replyReceived .backendReadTimeout

namespace TimedConn

def WriteResult.callback : WriteResult → Option Callback
  | .failed => some (.querySent .writeQuery)
  | .short => none
  | .full => some (.querySent .success)

/-- The callback that a handler invokes, with the operation whose handler it is. -/
def callback (s : TimedConn) : Event → Option (ℕ × Callback)
  | .connectDone i ok => if s.aborted || ok then none else some (i, .querySent .connect)
  | .writeDone i result => if s.aborted then none else result.callback.map fun cb => (i, cb)
  | .readDone i ok =>
    if s.aborted then none else some (i, .replyReceived (if ok then .success else .readReply))
  | .timeout w => if s.Fires w then some (w.op, w.kind.timeoutCallback) else none
  | _ => none

theorem Agrees.callbacks {ε : Type} {s : TimedConn} {c : BackendConn ε} (h : s.Agrees c)
    (hab : c.aborted = false) (i : ℕ) (chunk : Bytes) {at_ : Option ℕ} {data : Bytes}
    (hq : c.query = some (.writing at_ data)) :
    (s.callback (.connectDone i false)).map Prod.snd = (c.handle .connectFailed).2 ∧
    (s.callback (.writeDone i .failed)).map Prod.snd = (c.handle .queryWriteFailed).2 ∧
    (s.callback (.writeDone i .full)).map Prod.snd = (c.handle .queryWritten).2 ∧
    (s.callback (.readDone i true)).map Prod.snd = (c.handle (.replyRead chunk)).2 ∧
    (s.callback (.readDone i false)).map Prod.snd = (c.handle .replyReadFailed).2 ∧
    ∀ w, s.Fires w →
      (s.callback (.timeout w)).map Prod.snd = (c.handle (Operation.timeout w.kind)).2 := by
  have hs : s.aborted = false := h.aborted.trans hab
  simp only [callback, hs, BackendConn.handle, hq]
  refine ⟨rfl, rfl, rfl, rfl, rfl, fun w hw => ?_⟩
  rw [if_pos hw]
  cases w.kind <;> rfl

section Fields
variable {s : TimedConn} {i : ℕ} {kind : Operation}

@[simp] theorem aborting_setCanceled (t : Timer) (v : Bool) :
    (s.setCanceled t v).aborting = s.aborting := by
  cases t <;> rfl

@[simp] theorem pending_finish : (s.finish i kind).pending = (s.complete i).pending := by
  rw [finish, pending_setCanceled]
  rfl

@[simp] theorem started_finish : (s.finish i kind).started = s.started := by
  rw [finish, started_setCanceled]
  rfl

@[simp] theorem aborted_finish : (s.finish i kind).aborted = s.aborted := by
  rw [finish, aborted_setCanceled]
  rfl

@[simp] theorem aborting_finish : (s.finish i kind).aborting = s.aborting := by
  rw [finish, aborting_setCanceled]
  rfl

/-- What the next operation looks like from outside. -/
structure Started (s : TimedConn) (rest : List (ℕ × Operation)) (kind : Operation) (c : TimedConn) :
    Prop where
  pending : c.pending = rest ++ [(s.started, kind)]
  aborted : c.aborted = s.aborted
  aborting : c.aborting = s.aborting

theorem start_started (kind : Operation) (t : Timer) (v : Bool) :
    s.Started s.pending kind ((s.start kind).setCanceled t v) := by
  refine ⟨?_, ?_, ?_⟩
  · rw [pending_setCanceled]
    rfl
  · rw [aborted_setCanceled]
    rfl
  · rw [aborting_setCanceled]
    rfl

theorem restart_started : s.Started (s.complete i).pending .write
    (((s.finish i kind).start .write).setCanceled .write false) := by
  obtain ⟨hp, ha, hg⟩ := (s.finish i kind).start_started .write .write false
  rw [pending_finish, started_finish] at hp
  exact ⟨hp, ha.trans aborted_finish, hg.trans aborting_finish⟩

theorem close_fields (s : TimedConn) :
    (s.next .close).pending = s.pending ∧ (s.next .close).aborted = true := by
  rw [next]
  split
  next hab => exact ⟨rfl, hab⟩
  next => exact ⟨rfl, rfl⟩

theorem abort_fields (s : TimedConn) :
    (s.next .abort).pending = s.pending ∧ (s.next .abort).aborted = true := by
  rw [next]
  split
  next hab => exact ⟨rfl, hab⟩
  next => exact ⟨rfl, rfl⟩

end Fields
end TimedConn

/-- A callback was invoked for `call`, when `closed` calls had been made before the last `Close`
or `Abort`. -/
structure Invocation where
  call : ℕ
  callback : Callback
  closed : ℕ
  deriving DecidableEq, Repr

/-- A connection with the history of its calls. -/
structure CalledConn where
  conn : TimedConn
  calls : List CallKind
  /-- the call that an operation belongs to -/
  owner : ℕ → ℕ
  /-- the calls that `WriteQuery` has posted a failure for -/
  posted : List ℕ
  invoked : List Invocation
  /-- how many calls were made before the last `Close` or `Abort` -/
  closed : ℕ

namespace CalledConn

def new (socketOpen : Bool) : CalledConn := ⟨.new socketOpen, [], fun _ => 0, [], [], 0⟩

inductive Event where
  | conn (e : TimedConn.Event)
  /-- a call of `Abort` from outside -/
  | abort
  /-- the callback posted by `WriteQuery` for a call -/
  | posted (call : ℕ)
  deriving DecidableEq, Repr

def answeredCalls (s : CalledConn) : List ℕ := s.invoked.map Invocation.call

/-- The callbacks of all the calls of a kind have been invoked. -/
def Answered (s : CalledConn) (kind : CallKind) : Prop :=
  ∀ call < s.calls.length, s.calls[call]? = some kind → call ∈ s.answeredCalls

instance (s : CalledConn) (kind : CallKind) : Decidable (s.Answered kind) :=
  inferInstanceAs (Decidable (∀ call < _, _))

/-- A new call is made after the callback of the previous one of its kind. -/
def Enabled (s : CalledConn) : Event → Prop
  | .conn e => s.conn.Enabled e ∧ (e = .writeQuery → s.Answered .writeQuery) ∧
      (e = .readReply → s.Answered .readReply)
  | .abort => True
  | .posted call => call ∈ s.posted ∧ s.conn.aborting = false

instance (s : CalledConn) (e : Event) : Decidable (s.Enabled e) := by
  cases e <;> simp only [Enabled] <;> infer_instance

def called : TimedConn.Event → List CallKind
  | .writeQuery => [.writeQuery]
  | .readReply => [.readReply]
  | _ => []

def starting (s : CalledConn) : TimedConn.Event → Option ℕ
  | .writeQuery => if s.conn.aborted then none else some s.calls.length
  | .readReply => some s.calls.length
  | .connectDone i true | .writeDone i .short => if s.conn.aborted then none else some (s.owner i)
  | _ => none

def Closes (e : TimedConn.Event) : Prop := e = .close ∨ e = .abort

instance (e : TimedConn.Event) : Decidable (Closes e) := inferInstanceAs (Decidable (_ ∨ _))

def next (s : CalledConn) : Event → CalledConn
  | .conn e =>
    { conn := s.conn.next e
      calls := s.calls ++ called e
      owner := match s.starting e with
        | none => s.owner
        | some call => Function.update s.owner s.conn.started call
      posted := if e = .writeQuery ∧ s.conn.aborted = true then s.posted ++ [s.calls.length]
        else s.posted
      invoked := s.invoked ++ match s.conn.callback e with
        | none => []
        | some (i, cb) => [⟨s.owner i, cb, s.closed⟩]
      closed := if Closes e then s.calls.length else s.closed }
  | .abort =>
    { s with
      conn := { s.conn.next .abort with aborting := s.conn.aborting }
      closed := s.calls.length }
  | .posted call =>
    { s with
      posted := s.posted.erase call
      invoked := s.invoked ++ [⟨call, .querySent .writeQuery, s.closed⟩] }

def system : Transition.System CalledConn Event := ⟨Enabled, next⟩

instance (s : CalledConn) (e : Event) : Decidable (system.Enabled s e) :=
  inferInstanceAs (Decidable (s.Enabled e))

/-- No call has been answered twice, each with its own callback, and none after a `Close` or
`Abort` that came behind it. -/
structure Once (s : CalledConn) : Prop where
  once : s.answeredCalls.Nodup
  kind : ∀ v ∈ s.invoked, s.calls[v.call]? = some v.callback.kind
  open_ : ∀ v ∈ s.invoked, v.closed ≤ v.call

/-- No handler of a completed operation is queued when its flag is cleared, and no posted failure
when the connection is closed. -/
def Careful (s : CalledConn) : Event → Prop
  | .conn e => s.conn.Orderly e ∧ (Closes e → s.posted = [])
  | .abort => s.posted = []
  | .posted _ => True

instance (s : CalledConn) (e : Event) : Decidable (Careful s e) := by
  cases e <;> simp only [Careful] <;> infer_instance

structure Invariant (s : CalledConn) : Prop where
  conn : s.conn.Invariant
  owned : ∀ o ∈ s.conn.pending, s.calls[s.owner o.1]? = some o.2.callKind
  distinct : (s.conn.pending.map fun o => s.owner o.1).Nodup
  /-- the calls of the operations under way are unanswered -/
  unanswered : s.conn.aborted = false → s.conn.aborting = false →
    ∀ o ∈ s.conn.pending, s.owner o.1 ∉ s.answeredCalls
  posted : ∀ call ∈ s.posted, s.calls[call]? = some .writeQuery ∧ call ∉ s.answeredCalls ∧
    s.closed ≤ call
  postedOnce : s.posted.Nodup
  /-- nothing is posted and nothing was closed as long as the connection is in use -/
  inUse : s.conn.aborted = false → s.posted = [] ∧ s.closed = 0
  closed_le : s.closed ≤ s.calls.length
  once : s.Once

section Steps
variable {s : CalledConn} {e : TimedConn.Event} {i call : ℕ} {kind : Operation} {c : TimedConn}

theorem Once.lt (h : s.Once) (hc : call ∈ s.answeredCalls) : call < s.calls.length := by
  obtain ⟨v, hv, rfl⟩ := List.mem_map.mp hc
  exact (List.getElem?_eq_some_iff.mp (h.kind v hv)).1

theorem Invariant.owner_lt (h : s.Invariant) {o : ℕ × Operation} (ho : o ∈ s.conn.pending) :
    s.owner o.1 < s.calls.length :=
  (List.getElem?_eq_some_iff.mp (h.owned o ho)).1

theorem getElem?_calls {k : CallKind} (h : s.calls[call]? = some k) (more : List CallKind) :
    (s.calls ++ more)[call]? = some k := by
  rw [List.getElem?_append_left (List.getElem?_eq_some_iff.mp h).1]
  exact h

theorem Once.append (h : s.Once) {v : Invocation} (hn : v.call ∉ s.answeredCalls)
    (hk : s.calls[v.call]? = some v.callback.kind) (hc : v.closed ≤ v.call) :
    Once { s with invoked := s.invoked ++ [v] } := by
  refine ⟨?_, fun u hu => ?_, fun u hu => ?_⟩
  · rw [answeredCalls, List.map_append, List.nodup_append']
    exact ⟨h.once, List.nodup_singleton _, List.disjoint_singleton.mpr hn⟩
  · rcases List.mem_append.mp hu with hu | hu
    · exact h.kind u hu
    · rw [List.mem_singleton.mp hu]
      exact hk
  · rcases List.mem_append.mp hu with hu | hu
    · exact h.open_ u hu
    · rw [List.mem_singleton.mp hu]
      exact hc

theorem Invariant.of_conn (h : s.Invariant) (hc : c.Invariant)
    (hp : c.pending.Sublist s.conn.pending) (ha : c.aborted = false → s.conn.aborted = false)
    (hg : c.aborted = false → c.aborting = false → s.conn.aborting = false) :
    Invariant { s with conn := c } where
  conn := hc
  owned o ho := h.owned o (hp.subset ho)
  distinct := h.distinct.sublist (hp.map _)
  unanswered hab hag o ho := h.unanswered (ha hab) (hg hab hag) o (hp.subset ho)
  posted := h.posted
  postedOnce := h.postedOnce
  inUse hab := h.inUse (ha hab)
  closed_le := h.closed_le
  once := ⟨h.once.once, h.once.kind, h.once.open_⟩

theorem Invariant.close (h : s.Invariant) (hc : c.Invariant) (hp : c.pending = s.conn.pending)
    (ha : c.aborted = true) (hposted : s.posted = []) :
    Invariant { s with conn := c, closed := s.calls.length } where
  conn := hc
  owned o ho := h.owned o (hp ▸ ho)
  distinct := by
    rw [hp]
    exact h.distinct
  unanswered hab := absurd (ha.symm.trans hab) nofun
  posted call hcall := by
    rw [hposted] at hcall
    cases hcall
  postedOnce := h.postedOnce
  inUse hab := absurd (ha.symm.trans hab) nofun
  closed_le := le_rfl
  once := ⟨h.once.once, h.once.kind, h.once.open_⟩

theorem Invariant.invoke (h : s.Invariant) (hc : c.Invariant)
    (hp : c.pending.Sublist s.conn.pending) (ha : s.conn.aborted = false)
    (hg : s.conn.aborting = false) {cb : Callback} (hi : (i, kind) ∈ s.conn.pending)
    (hk : cb.kind = kind.callKind)
    (hdone : c.aborting = false → ∀ o ∈ c.pending, o.1 ≠ i) :
    Invariant { s with conn := c, invoked := s.invoked ++ [⟨s.owner i, cb, s.closed⟩] } := by
  obtain ⟨hposted, hzero⟩ := h.inUse ha
  have hnot := h.unanswered ha hg _ hi
  have honce := h.once.append (v := ⟨s.owner i, cb, s.closed⟩) hnot
    ((h.owned _ hi).trans (by rw [hk])) (by rw [hzero]; exact Nat.zero_le _)
  refine ⟨hc, fun o ho => h.owned o (hp.subset ho), h.distinct.sublist (hp.map _),
    fun _ hag o ho hmem => ?_, fun call hcall => ?_, h.postedOnce, fun _ => ⟨hposted, hzero⟩,
    h.closed_le, honce.once, honce.kind, honce.open_⟩
  · rw [answeredCalls, List.map_append, List.mem_append, List.map_singleton,
      List.mem_singleton] at hmem
    rcases hmem with hmem | hmem
    · exact h.unanswered ha hg o (hp.subset ho) hmem
    · have heq := List.inj_on_of_nodup_map h.distinct (hp.subset ho) hi hmem
      exact hdone hag o ho (congrArg Prod.fst heq)
  · rw [hposted] at hcall
    cases hcall

theorem Invariant.start (h : s.Invariant) (call : ℕ) (hc : c.Invariant)
    {rest : List (ℕ × Operation)}
    (hs : s.conn.Started rest kind c) (hrest : rest.Sublist s.conn.pending) (more : List CallKind)
    (hk : (s.calls ++ more)[call]? = some kind.callKind)
    (hfree : ∀ o ∈ rest, s.owner o.1 ≠ call)
    (hnot : s.conn.aborted = false → s.conn.aborting = false → call ∉ s.answeredCalls) :
    Invariant { s with
      conn := c, calls := s.calls ++ more
      owner := Function.update s.owner s.conn.started call } := by
  obtain ⟨hp, ha, hg⟩ := hs
  -- the operations under way were numbered before
  have hold : ∀ o ∈ rest, Function.update s.owner s.conn.started call o.1 = s.owner o.1 := by
    intro o ho
    exact Function.update_of_ne
      (Nat.ne_of_lt (h.conn.labelled.pending o (hrest.subset ho))) ..
  have hnew := Function.update_self s.conn.started call s.owner
  refine ⟨hc, fun o ho => ?_, ?_, fun hab hag o ho => ?_, fun call' hcall => ?_, h.postedOnce,
    fun hab => h.inUse (ha ▸ hab), ?_, h.once.once, fun v hv => ?_, h.once.open_⟩
  · rw [hp, List.mem_append, List.mem_singleton] at ho
    dsimp only
    rcases ho with ho | rfl
    · rw [hold o ho]
      exact getElem?_calls (h.owned o (hrest.subset ho)) more
    · rw [hnew]
      exact hk
  · dsimp only
    rw [hp, List.map_append, List.nodup_append', List.map_congr_left hold]
    refine ⟨h.distinct.sublist (hrest.map _), List.nodup_singleton _, ?_⟩
    rw [List.map_singleton, hnew, List.disjoint_singleton]
    intro hmem
    obtain ⟨o, ho, heq⟩ := List.mem_map.mp hmem
    exact hfree o ho heq
  · have hab : s.conn.aborted = false := ha.symm.trans hab
    have hag : s.conn.aborting = false := hg.symm.trans hag
    rw [hp, List.mem_append, List.mem_singleton] at ho
    dsimp only
    rcases ho with ho | rfl
    · rw [hold o ho]
      exact h.unanswered hab hag o (hrest.subset ho)
    · rw [hnew]
      exact hnot hab hag
  · obtain ⟨hkind, hn, hle⟩ := h.posted call' hcall
    exact ⟨getElem?_calls hkind more, hn, hle⟩
  · rw [List.length_append]
    exact h.closed_le.trans (Nat.le_add_right ..)
  · exact getElem?_calls (h.once.kind v hv) more

theorem Invariant.newCall (h : s.Invariant) (kind : Operation) (hc : c.Invariant)
    (hs : s.conn.Started s.conn.pending kind c) :
    Invariant { s with
      conn := c, calls := s.calls ++ [kind.callKind]
      owner := Function.update s.owner s.conn.started s.calls.length } := by
  refine h.start _ hc hs (List.Sublist.refl _) _ (List.getElem?_concat_length ..)
    (fun o ho => Nat.ne_of_lt (h.owner_lt ho)) fun _ _ hmem => ?_
  exact absurd (h.once.lt hmem) (Nat.lt_irrefl _)

theorem Invariant.restart (h : s.Invariant) (hc : c.Invariant) (hi : (i, kind) ∈ s.conn.pending)
    (hs : s.conn.Started (s.conn.complete i).pending .write c)
    (hk : kind.callKind = .writeQuery) :
    Invariant { s with
      conn := c
      owner := Function.update s.owner s.conn.started (s.owner i) } := by
  have hstart := h.start (s.owner i) hc hs List.filter_sublist [] ?_ ?_
    fun hab hag => h.unanswered hab hag _ hi
  · simpa only [List.append_nil] using hstart
  · rw [List.append_nil, h.owned _ hi, hk]
    rfl
  · intro o ho heq
    obtain ⟨ho, hne⟩ := List.mem_filter.mp ho
    have := List.inj_on_of_nodup_map h.distinct ho hi heq
    exact absurd (congrArg Prod.fst this) (by simpa using hne)

theorem Invariant.complete (h : s.Invariant) (hc : (s.conn.complete i).Invariant) :
    Invariant { s with conn := s.conn.complete i } :=
  h.of_conn hc List.filter_sublist id fun _ => id

theorem ne_of_mem_complete {o : ℕ × Operation} (ho : o ∈ (s.conn.complete i).pending) :
    o.1 ≠ i := by
  simpa using (List.mem_filter.mp ho).2

theorem next_other (hm : called e = []) (hcl : ¬ Closes e) : s.next (.conn e) =
    { s with
      conn := s.conn.next e
      owner := match s.starting e with
        | none => s.owner
        | some call => Function.update s.owner s.conn.started call
      invoked := s.invoked ++ match s.conn.callback e with
        | none => []
        | some (i, cb) => [⟨s.owner i, cb, s.closed⟩] } := by
  have hw : e ≠ .writeQuery := by
    rintro rfl
    cases hm
  simp only [next, hm, if_neg hcl, hw, false_and, if_false, List.append_nil]

theorem Invariant.writeQuery (h : s.Invariant) (hc : (s.conn.next .writeQuery).Invariant) :
    (s.next (.conn .writeQuery)).Invariant := by
  cases hab : s.conn.aborted with
  | true =>
    have hnext : s.next (.conn .writeQuery) =
        { s with calls := s.calls ++ [.writeQuery], posted := s.posted ++ [s.calls.length] } := by
      simp [next, called, starting, TimedConn.callback, TimedConn.next, Closes, hab]
    rw [hnext]
    refine ⟨h.conn, fun o ho => getElem?_calls (h.owned o ho) _, h.distinct, h.unanswered,
      fun call hcall => ?_, ?_, fun hno => absurd (hab.symm.trans hno) Bool.false_ne_true.symm, ?_,
      h.once.once, fun v hv => getElem?_calls (h.once.kind v hv) _, h.once.open_⟩
    · rcases List.mem_append.mp hcall with hcall | hcall
      · obtain ⟨hkind, hn, hle⟩ := h.posted call hcall
        exact ⟨getElem?_calls hkind _, hn, hle⟩
      · rw [List.mem_singleton.mp hcall]
        exact ⟨List.getElem?_concat_length .., fun hmem => absurd (h.once.lt hmem)
          (Nat.lt_irrefl _), h.closed_le⟩
    · rw [List.nodup_append']
      refine ⟨h.postedOnce, List.nodup_singleton _, List.disjoint_singleton.mpr fun hmem => ?_⟩
      exact absurd (List.getElem?_eq_some_iff.mp (h.posted _ hmem).1).1 (Nat.lt_irrefl _)
    · rw [List.length_append]
      exact h.closed_le.trans (Nat.le_add_right ..)
  | false =>
    have hnext : s.next (.conn .writeQuery) =
        { s with
          conn := s.conn.next .writeQuery
          calls := s.calls ++ [.writeQuery]
          owner := Function.update s.owner s.conn.started s.calls.length } := by
      simp [next, called, starting, TimedConn.callback, Closes, hab]
    rw [hnext]
    simp only [TimedConn.next, hab, Bool.false_eq_true, if_false] at hc ⊢
    split at hc
    next hopen =>
      rw [if_pos hopen]
      exact h.newCall .write hc (TimedConn.start_started ..)
    next hopen =>
      rw [if_neg hopen]
      obtain ⟨hp, ha, hg⟩ := s.conn.start_started .connect .write false
      exact h.newCall .connect hc ⟨hp, ha, hg⟩

theorem Invariant.of_quiet (hm : called e = []) (hcl : ¬ Closes e) (hs : s.starting e = none)
    (hcb : s.conn.callback e = none) (h : Invariant { s with conn := s.conn.next e }) :
    (s.next (.conn e)).Invariant := by
  rw [next_other hm hcl, hs, hcb, List.append_nil]
  exact h

theorem Invariant.of_restart (h : s.Invariant) (hm : called e = []) (hcl : ¬ Closes e)
    (hs : s.starting e = some (s.owner i)) (hcb : s.conn.callback e = none)
    (hc : (s.conn.next e).Invariant) (hi : (i, kind) ∈ s.conn.pending)
    (hst : s.conn.Started (s.conn.complete i).pending .write (s.conn.next e))
    (hk : kind.callKind = .writeQuery) : (s.next (.conn e)).Invariant := by
  rw [next_other hm hcl, hs, hcb, List.append_nil]
  exact h.restart hc hi hst hk

theorem Invariant.of_callback (h : s.Invariant) (cb : Callback) (hm : called e = [])
    (hcl : ¬ Closes e) (hs : s.starting e = none) (hcb : s.conn.callback e = some (i, cb))
    (hc : (s.conn.next e).Invariant) (hp : (s.conn.next e).pending = (s.conn.complete i).pending)
    (ha : s.conn.aborted = false) (hg : s.conn.aborting = false) (hi : (i, kind) ∈ s.conn.pending)
    (hk : cb.kind = kind.callKind) : (s.next (.conn e)).Invariant := by
  rw [next_other hm hcl, hs, hcb]
  refine h.invoke hc ?_ ha hg hi hk fun _ o ho => ?_
  · rw [hp]
    exact List.filter_sublist
  · rw [hp] at ho
    exact ne_of_mem_complete ho

theorem Invariant.connectDone (h : s.Invariant) {ok : Bool}
    (he : s.conn.Enabled (.connectDone i ok)) (hc : (s.conn.next (.connectDone i ok)).Invariant) :
    (s.next (.conn (.connectDone i ok))).Invariant := by
  obtain ⟨hi, hg⟩ := he
  cases hab : s.conn.aborted with
  | true =>
    have hnext : s.conn.next (.connectDone i ok) = s.conn.complete i := by
      simp [TimedConn.next, hab]
    refine .of_quiet rfl (by simp [Closes]) ?_ (by simp [TimedConn.callback, hab]) ?_
    · cases ok <;> simp [starting, hab]
    · rw [hnext] at hc ⊢
      exact h.complete hc
  | false =>
    cases ok with
    | true =>
      refine h.of_restart rfl (by simp [Closes]) (by simp [starting, hab])
        (by simp [TimedConn.callback]) hc hi
        ?_ rfl
      simpa [TimedConn.next, hab] using TimedConn.restart_started
    | false =>
      refine h.of_callback (.querySent .connect) rfl (by simp [Closes]) rfl
        (by simp [TimedConn.callback, hab]) hc ?_ hab hg hi rfl
      simp [TimedConn.next, hab]

theorem Invariant.writeDone (h : s.Invariant) {result : TimedConn.WriteResult}
    (he : s.conn.Enabled (.writeDone i result))
    (hc : (s.conn.next (.writeDone i result)).Invariant) :
    (s.next (.conn (.writeDone i result))).Invariant := by
  obtain ⟨hi, hg⟩ := he
  cases hab : s.conn.aborted with
  | true =>
    have hnext : s.conn.next (.writeDone i result) = s.conn.complete i := by
      simp [TimedConn.next, hab]
    refine .of_quiet rfl (by simp [Closes]) ?_ (by simp [TimedConn.callback, hab]) ?_
    · cases result <;> simp [starting, hab]
    · rw [hnext] at hc ⊢
      exact h.complete hc
  | false =>
    cases result with
    | failed =>
      refine h.of_callback (.querySent .writeQuery) rfl (by simp [Closes]) rfl
        (by simp [TimedConn.callback, TimedConn.WriteResult.callback, hab]) hc ?_ hab hg hi rfl
      simp [TimedConn.next, hab]
    | short =>
      refine h.of_restart rfl (by simp [Closes]) (by simp [starting, hab])
        (by simp [TimedConn.callback, TimedConn.WriteResult.callback]) hc hi ?_ rfl
      simpa [TimedConn.next, hab] using TimedConn.restart_started
    | full =>
      refine h.of_callback (.querySent .success) rfl (by simp [Closes]) rfl
        (by simp [TimedConn.callback, TimedConn.WriteResult.callback, hab]) hc ?_ hab hg hi rfl
      simp [TimedConn.next, hab]

theorem Invariant.readDone (h : s.Invariant) {ok : Bool} (he : s.conn.Enabled (.readDone i ok))
    (hc : (s.conn.next (.readDone i ok)).Invariant) :
    (s.next (.conn (.readDone i ok))).Invariant := by
  obtain ⟨hi, hg⟩ := he
  cases hab : s.conn.aborted with
  | true =>
    have hnext : s.conn.next (.readDone i ok) = s.conn.complete i := by simp [TimedConn.next, hab]
    refine .of_quiet rfl (by simp [Closes]) rfl (by simp [TimedConn.callback, hab]) ?_
    rw [hnext] at hc ⊢
    exact h.complete hc
  | false =>
    refine h.of_callback (.replyReceived (if ok then .success else .readReply))
      rfl (by simp [Closes]) rfl
      (by simp [TimedConn.callback, hab]) hc ?_ hab hg hi rfl
    cases ok <;> simp [TimedConn.next, hab]

theorem Invariant.timeout (h : s.Invariant) {w : Wait} (he : s.conn.Enabled (.timeout w))
    (hc : (s.conn.next (.timeout w)).Invariant) : (s.next (.conn (.timeout w))).Invariant := by
  obtain ⟨hw, -, hg⟩ := he
  by_cases hf : s.conn.Fires w
  · have ⟨hab, hexpired, hflag⟩ := hf
    have hpend : s.conn.Pending w.op := by
      rcases (h.conn.current hab w hw).2 hexpired with hpend | hset
      · exact hpend
      · rw [hflag] at hset
        cases hset
    obtain ⟨⟨op, kind⟩, hi, hop⟩ := List.mem_map.mp hpend
    obtain rfl : op = w.op := hop
    have hkind : w.kind = kind := h.conn.labelled.kinds w hw _ hi rfl
    have hcallback : s.conn.callback (.timeout w) = some (w.op, w.kind.timeoutCallback) :=
      if_pos hf
    rw [next_other (e := .timeout w) rfl nofun, hcallback]
    refine h.invoke hc (List.Sublist.refl _) hab hg hi ?_ fun hag => ?_
    · rw [hkind]
      cases kind <;> rfl
    · rw [TimedConn.next, decide_eq_true hf] at hag
      cases hag
  · refine .of_quiet rfl nofun rfl (if_neg hf) ?_
    exact h.of_conn hc (List.Sublist.refl _) id fun _ _ => hg

theorem Invariant.deliver (h : s.Invariant) (hcall : call ∈ s.posted) :
    (s.next (.posted call)).Invariant := by
  obtain ⟨hkind, hnot, hle⟩ := h.posted call hcall
  have hab : s.conn.aborted = true := by
    by_contra hab
    rw [(h.inUse (Bool.not_eq_true _ ▸ hab)).1] at hcall
    cases hcall
  have honce := h.once.append (v := ⟨call, .querySent .writeQuery, s.closed⟩) hnot hkind hle
  refine ⟨h.conn, h.owned, h.distinct, fun hno => absurd (hab.symm.trans hno) nofun,
    fun call' hcall' => ?_, h.postedOnce.erase call, fun hno => absurd (hab.symm.trans hno) nofun,
    h.closed_le, honce.once, honce.kind, honce.open_⟩
  obtain ⟨hne, hcall'⟩ := h.postedOnce.mem_erase_iff.mp hcall'
  obtain ⟨hkind', hnot', hle'⟩ := h.posted call' hcall'
  refine ⟨hkind', fun hmem => ?_, hle'⟩
  simp only [next, answeredCalls, List.map_append, List.mem_append, List.map_singleton,
    List.mem_singleton] at hmem
  rcases hmem with hmem | hmem
  · exact hnot' hmem
  · exact hne hmem

theorem step_invariant {e : Event} (h : s.Invariant) (he : s.Enabled e) (ho : Careful s e) :
    (s.next e).Invariant := by
  cases e with
  | conn e =>
    obtain ⟨he, -, -⟩ := he
    obtain ⟨ho, hposted⟩ := ho
    have hc := TimedConn.step_invariant h.conn he ho
    cases e with
    | writeQuery => exact h.writeQuery hc
    | readReply =>
      have hnext : s.next (.conn .readReply) =
          { s with
            conn := s.conn.next .readReply
            calls := s.calls ++ [.readReply]
            owner := Function.update s.owner s.conn.started s.calls.length } := by
        simp [next, called, starting, TimedConn.callback, Closes]
      rw [hnext]
      exact h.newCall .read hc ⟨rfl, rfl, rfl⟩
    | reset => exact .of_quiet rfl nofun rfl rfl (h.of_conn hc (List.Sublist.refl _) id fun _ => id)
    | close =>
      have hnext : s.next (.conn .close) =
          { s with conn := s.conn.next .close, closed := s.calls.length } := by
        simp [next, called, starting, TimedConn.callback, Closes]
      obtain ⟨hp, ha⟩ := TimedConn.close_fields s.conn
      rw [hnext]
      exact h.close hc hp ha (hposted (.inl rfl))
    | connectDone i ok => exact h.connectDone he hc
    | writeDone i result => exact h.writeDone he hc
    | readDone i ok => exact h.readDone he hc
    | expire w =>
      exact .of_quiet rfl nofun rfl rfl (h.of_conn hc (List.Sublist.refl _) id fun _ => id)
    | timeout w => exact h.timeout he hc
    | abort =>
      have hnext : s.next (.conn .abort) =
          { s with conn := s.conn.next .abort, closed := s.calls.length } := by
        simp [next, called, starting, TimedConn.callback, Closes]
      obtain ⟨hp, ha⟩ := TimedConn.abort_fields s.conn
      rw [hnext]
      exact h.close hc hp ha (hposted (.inr rfl))
  | abort =>
    obtain ⟨hp, ha⟩ := TimedConn.abort_fields s.conn
    have hc := TimedConn.abort_invariant h.conn
    refine h.close ⟨⟨hc.labelled.waits, hc.labelled.pending, hc.labelled.kinds⟩, fun hab => ?_⟩ hp
      ha ho
    exact absurd (ha.symm.trans hab) nofun
  | posted call => exact h.deliver he.1

end Steps

/-- In a run that clears no flag over a queued handler of a completed operation and closes nothing
over a posted failure, every call is answered at most once, and none after a later `Close` or
`Abort`. -/
theorem callbacks_once {socketOpen : Bool} {s : CalledConn}
    (h : Transition.Execution system Careful (new socketOpen) s) : s.Once := by
  have hnew : (new socketOpen).Invariant :=
    ⟨⟨⟨nofun, nofun, nofun⟩, fun _ => nofun⟩, nofun, List.nodup_nil, fun _ _ => nofun, nofun,
      List.nodup_nil, fun _ => ⟨rfl, rfl⟩, le_rfl, List.nodup_nil, nofun, nofun⟩
  have hinv : s.Invariant := h.invariant hnew fun _ _ hi he ho => step_invariant hi he ho
  exact hinv.once

/-- A query that needs a connect, its reply, and a `Close` in the middle of the next one. -/
def twoQueries : List Event :=
  [.conn .writeQuery, .conn (.connectDone 0 true), .conn (.writeDone 1 .full), .conn .readReply,
    .conn (.readDone 2 true), .conn .writeQuery, .conn .close, .conn (.writeDone 3 .full)]

theorem twoQueries_once :
    let s := Transition.runTrace system (new false) twoQueries
    s.invoked = [⟨0, .querySent .success, 0⟩, ⟨1, .replyReceived .success, 0⟩] ∧ s.Once :=
  ⟨by decide +kernel, callbacks_once (Transition.ValidTrace.execution .refl (by decide +kernel))⟩

/-- The timer of the first query expires just before its write completes. Its handler runs during
the second query: the first one is answered again, with a timeout. In the second run the connection
is closed twice, with a query between; the failure posted for it comes after the second `Close`. -/
theorem firstQuery_answeredTwice :
    (∃ es, Transition.ValidTrace system Transition.Unrestricted (new true) es ∧
      (Transition.runTrace system (new true) es).invoked =
        [⟨0, .querySent .success, 0⟩, ⟨0, .querySent .backendWriteTimeout, 0⟩] ∧
      ¬ (Transition.runTrace system (new true) es).Once) ∧
    ∃ es, Transition.ValidTrace system Transition.Unrestricted (new true) es ∧
      (Transition.runTrace system (new true) es).invoked = [⟨0, .querySent .writeQuery, 1⟩] ∧
      ¬ (Transition.runTrace system (new true) es).Once := by
  refine ⟨⟨[.conn .writeQuery, .conn (.expire ⟨0, .write, .armed⟩), .conn (.writeDone 0 .full),
      .conn .writeQuery, .conn (.timeout ⟨0, .write, .expired⟩)], by decide +kernel,
      by decide +kernel, fun h => ?_⟩,
    [.conn .close, .conn .writeQuery, .conn .close, .posted 0], by decide +kernel, by
      decide +kernel,
      fun h => ?_⟩
  · exact absurd h.once (by decide +kernel)
  · exact absurd h.open_ (by decide +kernel)

end CalledConn
end Yarmproxy
