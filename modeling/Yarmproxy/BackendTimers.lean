import Yarmproxy.BackendConn
import Yarmproxy.Transition

/-! # The timers of a backend connection

The handlers of one connection: every connect, write and read has a completion handler and a
timer handler. A wait whose time has come is queued; from then on nothing cancels it, and its
handler runs at some later time without an error. -/
namespace Yarmproxy

inductive Timer where
  | write | read
  deriving DecidableEq, Repr

inductive Operation where
  | connect | write | read
  deriving DecidableEq, Repr

/-- Connecting and writing share a timer. -/
def Operation.timer : Operation → Timer
  | .connect | .write => .write
  | .read => .read

inductive WaitStatus where
  | armed | expired | cancelled
  deriving DecidableEq, Repr

/-- A handler of `async_wait` that has not run yet, with the operation it was armed for. -/
structure Wait where
  op : ℕ
  kind : Operation
  status : WaitStatus
  deriving DecidableEq, Repr

def Wait.cancel (t : Timer) (w : Wait) : Wait :=
  if w.kind.timer = t ∧ w.status = .armed then { w with status := .cancelled } else w

structure TimedConn where
  aborted : Bool
  socketOpen : Bool
  writeTimerCanceled : Bool
  readTimerCanceled : Bool
  waits : List Wait
  /-- the operations whose completion handlers have not run yet -/
  pending : List (ℕ × Operation)
  started : ℕ
  /-- `OnTimeout` is in its callback and will call `Abort` -/
  aborting : Bool
  deriving DecidableEq, Repr

namespace TimedConn

def new (socketOpen : Bool) : TimedConn := ⟨false, socketOpen, false, false, [], [], 0, false⟩

def canceled (s : TimedConn) : Timer → Bool
  | .write => s.writeTimerCanceled
  | .read => s.readTimerCanceled

def setCanceled (s : TimedConn) (t : Timer) (v : Bool) : TimedConn :=
  match t with
  | .write => { s with writeTimerCanceled := v }
  | .read => { s with readTimerCanceled := v }

/-- `timer.cancel()`, and what `expires_after` does to earlier waits. -/
def cancel (s : TimedConn) (t : Timer) : TimedConn := { s with waits := s.waits.map (·.cancel t) }

/-- `UpdateTimer` and the operation that it is for. -/
def start (s : TimedConn) (kind : Operation) : TimedConn :=
  { s.cancel kind.timer with
    waits := (s.cancel kind.timer).waits ++ [⟨s.started, kind, .armed⟩]
    pending := s.pending ++ [(s.started, kind)]
    started := s.started + 1 }

def complete (s : TimedConn) (i : ℕ) : TimedConn :=
  { s with pending := s.pending.filter fun o => o.1 ≠ i }

/-- How the completion handlers begin. -/
def finish (s : TimedConn) (i : ℕ) (kind : Operation) : TimedConn :=
  ((s.complete i).cancel kind.timer).setCanceled kind.timer true

inductive WriteResult where
  | failed | short | full
  deriving DecidableEq, Repr

inductive Event where
  | writeQuery
  | readReply
  | reset
  | close
  | connectDone (i : ℕ) (ok : Bool)
  | writeDone (i : ℕ) (result : WriteResult)
  | readDone (i : ℕ) (ok : Bool)
  | expire (w : Wait)
  | timeout (w : Wait)
  | abort
  deriving DecidableEq, Repr

def Pending (s : TimedConn) (i : ℕ) : Prop := i ∈ s.pending.map Prod.fst

instance (s : TimedConn) (i : ℕ) : Decidable (s.Pending i) := inferInstanceAs (Decidable (_ ∈ _))

/-- `OnTimeout` gets as far as its callback and `Abort`. -/
def Fires (s : TimedConn) (w : Wait) : Prop :=
  s.aborted = false ∧ w.status = .expired ∧ s.canceled w.kind.timer = false

instance (s : TimedConn) (w : Wait) : Decidable (s.Fires w) := inferInstanceAs (Decidable (_ ∧ _))

/-- Handlers run one at a time; the calls come from callbacks, also from that of `OnTimeout`. -/
def Enabled (s : TimedConn) : Event → Prop
  | .writeQuery | .readReply | .reset | .close => True
  | .connectDone i _ => (i, .connect) ∈ s.pending ∧ s.aborting = false
  | .writeDone i _ => (i, .write) ∈ s.pending ∧ s.aborting = false
  | .readDone i _ => (i, .read) ∈ s.pending ∧ s.aborting = false
  | .expire w => w ∈ s.waits ∧ w.status = .armed
  | .timeout w => w ∈ s.waits ∧ w.status ≠ .armed ∧ s.aborting = false
  | .abort => s.aborting = true

instance (s : TimedConn) (e : Event) : Decidable (s.Enabled e) := by
  cases e <;> simp only [Enabled] <;> infer_instance

def next (s : TimedConn) : Event → TimedConn
  | .writeQuery =>
    if s.aborted then s
    else if s.socketOpen then (s.start .write).setCanceled .write false
    else { (s.start .connect).setCanceled .write false with socketOpen := true }
  | .readReply => (s.setCanceled .read false).start .read
  | .reset => (s.setCanceled .write false).setCanceled .read false
  | .close => if s.aborted then s else { s with socketOpen := false, aborted := true }
  | .connectDone i ok =>
    if s.aborted then s.complete i
    else if ok then ((s.finish i .connect).start .write).setCanceled .write false
    else { s.finish i .connect with socketOpen := false }
  | .writeDone i result =>
    if s.aborted then s.complete i
    else
      match result with
      | .failed => { s.finish i .write with socketOpen := false }
      | .short => ((s.finish i .write).start .write).setCanceled .write false
      | .full => s.finish i .write
  | .readDone i ok =>
    if s.aborted then s.complete i
    else if ok then s.finish i .read
    else { s.finish i .read with socketOpen := false }
  | .expire w =>
    { s with waits := s.waits.map fun v => if v = w then { v with status := .expired } else v }
  | .timeout w => { s with waits := s.waits.erase w, aborting := decide (s.Fires w) }
  | .abort =>
    if s.aborted then { s with aborting := false }
    else { (((s.cancel .write).cancel .read).setCanceled .write true).setCanceled .read true with
      aborted := true
      socketOpen := false
      aborting := false }

def system : Transition.System TimedConn Event := ⟨Enabled, next⟩

instance (s : TimedConn) (e : Event) : Decidable (system.Enabled s e) :=
  inferInstanceAs (Decidable (s.Enabled e))

/-- A handler of an operation that has completed is still queued. -/
def Stale (s : TimedConn) (t : Timer) : Prop :=
  ∃ w ∈ s.waits, w.kind.timer = t ∧ w.status = .expired ∧ ¬ s.Pending w.op

instance (s : TimedConn) (t : Timer) : Decidable (s.Stale t) :=
  inferInstanceAs (Decidable (∃ w ∈ s.waits, _))

/-- What the step leaves queued when it clears a flag belongs to operations under way. -/
def Clears (s : TimedConn) : Event → Prop
  | .writeQuery => ¬ s.Stale .write
  | .readReply => ¬ s.Stale .read
  | .reset => ¬ s.Stale .write ∧ ¬ s.Stale .read
  | .connectDone i true | .writeDone i .short => ¬ (s.complete i).Stale .write
  | _ => True

instance (s : TimedConn) (e : Event) : Decidable (Clears s e) := by
  unfold Clears
  split <;> infer_instance

/-- No handler of a completed operation is queued when its flag is cleared. -/
def Orderly (s : TimedConn) (e : Event) : Prop := s.aborted = false → s.Clears e

instance (s : TimedConn) (e : Event) : Decidable (Orderly s e) :=
  inferInstanceAs (Decidable (_ → _))

structure Agrees {ε : Type} (s : TimedConn) (c : BackendConn ε) : Prop where
  aborted : s.aborted = c.aborted
  socketOpen : s.socketOpen = c.socketOpen
  writeTimerCanceled : s.writeTimerCanceled = c.writeTimerCanceled
  readTimerCanceled : s.readTimerCanceled = c.readTimerCanceled

section Agreement
variable {ε : Type} {s : TimedConn} {c : BackendConn ε}

theorem Agrees.calls (h : s.Agrees c) (at_ : Option ℕ) (data : Bytes) :
    (s.next .writeQuery).Agrees (c.writeQuery at_ data) ∧ (s.next .readReply).Agrees c.readReply ∧
      (s.next .reset).Agrees c.reset ∧ (s.next .close).Agrees c.close ∧
        (s.next .abort).Agrees c.abort := by
  obtain ⟨hab, hso, hw, hr⟩ := h
  refine ⟨?_, ⟨hab, hso, hw, rfl⟩, ⟨hab, hso, rfl, rfl⟩, ?_, ?_⟩
  · rw [next, BackendConn.writeQuery, hab, hso]
    split
    · exact ⟨hab, hso, hw, hr⟩
    · split
      · exact ⟨hab, hso, rfl, hr⟩
      · exact ⟨hab, rfl, rfl, hr⟩
  · rw [next, BackendConn.close, hab]
    split
    · exact ⟨hab, hso, hw, hr⟩
    · exact ⟨rfl, rfl, hw, hr⟩
  · rw [next, BackendConn.abort, hab]
    split
    · exact ⟨rfl, hso, hw, hr⟩
    · exact ⟨rfl, rfl, rfl, rfl⟩

theorem Agrees.completions (h : s.Agrees c) (hab : s.aborted = false) (i : ℕ) (chunk : Bytes) :
    (s.next (.connectDone i false)).Agrees (c.handle .connectFailed).1 ∧
    (s.next (.writeDone i .failed)).Agrees (c.handle .queryWriteFailed).1 ∧
    (s.next (.readDone i true)).Agrees (c.handle (.replyRead chunk)).1 ∧
    (s.next (.readDone i false)).Agrees (c.handle .replyReadFailed).1 := by
  obtain ⟨ha, hso, hw, hr⟩ := h
  simp only [next, hab]
  exact ⟨⟨ha, rfl, rfl, hr⟩, ⟨ha, rfl, rfl, hr⟩, ⟨ha, hso, hw, rfl⟩, ⟨ha, rfl, hw, rfl⟩⟩

theorem Agrees.connected (h : s.Agrees c) (hab : s.aborted = false) (i : ℕ) {at_ : Option ℕ}
    {data : Bytes} (hq : c.query = some (.connecting at_ data)) :
    (s.next (.connectDone i true)).Agrees (c.handle .connected).1 := by
  obtain ⟨ha, hso, hw, hr⟩ := h
  simp only [next, hab, BackendConn.handle, hq]
  exact ⟨ha, hso, rfl, hr⟩

theorem Agrees.written (h : s.Agrees c) (hab : s.aborted = false) (i : ℕ) {at_ : Option ℕ}
    {data : Bytes} (hq : c.query = some (.writing at_ data)) :
    (s.next (.writeDone i .full)).Agrees (c.handle .queryWritten).1 := by
  obtain ⟨ha, hso, hw, hr⟩ := h
  simp only [next, hab, BackendConn.handle, hq]
  exact ⟨ha, hso, rfl, hr⟩

def Operation.timeout : Operation → BackendEvent
  | .connect => .connectTimeout
  | .write => .writeTimeout
  | .read => .readTimeout

theorem Agrees.timeouts (h : s.Agrees c) {w : Wait} (hf : s.Fires w) :
    c.Enabled (Operation.timeout w.kind) := by
  obtain ⟨hab, _, hflag⟩ := hf
  obtain ⟨op, kind, status⟩ := w
  cases kind with
  | connect => exact ⟨h.aborted ▸ hab, h.writeTimerCanceled ▸ hflag⟩
  | write => exact ⟨h.aborted ▸ hab, h.writeTimerCanceled ▸ hflag⟩
  | read => exact ⟨h.aborted ▸ hab, h.readTimerCanceled ▸ hflag⟩

end Agreement

/-- The operations are numbered, and a wait knows the kind of its operation. -/
structure Labelled (s : TimedConn) : Prop where
  waits : ∀ w ∈ s.waits, w.op < s.started
  pending : ∀ o ∈ s.pending, o.1 < s.started
  kinds : ∀ w ∈ s.waits, ∀ o ∈ s.pending, w.op = o.1 → w.kind = o.2

/-- An armed wait belongs to an operation under way, a queued one too unless its flag is set. -/
def Current (s : TimedConn) : Prop :=
  ∀ w ∈ s.waits, (w.status = .armed → s.Pending w.op) ∧
    (w.status = .expired → s.Pending w.op ∨ s.canceled w.kind.timer = true)

structure Invariant (s : TimedConn) : Prop where
  labelled : s.Labelled
  current : s.aborted = false → s.Current

section Steps
variable {s : TimedConn} {t : Timer} {kind : Operation} {i : ℕ} {w : Wait}

@[simp] theorem Wait.op_cancel : (w.cancel t).op = w.op := by
  rw [Wait.cancel]
  split <;> rfl

@[simp] theorem Wait.kind_cancel : (w.cancel t).kind = w.kind := by
  rw [Wait.cancel]
  split <;> rfl

theorem Wait.status_cancel : ((w.cancel t).status = .armed → w.status = .armed ∧ w.kind.timer ≠ t) ∧
    ((w.cancel t).status = .expired ↔ w.status = .expired) := by
  rw [Wait.cancel]
  split
  next h => simp [h.2]
  next h =>
    refine ⟨fun ha => ⟨ha, fun ht => h ⟨ht, ha⟩⟩, Iff.rfl⟩

@[simp] theorem canceled_setCanceled (t' : Timer) (v : Bool) :
    (s.setCanceled t v).canceled t' = if t' = t then v else s.canceled t' := by
  cases t <;> cases t' <;> rfl

@[simp] theorem waits_setCanceled (v : Bool) : (s.setCanceled t v).waits = s.waits := by
  cases t <;> rfl

@[simp] theorem pending_setCanceled (v : Bool) : (s.setCanceled t v).pending = s.pending := by
  cases t <;> rfl

@[simp] theorem started_setCanceled (v : Bool) : (s.setCanceled t v).started = s.started := by
  cases t <;> rfl

@[simp] theorem aborted_setCanceled (v : Bool) : (s.setCanceled t v).aborted = s.aborted := by
  cases t <;> rfl

theorem mem_cancel : w ∈ (s.cancel t).waits ↔ ∃ v ∈ s.waits, v.cancel t = w := List.mem_map

theorem pending_complete {j : ℕ} : (s.complete i).Pending j ↔ s.Pending j ∧ j ≠ i := by
  simp only [Pending, complete, List.mem_map, List.mem_filter, decide_eq_true_eq]
  constructor
  · rintro ⟨o, ⟨ho, hne⟩, rfl⟩
    exact ⟨⟨o, ho, rfl⟩, hne⟩
  · rintro ⟨⟨o, ho, rfl⟩, hne⟩
    exact ⟨o, ⟨ho, hne⟩, rfl⟩

theorem stale_cancel {t' : Timer} : (s.cancel t).Stale t' ↔ s.Stale t' := by
  constructor
  · rintro ⟨w, hw, ht, he, hp⟩
    obtain ⟨v, hv, rfl⟩ := mem_cancel.mp hw
    rw [Wait.kind_cancel] at ht
    rw [Wait.op_cancel] at hp
    exact ⟨v, hv, ht, Wait.status_cancel.2.mp he, hp⟩
  · rintro ⟨v, hv, ht, he, hp⟩
    refine ⟨v.cancel t, mem_cancel.mpr ⟨v, hv, rfl⟩, ?_, Wait.status_cancel.2.mpr he, ?_⟩
    · rw [Wait.kind_cancel]
      exact ht
    · rw [Wait.op_cancel]
      exact hp

theorem stale_setCanceled {t' : Timer} {v : Bool} : (s.setCanceled t v).Stale t' ↔ s.Stale t' := by
  cases t <;> exact Iff.rfl

theorem pending_start {j : ℕ} (h : s.Pending j) : (s.start kind).Pending j := by
  rw [Pending, start, List.map_append]
  exact List.mem_append_left _ h

theorem new_pending : (s.start kind).Pending s.started := by
  rw [Pending, start, List.map_append]
  exact List.mem_append_right _ List.mem_cons_self

theorem cancel_labelled (h : s.Labelled) : (s.cancel t).Labelled := by
  refine ⟨fun w hw => ?_, h.pending, fun w hw o ho hop => ?_⟩
  · obtain ⟨v, hv, rfl⟩ := mem_cancel.mp hw
    rw [Wait.op_cancel]
    exact h.waits v hv
  · obtain ⟨v, hv, rfl⟩ := mem_cancel.mp hw
    rw [Wait.op_cancel] at hop
    rw [Wait.kind_cancel]
    exact h.kinds v hv o ho hop

theorem complete_labelled (h : s.Labelled) : (s.complete i).Labelled :=
  ⟨h.waits, fun o ho => h.pending o (List.mem_of_mem_filter ho),
    fun w hw o ho => h.kinds w hw o (List.mem_of_mem_filter ho)⟩

theorem setCanceled_labelled (h : s.Labelled) (t : Timer) (v : Bool) :
    (s.setCanceled t v).Labelled := by
  cases t
  · exact ⟨h.waits, h.pending, h.kinds⟩
  · exact ⟨h.waits, h.pending, h.kinds⟩

theorem finish_labelled (h : s.Labelled) : (s.finish i kind).Labelled :=
  setCanceled_labelled (cancel_labelled (complete_labelled h)) _ _

theorem start_labelled (h : s.Labelled) : (s.start kind).Labelled := by
  have hc := cancel_labelled h (t := kind.timer)
  refine ⟨fun w hw => ?_, fun o ho => ?_, fun w hw o ho hop => ?_⟩
  · rcases List.mem_append.mp hw with hw | hw
    · exact Nat.lt_succ_of_lt (hc.waits w hw)
    · obtain rfl := List.mem_singleton.mp hw
      exact Nat.lt_succ_self _
  · rcases List.mem_append.mp ho with ho | ho
    · exact Nat.lt_succ_of_lt (hc.pending o ho)
    · obtain rfl := List.mem_singleton.mp ho
      exact Nat.lt_succ_self _
  · rcases List.mem_append.mp hw with hw | hw <;> rcases List.mem_append.mp ho with ho | ho
    · exact hc.kinds w hw o ho hop
    · obtain rfl := List.mem_singleton.mp ho
      exact absurd hop (Nat.ne_of_lt (hc.waits w hw))
    · obtain rfl := List.mem_singleton.mp hw
      exact absurd hop.symm (Nat.ne_of_lt (hc.pending o ho))
    · obtain rfl := List.mem_singleton.mp hw
      obtain rfl := List.mem_singleton.mp ho
      rfl

theorem start_current (h : s.Current) (hs : ¬ s.Stale kind.timer) :
    ((s.start kind).setCanceled kind.timer false).Current := by
  intro w hw
  rw [waits_setCanceled] at hw
  have hp : ∀ j, ((s.start kind).setCanceled kind.timer false).Pending j ↔
      (s.start kind).Pending j := by
    intro j
    rw [Pending, pending_setCanceled]
    rfl
  rw [hp]
  rcases List.mem_append.mp hw with hw | hw
  · obtain ⟨v, hv, rfl⟩ := mem_cancel.mp hw
    obtain ⟨harmed, hexpired⟩ := h v hv
    rw [Wait.op_cancel, Wait.kind_cancel]
    refine ⟨fun ha => pending_start (harmed (Wait.status_cancel.1 ha).1), fun he => ?_⟩
    have he := Wait.status_cancel.2.mp he
    by_cases ht : v.kind.timer = kind.timer
    · refine .inl (pending_start ?_)
      by_contra hnp
      exact hs ⟨v, hv, ht, he, hnp⟩
    · rw [canceled_setCanceled, if_neg ht]
      exact (hexpired he).imp_left pending_start
  · obtain rfl := List.mem_singleton.mp hw
    exact ⟨fun _ => new_pending, nofun⟩

theorem finish_current (hl : s.Labelled) (h : s.Current) (hi : (i, kind) ∈ s.pending) :
    (s.finish i kind).Current := by
  intro w hw
  rw [finish, waits_setCanceled] at hw
  obtain ⟨v, hv, rfl⟩ := mem_cancel.mp hw
  obtain ⟨harmed, hexpired⟩ := h v hv
  have hp : ∀ j, (s.finish i kind).Pending j ↔ s.Pending j ∧ j ≠ i := by
    intro j
    rw [Pending, finish, pending_setCanceled]
    exact pending_complete
  have hother : v.kind.timer ≠ kind.timer → v.op ≠ i := by
    intro ht hop
    exact ht (congrArg Operation.timer (hl.kinds v hv _ hi hop))
  rw [Wait.op_cancel, Wait.kind_cancel, hp, finish, canceled_setCanceled]
  refine ⟨fun ha => ?_, fun he => ?_⟩
  · obtain ⟨ha, ht⟩ := Wait.status_cancel.1 ha
    exact ⟨harmed ha, hother ht⟩
  · by_cases ht : v.kind.timer = kind.timer
    · exact .inr (if_pos ht)
    · rw [if_neg ht]
      rcases hexpired (Wait.status_cancel.2.mp he) with hpend | hcan
      · exact .inl ⟨hpend, hother ht⟩
      · exact .inr hcan

theorem setCanceled_current (h : s.Current) (hs : ¬ s.Stale t) :
    (s.setCanceled t false).Current := by
  intro w hw
  rw [waits_setCanceled] at hw
  obtain ⟨harmed, hexpired⟩ := h w hw
  rw [Pending, pending_setCanceled]
  refine ⟨harmed, fun he => ?_⟩
  by_cases ht : w.kind.timer = t
  · left
    by_contra hnp
    exact hs ⟨w, hw, ht, he, hnp⟩
  · rw [canceled_setCanceled, if_neg ht]
    exact hexpired he

theorem Invariant.socket (h : s.Invariant) (v : Bool) : Invariant { s with socketOpen := v } :=
  ⟨⟨h.labelled.waits, h.labelled.pending, h.labelled.kinds⟩, h.current⟩

theorem start_invariant (h : s.Invariant) (kind : Operation)
    (hs : s.aborted = false → ¬ s.Stale kind.timer) :
    ((s.start kind).setCanceled kind.timer false).Invariant := by
  refine ⟨setCanceled_labelled (start_labelled h.labelled) _ _, fun hab => ?_⟩
  rw [aborted_setCanceled] at hab
  exact start_current (h.current hab) (hs hab)

theorem finish_invariant (h : s.Invariant) (hi : (i, kind) ∈ s.pending) :
    (s.finish i kind).Invariant := by
  refine ⟨finish_labelled h.labelled, fun hab => ?_⟩
  rw [finish, aborted_setCanceled] at hab
  exact finish_current h.labelled (h.current hab) hi

theorem restart_invariant (h : s.Invariant) (hi : (i, kind) ∈ s.pending)
    (hs : ¬ (s.complete i).Stale .write) :
    (((s.finish i kind).start .write).setCanceled .write false).Invariant := by
  refine start_invariant (finish_invariant h hi) .write fun _ => ?_
  rw [finish, stale_setCanceled, stale_cancel]
  exact hs

theorem complete_invariant (h : s.Invariant) (hab : s.aborted = true) :
    (s.complete i).Invariant := by
  refine ⟨complete_labelled h.labelled, fun hno => ?_⟩
  have : s.aborted = false := hno
  rw [hab] at this
  cases this

theorem expire_invariant (h : s.Invariant) (he : s.Enabled (.expire w)) :
    (s.next (.expire w)).Invariant := by
  obtain ⟨hmem, harmed⟩ := he
  have hold : ∀ v ∈ (s.next (.expire w)).waits, ∃ u ∈ s.waits, v.op = u.op ∧ v.kind = u.kind ∧
      (v.status = u.status ∨ u.status = .armed ∧ v.status = .expired) := by
    intro v hv
    obtain ⟨u, hu, rfl⟩ := List.mem_map.mp hv
    refine ⟨u, hu, ?_⟩
    split
    next heq => exact ⟨rfl, rfl, .inr ⟨heq ▸ harmed, rfl⟩⟩
    next => exact ⟨rfl, rfl, .inl rfl⟩
  refine ⟨⟨fun v hv => ?_, h.labelled.pending, fun v hv o ho hop => ?_⟩, fun hab v hv => ?_⟩
  · obtain ⟨u, hu, hop, _⟩ := hold v hv
    exact hop ▸ h.labelled.waits u hu
  · obtain ⟨u, hu, hop', hkind, _⟩ := hold v hv
    exact hkind ▸ h.labelled.kinds u hu o ho (hop' ▸ hop)
  · obtain ⟨u, hu, hop, hkind, hstatus⟩ := hold v hv
    obtain ⟨ha, hx⟩ := h.current hab u hu
    rw [hop, hkind]
    rcases hstatus with hsame | ⟨hua, hve⟩
    · rw [hsame]
      exact ⟨ha, hx⟩
    · exact ⟨fun _ => ha hua, fun _ => .inl (ha hua)⟩

theorem abort_invariant (h : s.Invariant) : (s.next .abort).Invariant := by
  have hl := h.labelled
  rw [next]
  split
  · exact ⟨⟨hl.waits, hl.pending, hl.kinds⟩, h.current⟩
  · have hc := cancel_labelled (cancel_labelled hl (t := .write)) (t := .read)
    exact ⟨⟨hc.waits, hc.pending, hc.kinds⟩, nofun⟩

theorem step_invariant {e : Event} (h : s.Invariant) (he : s.Enabled e) (ho : Orderly s e) :
    (s.next e).Invariant := by
  have hl := h.labelled
  cases e with
  | writeQuery =>
    rw [next]
    split
    · exact h
    · split
      · exact start_invariant h .write ho
      · exact (start_invariant h .connect ho).socket true
  | readReply =>
    rw [next]
    exact start_invariant h .read ho
  | reset =>
    rw [next]
    refine ⟨setCanceled_labelled (setCanceled_labelled hl _ _) _ _, fun hab => ?_⟩
    rw [aborted_setCanceled, aborted_setCanceled] at hab
    obtain ⟨hw, hr⟩ := ho hab
    exact setCanceled_current (setCanceled_current (h.current hab) hw) (mt stale_setCanceled.mp hr)
  | close =>
    rw [next]
    split
    · exact h
    · exact ⟨⟨hl.waits, hl.pending, hl.kinds⟩, nofun⟩
  | connectDone i ok =>
    rw [next]
    split
    next hab => exact complete_invariant h hab
    next hab =>
      have hab : s.aborted = false := by simpa using hab
      cases ok with
      | true => exact restart_invariant h he.1 (ho hab)
      | false => exact (finish_invariant h he.1).socket false
  | writeDone i result =>
    simp only [next]
    split
    next hab => exact complete_invariant h hab
    next hab =>
      have hab : s.aborted = false := by simpa using hab
      cases result with
      | failed => exact (finish_invariant h he.1).socket false
      | short => exact restart_invariant h he.1 (ho hab)
      | full => exact finish_invariant h he.1
  | readDone i ok =>
    rw [next]
    split
    next hab => exact complete_invariant h hab
    next =>
      cases ok with
      | true => exact finish_invariant h he.1
      | false => exact (finish_invariant h he.1).socket false
  | expire w => exact expire_invariant h he
  | timeout w =>
    exact ⟨⟨fun v hv => hl.waits v (List.mem_of_mem_erase hv), hl.pending,
      fun v hv => hl.kinds v (List.mem_of_mem_erase hv)⟩,
      fun hab v hv => h.current hab v (List.mem_of_mem_erase hv)⟩
  | abort => exact abort_invariant h

end Steps

/-- In a run that never clears a flag over a queued handler of a completed operation, the handler
of a timer reaches its callback while its operation is under way only. -/
theorem timeout_current {socketOpen : Bool} {s : TimedConn}
    (h : Transition.Execution system Orderly (new socketOpen) s) :
    ∀ w ∈ s.waits, s.Fires w → s.Pending w.op := by
  have hnew : (new socketOpen).Invariant := ⟨⟨nofun, nofun, nofun⟩, fun _ => nofun⟩
  have hinv : s.Invariant := h.invariant hnew fun _ _ hi he ho => step_invariant hi he ho
  rintro w hw ⟨hab, hexpired, hflag⟩
  rcases (hinv.current hab w hw).2 hexpired with hpend | hset
  · exact hpend
  · rw [hflag] at hset
    cases hset

/-- The connect completes in time; the write is too slow and its timer fires. -/
def slowWrite : List Event := [.writeQuery, .connectDone 0 true, .expire ⟨1, .write, .armed⟩]

theorem slowWrite_current :
    let s := Transition.runTrace system (new false) slowWrite
    s.Fires ⟨1, .write, .expired⟩ ∧ s.Pending 1 :=
  ⟨by decide +kernel, timeout_current
    (Transition.ValidTrace.execution .refl (by decide +kernel))
    ⟨1, .write, .expired⟩ (by decide +kernel) (by decide +kernel)⟩

/-- The timer of the first write expires just before the write completes. The handler runs after
the next write has cleared the flag, calls back with a timeout and aborts the connection. -/
theorem staleTimer_aborts :
    ∃ es, Transition.ValidTrace system Transition.Unrestricted (new true) es ∧
    let s := Transition.runTrace system (new true) es
    (⟨0, .write, .expired⟩ : Wait) ∈ s.waits ∧ s.aborting = false ∧ s.Fires ⟨0, .write, .expired⟩ ∧
      ¬ s.Pending 0 ∧ s.Pending 1 ∧
      (Transition.runTrace system s [.timeout ⟨0, .write, .expired⟩, .abort]).aborted = true :=
  ⟨[.writeQuery, .expire ⟨0, .write, .armed⟩, .writeDone 0 .full, .writeQuery], by decide +kernel,
    by decide +kernel⟩

end TimedConn
end Yarmproxy
