import Yarmproxy.ClientReplies
import Yarmproxy.CommandLocks

/-! # Bytes stay where they are sent from

The backends are sent slices of the client buffer, not copies. As long as a command has a connect or
a write in flight, the lock that it holds keeps every byte received so far in its place, whatever
the other commands and the reads of the connection do in the meantime. -/
namespace Yarmproxy
namespace ClientConn

variable {ε C : Type}

/-- The command `id` is active and holds a lock on the buffer. -/
def Holds (locks : C → ℕ) (id : ℕ) (c : ClientConn C) : Prop :=
  ∃ a ∈ c.activeCmdQueue, a.id = id ∧ 0 < locks a.cmd

instance (locks : C → ℕ) (id : ℕ) (c : ClientConn C) : Decidable (c.Holds locks id) :=
  inferInstanceAs (Decidable (∃ a ∈ c.activeCmdQueue, _))

/-- No backend fails, and the bytes that are looked at are well formed. -/
def Undisturbed (h : Family ε C) (R : C → Bytes → Prop) (c : ClientConn C) (e : Event) : Prop :=
  c.Succeeds e ∧ Readable h R c e

section Runs
variable {h : Family ε C} {I F : C → Prop} {recv : C → Bool} {R : C → Bytes → Prop}
variable {locks taken : C → ℕ} {c₀ c : ClientConn C} {id : ℕ}

theorem Covered.locked_of_holds (hc : c.Covered locks) (hh : c.Holds locks id) :
    0 < c.buffer.recycleLockCount := by
  obtain ⟨a, ha, -, hpos⟩ := hh
  have hle := locks_le_held locks ha
  unfold Covered at hc
  omega

structure Accounted (h : Family ε C) (I : C → Prop) (recv : C → Bool) (locks : C → ℕ)
    (c : ClientConn C) : Prop where
  inv : c.Inv h I recv
  covered : c.live → c.Doomed ∨ c.Covered locks

theorem Accounted.next (hd : h.Disciplined I recv F R) (hl : h.Lends I locks taken) {A : Answers C}
    (ha : c.Accounted h I recv locks) {e : Event} (he : Enabled h A c e)
    (hu : Undisturbed h R c e) :
    (c.next h e).Accounted h I recv locks := by
  refine ⟨ha.inv.next hd he hu.2, fun hlive => ?_⟩
  exact (accounts_next hl ha.inv ha.covered he hu.1 hlive).imp_right Accounts.covered

theorem Accounted.quiescent (ha : c.Accounted h I recv locks) (hq : c.Quiescent) :
    c.Covered locks :=
  (ha.covered hq.1).resolve_left fun hd => hd.todo_ne_nil hq.2

theorem init_accounted {data : Bytes} (hb : data.length ≤ 2 ^ 20) :
    (init data : ClientConn C).Accounted h I recv locks :=
  ⟨init_inv data hb, fun _ => .inr (Covered.tryReadMoreQuery (Nat.zero_le _))⟩

theorem reachable_accounted (hd : h.Disciplined I recv F R) (hl : h.Lends I locks taken)
    {A : Answers C} (ha : c₀.Accounted h I recv locks)
    (hrun : Transition.Execution (system h A) (Undisturbed h R) c₀ c) :
    c.Accounted h I recv locks :=
  hrun.invariant ha fun _ _ ha he hu => ha.next hd hl he hu

theorem reachable_inPlace (hd : h.Disciplined I recv F R) (hl : h.Lends I locks taken)
    {A : Answers C} (ha : c₀.Accounted h I recv locks)
    (hrun : Transition.Execution (system h A)
      (fun c e => Undisturbed h R c e ∧ c.Holds locks id) c₀ c) :
    c.Accounted h I recv locks ∧
      (c.live → c.Doomed ∨ (c.Holds locks id → c₀.buffer.InPlace c.buffer)) := by
  refine hrun.invariant (I := fun c => c.Accounted h I recv locks ∧
      (c.live → c.Doomed ∨ (c.Holds locks id → c₀.buffer.InPlace c.buffer)))
    ⟨ha, fun _ => .inr fun _ => .refl _⟩ fun c e hc he hp => ?_
  obtain ⟨ha, hplace⟩ := hc
  refine ⟨ha.next hd hl he hp.1, fun hlive => ?_⟩
  have hbefore := Enabled.live he
  rcases hplace hbefore with hdoomed | hplace
  · exact .inl (hdoomed.next he hlive)
  rcases ha.covered hbefore with hdoomed | hcovered
  · exact .inl (hdoomed.next he hlive)
  refine (accounts_next hl ha.inv ha.covered he hp.1.1 hlive).imp_right fun haccounts hholds => ?_
  -- the lock is held on both sides of the step
  have hstep := haccounts.firm (hcovered.locked_of_holds hp.2)
    (haccounts.covered.locked_of_holds hholds)
  exact (hplace hp.2).trans hstep

end Runs

section Results
variable [DecidableEq ε] [Inhabited ε] {env : AnyCommand.Env ε} {A : Answers (AnyCommand ε)}
variable {data : Bytes} {c₀ c : ClientConn (AnyCommand ε)} {id : ℕ}

/-- From one moment to another between which the command `id` holds a lock all the time, no byte
that has been received moves or changes; and there is a lock for the read in flight and for each
backend of an active command that is being connected or written to. -/
theorem sent_bytes_stay (hl : data.length ≤ 2 ^ 20)
    (hrun₀ : Transition.Execution (system (AnyCommand.family env) A)
      (Undisturbed (AnyCommand.family env) AnyCommand.Rest) (init data) c₀)
    (hrun : Transition.Execution (system (AnyCommand.family env) A)
      (fun c e => Undisturbed (AnyCommand.family env) AnyCommand.Rest c e ∧
        c.Holds AnyCommand.locks id) c₀ c)
    (hq : c.Quiescent) (hholds : c.Holds AnyCommand.locks id) :
    c.isReadingQuery.toNat + (c.activeCmdQueue.map fun a => a.cmd.locks).sum ≤
        c.buffer.recycleLockCount ∧
      c₀.buffer.receivedOffset ≤ c.buffer.receivedOffset ∧
      c.buffer.data.take c₀.buffer.receivedOffset =
        c₀.buffer.data.take c₀.buffer.receivedOffset := by
  have hd := AnyCommand.family_disciplined env
  have hlends := AnyCommand.family_lends env
  have ha₀ := reachable_accounted hd hlends (init_accounted hl) hrun₀
  obtain ⟨ha, hplace⟩ := reachable_inPlace hd hlends ha₀ hrun
  have hin := (hplace hq.1).resolve_left (fun hdoomed => hdoomed.todo_ne_nil hq.2) hholds
  refine ⟨?_, hin.received, hin.data⟩
  have hcovered := ha.quiescent hq
  rw [Covered, hq.2] at hcovered
  exact hcovered

end Results

def pipelined : ClientConn (AnyCommand ℕ) :=
  behind (.readDone (ascii "delete a\r\ndelete b\r\n") :: List.replicate 8 .step)
    (init (List.replicate 64 0))

def overtaking : List Event :=
  [.backend 0 0 .connected, .backend 1 0 .connected, .backend 1 0 .queryWritten,
    .backend 1 0 (.replyRead (ascii "DELETED\r\n"))]

theorem overtaking_stays :
    (List.replicate 64 0 : Bytes).length ≤ 2 ^ 20 ∧
    (behind overtaking pipelined).Quiescent ∧
    (behind overtaking pipelined).Holds AnyCommand.locks 0 ∧
    (behind overtaking pipelined).isReadingQuery.toNat +
        ((behind overtaking pipelined).activeCmdQueue.map fun a => a.cmd.locks).sum ≤
      (behind overtaking pipelined).buffer.recycleLockCount ∧
    pipelined.buffer.receivedOffset ≤ (behind overtaking pipelined).buffer.receivedOffset ∧
    (behind overtaking pipelined).buffer.data.take pipelined.buffer.receivedOffset =
      pipelined.buffer.data.take pipelined.buffer.receivedOffset := by
  have hq : (behind overtaking pipelined).Quiescent := by decide +kernel
  have hholds : (behind overtaking pipelined).Holds AnyCommand.locks 0 := by decide +kernel
  have hfirst : Transition.ValidTrace (system (AnyCommand.family byFirstByte) fun _ _ _ => True)
      (fun c e => c.Succeeds e ∧ Whole byFirstByte c e) (init (List.replicate 64 0))
      (.readDone (ascii "delete a\r\ndelete b\r\n") :: List.replicate 8 .step) := by decide +kernel
  have hsecond : Transition.ValidTrace (system (AnyCommand.family byFirstByte) fun _ _ _ => True)
      (fun c e => (c.Succeeds e ∧ Whole byFirstByte c e) ∧ c.Holds AnyCommand.locks 0) pipelined
      overtaking := by decide +kernel
  refine ⟨by decide, hq, hholds, sent_bytes_stay (by decide)
    ((Transition.ValidTrace.execution .refl hfirst).mono fun _ _ hw => ⟨hw.1, hw.2.readable⟩)
    ((Transition.ValidTrace.execution .refl hsecond).mono
      fun _ _ hw => ⟨⟨hw.1.1, hw.1.2.readable⟩, hw.2⟩) hq hholds⟩

end ClientConn
end Yarmproxy
