import Yarmproxy.BufferQueue
import Yarmproxy.ClientInvariant

/-! # The locks on the client buffer

Whoever reads into the client buffer or sends out of it holds a lock on it, and a locked buffer
is not compacted. `Lends` is what the commands owe to that scheme: a handler takes and gives back
as many locks as sends begin and end in it. The connection then keeps an account of its locks. -/
namespace Yarmproxy

variable {ε C : Type}

/-- An event in which the backend does not fail. -/
def BackendEvent.succeeds : BackendEvent → Bool
  | .connected | .queryWritten | .replyRead _ => true
  | _ => false

namespace ReadBuffer

/-- The bytes received so far stay where they are. -/
structure InPlace (b b' : ReadBuffer) : Prop where
  received : b.receivedOffset ≤ b'.receivedOffset
  data : b'.data.take b.receivedOffset = b.data.take b.receivedOffset

variable {b b' b'' : ReadBuffer} {n cap : ℕ} {chunk : Bytes}

theorem InPlace.refl (b : ReadBuffer) : b.InPlace b := ⟨le_rfl, rfl⟩

theorem InPlace.of_eq (hd : b'.data = b.data) (hr : b'.receivedOffset = b.receivedOffset) :
    b.InPlace b' := ⟨hr.ge, by rw [hd]⟩

theorem InPlace.trans (h : b.InPlace b') (h' : b'.InPlace b'') : b.InPlace b'' := by
  refine ⟨h.received.trans h'.received, ?_⟩
  have hd := congrArg (List.take b.receivedOffset) h'.data
  rw [List.take_take, List.take_take, Nat.min_eq_left h.received] at hd
  exact hd.trans h.data

theorem inPlace_decRecycleLock (hl : 0 < b.decRecycleLock.recycleLockCount) :
    b.InPlace b.decRecycleLock := by
  rw [recycleLockCount_decRecycleLock] at hl
  rw [decRecycleLock, tryRecycleBuffer_locked (decide_eq_true hl)]
  exact .of_eq rfl rfl

theorem inPlace_updateProcessedBytes (hl : 0 < b.recycleLockCount) :
    b.InPlace (b.updateProcessedBytes n) := by
  have hkeep : b.updateProcessedBytes n = b.updateProcessedOffset n :=
    tryRecycleBuffer_locked (decide_eq_true hl)
  rw [hkeep]
  exact .of_eq rfl rfl

theorem inPlace_receive (h : b.Within cap) (hc : chunk.length ≤ b.freeSpaceSize) :
    b.InPlace (b.receive chunk) := by
  refine ⟨?_, take_receive b h chunk⟩
  rw [freeSpaceSize_eq h] at hc
  have hs := h.size_lt
  have hr := h.received_size
  simp only [receive, addSize_eq (show b.receivedOffset + chunk.length < 2 ^ 64 by omega)]
  omega

end ReadBuffer

/-- A handler of a command that held `n` locks: what it takes and gives back, now or by an effect,
is what its command holds more or less than before. While a lock is held all the time the bytes
stay. -/
structure Lent (locks : C → ℕ) (n : ℕ) (x y : Ctx C) : Prop where
  balance : locks y.cmd + y.effects.count .decRecycleLock + x.buffer.recycleLockCount ≤
    y.buffer.recycleLockCount + n
  inPlace : 0 < x.buffer.recycleLockCount → 0 < y.buffer.recycleLockCount →
    x.buffer.InPlace y.buffer

/-- `locks` counts the locks that a started command holds, `taken` those that its constructor has
taken for it. -/
structure Lends (h : Handlers ε C) (I : C → Prop) (locks taken : C → ℕ) : Prop where
  start : ∀ x, x.effects = [] → Terminal (h.startWriteQuery x).1.effects ∨
    Lent locks (taken x.cmd) x (h.startWriteQuery x).1
  continue_ : ∀ x, x.effects = [] → Terminal (h.continueWriteQuery x).1.effects ∨
    Lent locks (locks x.cmd) x (h.continueWriteQuery x).1
  parse : ∀ x, x.effects = [] → locks (h.parseUnparsedPart x).1.cmd = locks x.cmd ∧
    (h.parseUnparsedPart x).1.effects.count .decRecycleLock = 0 ∧
    ∃ p, (h.parseUnparsedPart x).1.buffer = { x.buffer with parsedOffset := p }
  process : ∀ x, I x.cmd → x.effects = [] → Terminal (h.processUnparsedPart x).1.effects ∨
    Lent locks (locks x.cmd) x (h.processUnparsedPart x).1
  becomeFirst : ∀ x, x.effects = [] → x.first = true → Terminal (h.startWriteReply x).effects ∨
    Lent locks (locks x.cmd) x (h.startWriteReply x)
  written : ∀ b ec x, x.effects = [] → x.first = true →
    Terminal (h.onWriteReplyFinished b ec x).effects ∨
      Lent locks (locks x.cmd) x (h.onWriteReplyFinished b ec x)
  backend : ∀ b e x k, x.effects = [] → h.backend x.cmd b = some k → k.Enabled e →
    e.succeeds = true → locks x.cmd ≤ x.buffer.recycleLockCount →
    Terminal (h.onBackend b e x).effects ∨ Lent locks (locks x.cmd) x (h.onBackend b e x)

/-- With the constructors of a family. -/
structure Family.Lends (h : Family ε C) (I : C → Prop) (locks taken : C → ℕ) : Prop
    extends Yarmproxy.Lends h.toHandlers I locks taken where
  construct : ∀ k b created b' cmd, h.construct k b created = some (b', cmd) →
    b.recycleLockCount + taken cmd ≤ b'.recycleLockCount ∧ b.InPlace b'

def Task.unlocks : Task → Bool
  | .effect _ .decRecycleLock => true
  | _ => false

namespace ClientConn

/-- The locks that the active commands hold. -/
def held (locks : C → ℕ) (c : ClientConn C) : ℕ :=
  (c.activeCmdQueue.map fun a => locks a.cmd).sum

/-- Every lock that somebody relies on is counted: that of the read in flight, those of the active
commands and those that are still to be given back. -/
def Covered (locks : C → ℕ) (c : ClientConn C) : Prop :=
  c.isReadingQuery.toNat + c.held locks + c.todo.countP Task.unlocks ≤ c.buffer.recycleLockCount

/-- A step over which a locked buffer is not compacted. -/
def Firm (c c' : ClientConn C) : Prop :=
  0 < c.buffer.recycleLockCount → 0 < c'.buffer.recycleLockCount → c.buffer.InPlace c'.buffer

section Account
variable {h : Family ε C} {I F : C → Prop} {recv : C → Bool} {R : C → Bytes → Prop}
variable {locks taken : C → ℕ} {c c' : ClientConn C} {a : Active C}
variable {f : Ctx C → Ctx C × List Task}

theorem countP_effects (id : ℕ) (es : List Effect) :
    (es.map (Task.effect id)).countP Task.unlocks = es.count .decRecycleLock := by
  rw [List.countP_map, List.count]
  apply List.countP_congr
  intro e _
  cases e <;> simp [Task.unlocks]

theorem held_setCmd (locks : C → ℕ) (ho : c.Ordered) (ha : a ∈ c.activeCmdQueue) (cmd : C) :
    (c.setCmd a.id cmd).held locks + locks a.cmd = c.held locks + locks cmd := by
  obtain ⟨front, rest, hq⟩ := List.append_of_mem ha
  have hn := ho.nodup
  rw [hq, List.map_append, List.map_cons, List.nodup_append, List.nodup_cons] at hn
  obtain ⟨-, ⟨hrest, -⟩, hfront⟩ := hn
  -- the numbers differ, so only the entry of `a` is replaced
  have hkeep : ∀ l : List (Active C), a.id ∉ l.map Active.id →
      l.map (fun a' => if a'.id = a.id then { a' with cmd := cmd } else a') = l := by
    intro l hl
    conv_rhs => rw [← List.map_id l]
    apply List.map_congr_left
    intro a' ha'
    have hid : a'.id ≠ a.id := fun hid => hl (hid ▸ List.mem_map_of_mem ha')
    rw [if_neg hid]
    rfl
  have hfront' : a.id ∉ front.map Active.id := fun hm => hfront _ hm _ (List.mem_cons_self ..) rfl
  simp only [held, setCmd, hq, List.map_append, List.map_cons, hkeep front hfront',
    hkeep rest hrest, if_true, List.sum_append, List.sum_cons]
  omega

theorem Covered.of_eq (hc : c.Covered locks) (hr : c'.isReadingQuery = c.isReadingQuery)
    (hq : c'.activeCmdQueue = c.activeCmdQueue) (ht : c'.todo = c.todo)
    (hl : c.buffer.recycleLockCount ≤ c'.buffer.recycleLockCount) : c'.Covered locks := by
  unfold Covered held at hc ⊢
  rw [hr, hq, ht]
  omega

theorem Covered.push (hc : c.Covered locks) {t : Task} (ht : t.unlocks = false) :
    (c.push t).Covered locks := by
  unfold Covered held at hc ⊢
  simp only [ClientConn.push, List.countP_cons, ht, Bool.false_eq_true, if_false]
  omega

theorem Covered.tryReadMoreQuery (hc : c.Covered locks) : c.tryReadMoreQuery.Covered locks := by
  unfold ClientConn.tryReadMoreQuery
  split
  · exact hc
  next hr =>
    unfold Covered held at hc ⊢
    simp only [ReadBuffer.incRecycleLock, Bool.toNat_true]
    have := Bool.toNat_le c.isReadingQuery
    omega

theorem firm_tryReadMoreQuery (c : ClientConn C) : c.Firm c.tryReadMoreQuery := by
  intro _ _
  unfold tryReadMoreQuery
  split
  · exact .refl _
  · exact .of_eq rfl rfl

theorem lock_le_tryReadMoreQuery (c : ClientConn C) :
    c.buffer.recycleLockCount ≤ c.tryReadMoreQuery.buffer.recycleLockCount := by
  unfold tryReadMoreQuery
  split
  · exact le_rfl
  · exact Nat.le_succ _

theorem firm_of_buffer (hb : c'.buffer = c.buffer) : c.Firm c' :=
  fun _ _ => .of_eq (by rw [hb]) (by rw [hb])

@[simp] theorem buffer_run : (c.run a f).buffer = (f (c.ctx a)).1.buffer := rfl

@[simp] theorem isReadingQuery_run : (c.run a f).isReadingQuery = c.isReadingQuery := rfl

theorem todo_run : (c.run a f).todo =
    (f (c.ctx a)).1.effects.map (Task.effect a.id) ++ ((f (c.ctx a)).2 ++ c.todo) := rfl

theorem Covered.run (hc : c.Covered locks) (ho : c.Ordered) (ha : a ∈ c.activeCmdQueue)
    (hl : Lent locks (locks a.cmd) (c.ctx a) (f (c.ctx a)).1)
    (hf : (f (c.ctx a)).2.countP Task.unlocks = 0) : (c.run a f).Covered locks := by
  have hheld := held_setCmd locks ho ha (f (c.ctx a)).1.cmd
  have hb : _ + c.buffer.recycleLockCount ≤ _ := hl.balance
  have hqueue : (c.run a f).held locks = (c.setCmd a.id (f (c.ctx a)).1.cmd).held locks := rfl
  unfold Covered at hc ⊢
  rw [hqueue, todo_run, List.countP_append, List.countP_append, countP_effects, hf, buffer_run,
    isReadingQuery_run]
  omega

/-- A step that keeps the account. -/
structure Accounts (locks : C → ℕ) (c c' : ClientConn C) : Prop where
  covered : c'.Covered locks
  firm : c.Firm c'

theorem run_accounts (hc : c.Covered locks) (ho : c.Ordered) (ha : a ∈ c.activeCmdQueue)
    (hl : Terminal (f (c.ctx a)).1.effects ∨ Lent locks (locks a.cmd) (c.ctx a) (f (c.ctx a)).1)
    (hf : (f (c.ctx a)).2.countP Task.unlocks = 0) :
    (c.run a f).Doomed ∨ Accounts locks c (c.run a f) :=
  hl.imp doomed_run fun hl => ⟨hc.run ho ha hl hf, hl.inPlace⟩

theorem Accounts.push (hc : c.Covered locks) {t : Task} (ht : t.unlocks = false) :
    Accounts locks c (c.push t) := ⟨hc.push ht, firm_of_buffer rfl⟩

theorem Accounts.tryReadMoreQuery (hc : c.Covered locks) : Accounts locks c c.tryReadMoreQuery :=
  ⟨hc.tryReadMoreQuery, firm_tryReadMoreQuery c⟩

theorem Accounts.refl (hc : c.Covered locks) : Accounts locks c c := ⟨hc, firm_of_buffer rfl⟩

theorem updateProcessed_accounts (hc : c.Covered locks) : Accounts locks c c.updateProcessed :=
  ⟨hc.of_eq rfl rfl rfl ReadBuffer.recycleLockCount_updateProcessedBytes.ge,
    fun hl _ => ReadBuffer.inPlace_updateProcessedBytes hl⟩

theorem Accounts.trans {c'' : ClientConn C} (h : Accounts locks c c')
    (hl : c.buffer.recycleLockCount ≤ c'.buffer.recycleLockCount) (h' : Accounts locks c' c'') :
    Accounts locks c c'' := by
  refine ⟨h'.covered, fun h₀ h₂ => ?_⟩
  have h₁ : 0 < c'.buffer.recycleLockCount := Nat.lt_of_lt_of_le h₀ hl
  exact (h.firm h₀ h₁).trans (h'.firm h₁ h₂)

theorem processed_accounts (hc : c.Covered locks) (h' : Accounts locks c.updateProcessed c') :
    Accounts locks c c' :=
  (updateProcessed_accounts hc).trans ReadBuffer.recycleLockCount_updateProcessedBytes.ge h'

theorem finishStarted_accounts (hc : c.Covered locks) (id : ℕ) (noCallback : Bool) :
    Accounts locks c (c.finishStarted h id noCallback) := by
  have hp := updateProcessed_accounts hc
  unfold finishStarted
  dsimp only
  split
  · exact hp
  split
  · split
    · exact processed_accounts hc (.tryReadMoreQuery hp.covered)
    · exact hp
  · exact processed_accounts hc (.push hp.covered rfl)

theorem finishContinued_accounts (hc : c.Covered locks) (back : Option ℕ) (noCallback : Bool) :
    Accounts locks c (c.finishContinued back noCallback) := by
  have hp := updateProcessed_accounts hc
  unfold finishContinued
  dsimp only
  split
  · split
    · exact processed_accounts hc (.tryReadMoreQuery hp.covered)
    · exact hp
  · exact processed_accounts hc (.push hp.covered rfl)

theorem finishHandled_accounts (hc : c.Covered locks) (back : Option ℕ) :
    Accounts locks c (c.finishHandled h back) := by
  unfold finishHandled
  split
  · exact .push hc rfl
  split
  · exact .push hc rfl
  · exact .refl hc

theorem finishRotated_accounts (hc : c.Covered locks) (hlive : (c.finishRotated h).live) :
    Accounts locks c (c.finishRotated h) := by
  unfold finishRotated at hlive ⊢
  cases hback : c.back with
  | none =>
    rw [hback] at hlive
    exact absurd hlive.2 nofun
  | some a =>
    dsimp only
    split
    · exact .push hc rfl
    split
    · exact .tryReadMoreQuery hc
    · exact .refl hc

theorem finishParsed_accounts (hl : h.Lends I locks taken) (ho : c.Ordered) (hc : c.Covered locks)
    (back : Option ℕ) (hlive : (c.finishParsed h back).live) :
    (c.finishParsed h back).Doomed ∨ Accounts locks c (c.finishParsed h back) := by
  unfold finishParsed at hlive ⊢
  split at hlive
  · exact absurd hlive.2 nofun
  next hnot =>
    rw [if_neg hnot]
    split at hlive
    next hpos =>
      rw [if_pos hpos]
      cases ha : back.bind c.find with
      | none =>
        rw [ha] at hlive
        exact absurd hlive.2 nofun
      | some a =>
        obtain ⟨id, -, hid⟩ := Option.bind_eq_some_iff.mp ha
        exact run_accounts hc ho (find_some hid).1 (hl.continue_ (c.ctx a) rfl) rfl
    next hpos =>
      rw [if_neg hpos]
      exact .inr (.push hc rfl)

theorem finishUnparsed_accounts (hl : h.Lends I locks taken) (ho : c.Ordered) (hc : c.Covered locks)
    (hi : ∀ a ∈ c.activeCmdQueue, I a.cmd) (back : Option ℕ) :
    (c.finishUnparsed h back).Doomed ∨ Accounts locks c (c.finishUnparsed h back) := by
  unfold finishUnparsed
  cases ha : back.bind c.find with
  | none => exact .inr (.push hc rfl)
  | some a =>
    obtain ⟨id, -, hid⟩ := Option.bind_eq_some_iff.mp ha
    have hmem := (find_some hid).1
    dsimp only
    split
    · exact .inr (.push hc rfl)
    · refine run_accounts hc ho hmem (hl.process (c.ctx a) (hi a hmem) rfl) ?_
      dsimp only
      split <;> rfl

theorem Covered.pop {queue : List (Active C)} (hc : c.Covered locks)
    (hq : c.activeCmdQueue = a :: queue) :
    Covered locks { c with activeCmdQueue := queue, gone := c.gone ++ [a] } := by
  unfold Covered held at hc ⊢
  rw [hq, List.map_cons, List.sum_cons] at hc
  dsimp only
  omega

theorem rotate_accounts (hl : h.Lends I locks taken) (ho : c.Ordered) (hc : c.Covered locks)
    (hlive : (c.rotateReplyingCommand h).live) :
    (c.rotateReplyingCommand h).Doomed ∨ Accounts locks c (c.rotateReplyingCommand h) := by
  have hd : Accounts locks c (if c.activeCmdQueue.length = 1 then c.tryReadMoreQuery else c) ∧
      c.buffer.recycleLockCount ≤ (if c.activeCmdQueue.length = 1 then c.tryReadMoreQuery
        else c).buffer.recycleLockCount ∧
      (if c.activeCmdQueue.length = 1 then c.tryReadMoreQuery else c).Ordered := by
    split
    · exact ⟨.tryReadMoreQuery hc, lock_le_tryReadMoreQuery c, ho.tryReadMoreQuery⟩
    · exact ⟨.refl hc, le_rfl, ho⟩
  unfold rotateReplyingCommand at hlive ⊢
  generalize (if c.activeCmdQueue.length = 1 then c.tryReadMoreQuery else c) = d at hd hlive
  obtain ⟨hacc, hle, hod⟩ := hd
  dsimp only at hlive ⊢
  cases hq : d.activeCmdQueue with
  | nil =>
    rw [hq] at hlive
    exact absurd hlive.2 nofun
  | cons a queue =>
    have hpop : Accounts locks d { d with activeCmdQueue := queue, gone := d.gone ++ [a] } :=
      ⟨hacc.covered.pop hq, firm_of_buffer rfl⟩
    cases queue with
    | nil => exact .inr (hacc.trans hle hpop)
    | cons front queue =>
      refine (run_accounts hpop.covered (hod.pop hq) (List.mem_cons_self ..)
        (hl.becomeFirst _ rfl (by simp [isFirst])) rfl).imp_right fun hr => ?_
      exact (hacc.trans hle hpop).trans hle hr

/-- A new command holds what its constructor has taken. -/
theorem startCommand_accounts (hl : h.Lends I locks taken) (ho : c.Ordered) (hc : c.Covered locks)
    (hlimit : c.activeCmdQueue.length < pipelineActiveLimit) {n : ℕ} {created : Created}
    {buffer : ReadBuffer} {cmd : C}
    (hcon : h.construct c.count c.buffer created = some (buffer, cmd)) :
    (c.startCommand h n created buffer cmd).Doomed ∨
      Accounts locks c (c.startCommand h n created buffer cmd) := by
  obtain ⟨htaken, hplace⟩ := hl.construct _ _ _ _ _ hcon
  have hoa := ho.append hlimit n created buffer cmd
  have hmem : ⟨c.count, created, cmd⟩ ∈ (c.append n created buffer cmd).activeCmdQueue := by
    simp [append]
  rw [startCommand_eq]
  refine (hl.start ((c.append n created buffer cmd).ctx ⟨c.count, created, cmd⟩) rfl).imp doomed_run
    fun hs => ⟨?_, fun h₀ h₁ => ?_⟩
  · have hheld := held_setCmd locks hoa hmem (h.startWriteQuery
      ((c.append n created buffer cmd).ctx ⟨c.count, created, cmd⟩)).1.cmd
    have happend : (c.append n created buffer cmd).held locks = c.held locks + locks cmd := by
      simp [held, append]
    have hb : _ + buffer.recycleLockCount ≤ _ + taken cmd := hs.balance
    have hqueue : ((c.append n created buffer cmd).run ⟨c.count, created, cmd⟩ fun x =>
        ((h.startWriteQuery x).1, [.started c.count (h.startWriteQuery x).2])).held locks =
        ((c.append n created buffer cmd).setCmd c.count (h.startWriteQuery
          ((c.append n created buffer cmd).ctx ⟨c.count, created, cmd⟩)).1.cmd).held locks := rfl
    unfold Covered at hc ⊢
    rw [hqueue, todo_run, List.countP_append, List.countP_append, countP_effects, buffer_run,
      isReadingQuery_run]
    have hstarted : List.countP Task.unlocks [Task.started c.count (h.startWriteQuery
        ((c.append n created buffer cmd).ctx ⟨c.count, created, cmd⟩)).2] = 0 := rfl
    have hread : (c.append n created buffer cmd).isReadingQuery = c.isReadingQuery := rfl
    have htodo : (c.append n created buffer cmd).todo = c.todo := rfl
    rw [hstarted, hread, htodo]
    dsimp only at hheld hb ⊢
    omega
  · have hparsed : buffer.InPlace (buffer.updateParsedBytes n) := .of_eq rfl rfl
    have hbuf : 0 < buffer.recycleLockCount := by omega
    exact (hplace.trans hparsed).trans (hs.inPlace hbuf h₁)

theorem processUnparsedQuery_accounts (hl : h.Lends I locks taken) (ho : c.Ordered)
    (hc : c.Covered locks) (hlive : (c.processUnparsedQuery h).live) :
    (c.processUnparsedQuery h).Doomed ∨ Accounts locks c (c.processUnparsedQuery h) := by
  unfold processUnparsedQuery at hlive ⊢
  split at hlive
  next hbody =>
    rw [if_pos hbody]
    split at hlive
    · exact absurd hlive.2 nofun
    · exact .inr (.tryReadMoreQuery hc)
    next n created hcr =>
      cases hcon : h.construct c.count c.buffer created with
      | none =>
        rw [hcon] at hlive
        exact absurd hlive.2 nofun
      | some r =>
        obtain ⟨buffer, cmd⟩ := r
        obtain ⟨htaken, hplace⟩ := hl.construct _ _ _ _ _ hcon
        dsimp only
        split
        · have hle : c.buffer.recycleLockCount ≤ buffer.recycleLockCount := by omega
          have hacc : Accounts locks c { c with buffer := buffer } :=
            ⟨hc.of_eq rfl rfl rfl hle, fun _ _ => hplace⟩
          exact .inr (hacc.trans hle (.tryReadMoreQuery hacc.covered))
        · exact startCommand_accounts hl ho hc hbody.1 hcon
  next hbody =>
    rw [if_neg hbody]
    exact .inr (.refl hc)

theorem locks_le_held (locks : C → ℕ) (ha : a ∈ c.activeCmdQueue) : locks a.cmd ≤ c.held locks := by
  obtain ⟨front, rest, hq⟩ := List.append_of_mem ha
  simp only [held, hq, List.map_append, List.map_cons, List.sum_append, List.sum_cons]
  omega

theorem task_accounts (hl : h.Lends I locks taken) (ho : c.Ordered) (hb : c.Base h I recv)
    {t : Task} (hc : (c.push t).Covered locks) (hlive : (c.perform h t).live) :
    (c.perform h t).Doomed ∨ Accounts locks c (c.perform h t) := by
  have hrest : t.unlocks = false → c.Covered locks := by
    intro ht
    unfold Covered held at hc ⊢
    simp only [ClientConn.push, List.countP_cons, ht, Bool.false_eq_true, if_false] at hc
    omega
  cases t with
  | effect id e =>
    cases e with
    | writeReply data b =>
      simp only [perform] at hlive ⊢
      split
      next hw =>
        rw [if_pos hw] at hlive
        exact absurd hlive.2 Bool.false_ne_true.symm
      next => exact .inr ⟨(hrest rfl).of_eq rfl rfl rfl le_rfl, firm_of_buffer rfl⟩
    | rotate => exact rotate_accounts hl ho (hrest rfl) hlive
    | abort => exact absurd hlive.1 Bool.false_ne_true.symm
    | tryReadMoreQuery => exact .inr (.tryReadMoreQuery (hrest rfl))
    | decRecycleLock =>
      refine .inr ⟨?_, fun _ h₁ => ReadBuffer.inPlace_decRecycleLock h₁⟩
      unfold Covered held at hc ⊢
      simp only [ClientConn.push, List.countP_cons, Task.unlocks, if_true] at hc
      simp only [perform, ReadBuffer.recycleLockCount_decRecycleLock]
      omega
    | assertFailed => exact absurd hlive.2 Bool.false_ne_true.symm
    | crash => exact absurd hlive.2 Bool.false_ne_true.symm
  | rotated => exact .inr (finishRotated_accounts (hrest rfl) hlive)
  | processUnparsedQuery => exact processUnparsedQuery_accounts hl ho (hrest rfl) hlive
  | started id noCallback => exact .inr (finishStarted_accounts (hrest rfl) id noCallback)
  | parsed back => exact finishParsed_accounts hl ho (hrest rfl) back hlive
  | continued back noCallback => exact .inr (finishContinued_accounts (hrest rfl) back noCallback)
  | unparsed back => exact finishUnparsed_accounts hl ho (hrest rfl) hb.held back
  | handled back => exact .inr (finishHandled_accounts (hrest rfl) back)

theorem received_accounts (hv : c.buffer.Valid) (hc : c.Covered locks)
    (hr : c.isReadingQuery = true) {chunk : Bytes}
    (hchunk : chunk.length ≤ c.buffer.freeSpaceSize) :
    Accounts locks c (c.received chunk) := by
  refine ⟨?_, fun _ h₁ => ?_⟩
  · unfold Covered held at hc ⊢
    rw [hr] at hc
    simp only [received, ReadBuffer.recycleLockCount_decRecycleLock, ReadBuffer.receive,
      Bool.toNat_true, Bool.toNat_false] at hc ⊢
    omega
  · exact (ReadBuffer.inPlace_receive hv hchunk).trans (ReadBuffer.inPlace_decRecycleLock h₁)

theorem handleRead_accounts (hl : h.Lends I locks taken) (ho : c.Ordered) (hv : c.buffer.Valid)
    (hc : c.Covered locks) (hr : c.isReadingQuery = true) {chunk : Bytes}
    (hchunk : chunk.length ≤ c.buffer.freeSpaceSize) : Accounts locks c (c.handleRead h chunk) := by
  have hacc := received_accounts hv hc hr hchunk
  -- what follows does not touch the locks
  have hthen : ∀ d, Accounts locks (c.received chunk) d →
      d.buffer.recycleLockCount = (c.received chunk).buffer.recycleLockCount →
        Accounts locks c d := by
    intro d hd hle
    refine ⟨hd.covered, fun h₀ h₁ => ?_⟩
    have hmid : 0 < (c.received chunk).buffer.recycleLockCount := hle ▸ h₁
    exact (hacc.firm h₀ hmid).trans (hd.firm hmid h₁)
  unfold handleRead
  rw [show { c with
    isReadingQuery := false, buffer := (c.buffer.receive chunk).decRecycleLock } =
      c.received chunk from rfl]
  dsimp only
  cases hback : (c.received chunk).back with
  | none => exact hthen _ (.push hacc.covered rfl) rfl
  | some a =>
    dsimp only
    split
    · exact hthen _ (.push hacc.covered rfl) rfl
    · obtain ⟨hlocks, hdecs, p, hb⟩ := hl.parse ((c.received chunk).ctx a) rfl
      have hlent : Lent locks (locks a.cmd) ((c.received chunk).ctx a)
          (h.parseUnparsedPart ((c.received chunk).ctx a)).1 := by
        refine ⟨?_, fun _ _ => .of_eq (by rw [hb]) (by rw [hb])⟩
        rw [hlocks, hdecs, hb]
        dsimp only
        omega
      have ho' : (c.received chunk).Ordered := ho.of_eq rfl rfl rfl
      refine hthen _ ⟨hacc.covered.run ho' (back_mem hback) hlent ?_, hlent.inPlace⟩ ?_
      · dsimp only
        split <;> rfl
      · rw [buffer_run]
        dsimp only
        rw [hb]

theorem handleWrite_accounts (hl : h.Lends I locks taken) (ho : c.Ordered) (hw : c.FrontWrites)
    (hc : c.Covered locks) (ec : ErrorCode) :
    (c.handleWrite h ec).Doomed ∨ Accounts locks c (c.handleWrite h ec) := by
  unfold handleWrite
  cases hwr : c.writing with
  | none => exact .inr (.refl hc)
  | some w =>
    obtain ⟨id, b⟩ := w
    have hc' : Covered locks { c with writing := none } := hc.of_eq rfl rfl rfl le_rfl
    dsimp only
    cases hf : find { c with writing := none } id with
    | none => exact .inr ⟨hc', firm_of_buffer rfl⟩
    | some a =>
      obtain ⟨hmem, hid⟩ := find_some hf
      have hfirst : c.isFirst a.id = true := by
        rw [hid, isFirst_iff]
        exact hw.front id b hwr (hid ▸ List.mem_map_of_mem hmem)
      exact (run_accounts hc' (ho.of_eq rfl rfl rfl) hmem
        (hl.written b ec _ rfl hfirst) rfl).imp_right
        fun hr => ⟨hr.covered, hr.firm⟩

end Account

/-- The steps in which no backend fails. -/
def Succeeds (_ : ClientConn C) : Event → Prop
  | .backend _ _ e => e.succeeds = true
  | _ => True

instance (c : ClientConn C) : ∀ e, Decidable (c.Succeeds e)
  | .backend _ _ _ => inferInstanceAs (Decidable (_ = _))
  | .step | .readDone _ | .readEof | .readFailed | .writeDone | .writeFailed | .timeout =>
    inferInstanceAs (Decidable True)

section Account
variable {h : Family ε C} {I F : C → Prop} {recv : C → Bool} {R : C → Bytes → Prop}
variable {locks taken : C → ℕ} {c : ClientConn C}

theorem backend_accounts (hl : h.Lends I locks taken) {A : Answers C} (ho : c.Ordered)
    (hc : c.Covered locks) {id b : ℕ} {e : BackendEvent} (he : Enabled h A c (.backend id b e))
    (hs : e.succeeds = true) : (c.next h (.backend id b e)).Doomed ∨
      Accounts locks c (c.next h (.backend id b e)) := by
  obtain ⟨-, a, k, hf, hk, hen, -⟩ := he
  have hmem := (find_some hf).1
  have hle : locks a.cmd ≤ c.buffer.recycleLockCount := by
    have := locks_le_held locks hmem
    unfold Covered at hc
    omega
  simp only [next, hf]
  exact run_accounts hc ho hmem (hl.backend b e (c.ctx a) k rfl hk hen hs hle) rfl

theorem accounts_next (hl : h.Lends I locks taken) {A : Answers C} (hi : c.Inv h I recv)
    (hc : c.live → c.Doomed ∨ c.Covered locks) {e : Event} (he : Enabled h A c e)
    (hs : c.Succeeds e) (hlive : (c.next h e).live) :
    (c.next h e).Doomed ∨ Accounts locks c (c.next h e) := by
  have hquiet : c.Quiescent → c.Sound h I recv ∧ c.Covered locks := fun hq =>
    ⟨hi.quiescent hq, (hc hq.1).resolve_left fun hd => hd.todo_ne_nil hq.2⟩
  cases e with
  | step =>
    cases ht : c.todo with
    | nil => exact absurd ht he.2
    | cons t ts =>
      simp only [ClientConn.next, ht] at hlive ⊢
      rcases hc he.1 with hd | hc
      · exact .inl (doomed_step hd ht hlive)
      rcases hi.sound he.1 with hd | hb
      · exact .inl (doomed_step hd ht hlive)
      have ho : Ordered { c with todo := ts } := hi.ordered.of_eq rfl rfl rfl
      have hb : Base h I recv { c with todo := ts } :=
        ⟨hb.valid, hb.held, hb.earlier, hb.reads, hb.writes.of_eq rfl rfl rfl⟩
      have hc : (push { c with todo := ts } t).Covered locks := hc.of_eq rfl rfl ht.symm le_rfl
      exact (task_accounts hl ho hb hc hlive).imp_right fun hr => ⟨hr.covered, hr.firm⟩
  | readDone chunk =>
    obtain ⟨hs, hc⟩ := hquiet he.1
    exact .inr (handleRead_accounts hl hi.ordered hs.valid hc he.2.1 he.2.2.2)
  | readEof =>
    obtain ⟨-, hc⟩ := hquiet he.1
    refine .inr ⟨?_, firm_of_buffer rfl⟩
    unfold Covered held at hc ⊢
    simp only [ClientConn.next, Bool.toNat_false]
    omega
  | readFailed => exact absurd hlive.1 Bool.false_ne_true.symm
  | writeDone | writeFailed =>
    obtain ⟨hs, hc⟩ := hquiet he.1
    exact handleWrite_accounts hl hi.ordered hs.writes hc _
  | backend id b e =>
    obtain ⟨-, hc⟩ := hquiet he.1
    exact backend_accounts hl hi.ordered hc he hs
  | timeout => exact absurd hlive.1 Bool.false_ne_true.symm

end Account
end ClientConn
end Yarmproxy
