import Yarmproxy.ClientConn
import Mathlib.Data.List.Nodup

/-! # The commands of a connection keep their order

Every command gets its number when it is created, joins the queue at the back and leaves it at
the front. -/
namespace Yarmproxy
namespace ClientConn

variable {ε C : Type}

/-- The commands are numbered in the order of their creation, and few are active at once. -/
structure Ordered (c : ClientConn C) : Prop where
  ids : (c.gone ++ c.activeCmdQueue).map Active.id = List.range c.count
  limit : c.activeCmdQueue.length ≤ pipelineActiveLimit

section Ordered
variable {h : Family ε C} {c : ClientConn C} {a : Active C} {f : Ctx C → Ctx C × List Task}

@[simp] theorem ids_setCmd (id : ℕ) (cmd : C) :
    (c.setCmd id cmd).activeCmdQueue.map Active.id = c.activeCmdQueue.map Active.id := by
  simp only [setCmd, List.map_map]
  apply List.map_congr_left
  intro a _
  simp only [Function.comp_apply]
  split <;> rfl

theorem Ordered.of_eq {c' : ClientConn C} (ho : c.Ordered) (hg : c'.gone = c.gone)
    (hq : c'.activeCmdQueue = c.activeCmdQueue) (hc : c'.count = c.count) : c'.Ordered :=
  ⟨by rw [hg, hq, hc]; exact ho.ids, by rw [hq]; exact ho.limit⟩

theorem Ordered.run (ho : c.Ordered) : (c.run a f).Ordered := by
  constructor
  · have hids := ho.ids
    rw [List.map_append] at hids ⊢
    exact (congrArg _ (ids_setCmd _ _)).trans hids
  · have hlen : (c.run a f).activeCmdQueue.length = c.activeCmdQueue.length := List.length_map _
    rw [hlen]
    exact ho.limit

theorem Ordered.tryReadMoreQuery (ho : c.Ordered) : c.tryReadMoreQuery.Ordered := by
  unfold ClientConn.tryReadMoreQuery
  split
  · exact ho
  · exact ho.of_eq rfl rfl rfl

theorem Ordered.abort (ho : c.Ordered) : c.abort.Ordered := by
  constructor
  · simpa [ClientConn.abort] using ho.ids
  · exact Nat.zero_le _

theorem Ordered.pop (ho : c.Ordered) {queue : List (Active C)}
    (hq : c.activeCmdQueue = a :: queue) :
    Ordered { c with activeCmdQueue := queue, gone := c.gone ++ [a] } := by
  have hids := ho.ids
  have hlimit := ho.limit
  rw [hq] at hids hlimit
  refine ⟨?_, (Nat.le_succ _).trans hlimit⟩
  simpa using hids

theorem Ordered.rotateReplyingCommand (ho : c.Ordered) : (c.rotateReplyingCommand h).Ordered := by
  have ho' : (if c.activeCmdQueue.length = 1 then c.tryReadMoreQuery else c).Ordered := by
    split
    · exact ho.tryReadMoreQuery
    · exact ho
  unfold ClientConn.rotateReplyingCommand
  generalize (if c.activeCmdQueue.length = 1 then c.tryReadMoreQuery else c) = d at ho'
  dsimp only
  cases hq : d.activeCmdQueue with
  | nil => exact ho'.of_eq rfl rfl rfl
  | cons a queue =>
    cases queue with
    | nil => exact ho'.pop hq
    | cons front queue => exact (ho'.pop hq).run

/-- The connection with a new command at the back of its queue. -/
def append (c : ClientConn C) (n : ℕ) (created : Created) (buffer : ReadBuffer) (cmd : C) :
    ClientConn C :=
  { c with
    buffer := buffer.updateParsedBytes n
    activeCmdQueue := c.activeCmdQueue ++ [⟨c.count, created, cmd⟩]
    count := c.count + 1 }

theorem startCommand_eq (n : ℕ) (created : Created) (buffer : ReadBuffer) (cmd : C) :
    c.startCommand h n created buffer cmd =
      (c.append n created buffer cmd).run ⟨c.count, created, cmd⟩ fun x =>
        ((h.startWriteQuery x).1, [.started c.count (h.startWriteQuery x).2]) := rfl

theorem Ordered.append (ho : c.Ordered) (hl : c.activeCmdQueue.length < pipelineActiveLimit)
    (n : ℕ) (created : Created) (buffer : ReadBuffer) (cmd : C) :
    (c.append n created buffer cmd).Ordered := by
  constructor
  · simp only [ClientConn.append]
    rw [← List.append_assoc, List.map_append, ho.ids, List.range_succ]
    rfl
  · simp only [ClientConn.append]
    rw [List.length_append]
    exact hl

theorem Ordered.startCommand (ho : c.Ordered) (hl : c.activeCmdQueue.length < pipelineActiveLimit)
    (n : ℕ) (created : Created) (buffer : ReadBuffer) (cmd : C) :
    (c.startCommand h n created buffer cmd).Ordered := by
  rw [startCommand_eq]
  exact (ho.append hl n created buffer cmd).run

theorem Ordered.processUnparsedQuery (ho : c.Ordered) : (c.processUnparsedQuery h).Ordered := by
  unfold ClientConn.processUnparsedQuery
  split
  next hl =>
    split
    · exact ho.of_eq rfl rfl rfl
    · exact ho.tryReadMoreQuery
    · split
      · exact ho.of_eq rfl rfl rfl
      · split
        · exact Ordered.tryReadMoreQuery (ho.of_eq rfl rfl rfl)
        · exact ho.startCommand hl.1 ..
  next => exact ho

theorem Ordered.updateProcessed (ho : c.Ordered) : c.updateProcessed.Ordered := ho.of_eq rfl rfl rfl

theorem Ordered.finishRotated (ho : c.Ordered) : (c.finishRotated h).Ordered := by
  unfold ClientConn.finishRotated
  split
  · exact ho.of_eq rfl rfl rfl
  · split
    · exact ho.of_eq rfl rfl rfl
    · split
      · exact ho.tryReadMoreQuery
      · exact ho

theorem Ordered.finishStarted (ho : c.Ordered) (id : ℕ) (noCallback : Bool) :
    (c.finishStarted h id noCallback).Ordered := by
  unfold ClientConn.finishStarted
  dsimp only
  split
  · exact ho.updateProcessed
  · split
    · split
      · exact ho.updateProcessed.tryReadMoreQuery
      · exact ho.updateProcessed
    · exact ho.of_eq rfl rfl rfl

theorem Ordered.finishParsed (ho : c.Ordered) (back : Option ℕ) :
    (c.finishParsed h back).Ordered := by
  unfold ClientConn.finishParsed
  split
  · exact ho.of_eq rfl rfl rfl
  · split
    · split
      · exact ho.of_eq rfl rfl rfl
      · exact ho.run
    · exact ho.of_eq rfl rfl rfl

theorem Ordered.finishContinued (ho : c.Ordered) (back : Option ℕ) (noCallback : Bool) :
    (c.finishContinued back noCallback).Ordered := by
  unfold ClientConn.finishContinued
  dsimp only
  split
  · split
    · exact ho.updateProcessed.tryReadMoreQuery
    · exact ho.updateProcessed
  · exact ho.of_eq rfl rfl rfl

theorem Ordered.finishUnparsed (ho : c.Ordered) (back : Option ℕ) :
    (c.finishUnparsed h back).Ordered := by
  unfold ClientConn.finishUnparsed
  split
  · exact ho.of_eq rfl rfl rfl
  · split
    · exact ho.of_eq rfl rfl rfl
    · exact ho.run

theorem Ordered.finishHandled (ho : c.Ordered) (back : Option ℕ) :
    (c.finishHandled h back).Ordered := by
  unfold ClientConn.finishHandled
  split
  · exact ho.of_eq rfl rfl rfl
  · split
    · exact ho.of_eq rfl rfl rfl
    · exact ho

theorem Ordered.writeReply (ho : c.Ordered) (id : ℕ) (data : Bytes) (b : Option ℕ) :
    (c.perform h (.effect id (.writeReply data b))).Ordered := by
  simp only [ClientConn.perform]
  split
  · exact ho.of_eq rfl rfl rfl
  · exact ho.of_eq rfl rfl rfl

theorem Ordered.perform (ho : c.Ordered) (t : Task) : (c.perform h t).Ordered := by
  cases t with
  | effect id e =>
    cases e with
    | writeReply data b => exact ho.writeReply id data b
    | rotate => exact ho.rotateReplyingCommand
    | abort => exact ho.abort
    | tryReadMoreQuery => exact ho.tryReadMoreQuery
    | decRecycleLock => exact ho.of_eq rfl rfl rfl
    | assertFailed => exact ho.of_eq rfl rfl rfl
    | crash => exact ho.of_eq rfl rfl rfl
  | rotated => exact ho.finishRotated
  | processUnparsedQuery => exact ho.processUnparsedQuery
  | started id noCallback => exact ho.finishStarted id noCallback
  | parsed back => exact ho.finishParsed back
  | continued back noCallback => exact ho.finishContinued back noCallback
  | unparsed back => exact ho.finishUnparsed back
  | handled back => exact ho.finishHandled back

theorem Ordered.handleRead (ho : c.Ordered) (chunk : Bytes) : (c.handleRead h chunk).Ordered := by
  have hr : Ordered { c with
      isReadingQuery := false
      buffer := (c.buffer.receive chunk).decRecycleLock } := ho.of_eq rfl rfl rfl
  unfold ClientConn.handleRead
  dsimp only
  split
  · exact hr.of_eq rfl rfl rfl
  · split
    · exact hr.of_eq rfl rfl rfl
    · exact hr.run

theorem Ordered.handleWrite (ho : c.Ordered) (ec : ErrorCode) : (c.handleWrite h ec).Ordered := by
  unfold ClientConn.handleWrite
  split
  · exact ho
  · dsimp only
    split
    · exact ho.of_eq rfl rfl rfl
    · exact Ordered.run (ho.of_eq rfl rfl rfl)

theorem Ordered.next (ho : c.Ordered) (e : Event) : (c.next h e).Ordered := by
  cases e with
  | step =>
    cases ht : c.todo with
    | nil => simpa only [ClientConn.next, ht] using ho
    | cons t todo =>
      simp only [ClientConn.next, ht]
      have ho' : Ordered { c with todo := todo } := ho.of_eq rfl rfl rfl
      exact ho'.perform t
  | readDone chunk => exact ho.handleRead chunk
  | readEof => exact ho.of_eq rfl rfl rfl
  | readFailed => exact ho.abort
  | writeDone => exact ho.handleWrite _
  | writeFailed => exact ho.handleWrite _
  | backend id b e =>
    simp only [ClientConn.next]
    split
    · exact ho
    · exact ho.run
  | timeout => exact ho.abort

theorem init_ordered (data : Bytes) : (init data : ClientConn C).Ordered :=
  Ordered.tryReadMoreQuery ⟨rfl, Nat.zero_le _⟩

/-- Active commands are told apart by their numbers. -/
theorem Ordered.nodup (ho : c.Ordered) : (c.activeCmdQueue.map Active.id).Nodup := by
  have hn : ((c.gone ++ c.activeCmdQueue).map Active.id).Nodup := ho.ids ▸ List.nodup_range
  rw [List.map_append] at hn
  exact List.Nodup.of_append_right hn

theorem Ordered.eq_of_id (ho : c.Ordered) {a' : Active C} (ha : a ∈ c.activeCmdQueue)
    (ha' : a' ∈ c.activeCmdQueue) (hid : a.id = a'.id) : a = a' :=
  List.inj_on_of_nodup_map ho.nodup ha ha' hid

theorem Ordered.id_lt (ho : c.Ordered) {id : ℕ} (hid : id ∈ c.activeCmdQueue.map Active.id) :
    id < c.count := by
  rw [← List.mem_range, ← ho.ids, List.map_append]
  exact List.mem_append_right _ hid

theorem find_some {id : ℕ} (hf : c.find id = some a) : a ∈ c.activeCmdQueue ∧ a.id = id :=
  ⟨List.mem_of_find?_eq_some hf, by simpa using List.find?_some hf⟩

theorem Ordered.find (ho : c.Ordered) (ha : a ∈ c.activeCmdQueue) : c.find a.id = some a := by
  cases hf : c.find a.id with
  | none =>
    have := List.find?_eq_none.mp hf a ha
    simp at this
  | some a' => rw [ho.eq_of_id ha (find_some hf).1 (find_some hf).2.symm]

theorem back_mem (hb : c.back = some a) : a ∈ c.activeCmdQueue := List.mem_of_getLast? hb

end Ordered

end ClientConn
end Yarmproxy
