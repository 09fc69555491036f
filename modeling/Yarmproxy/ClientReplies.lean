import Yarmproxy.CommandFamily
import Yarmproxy.Lists

/-! # Replies in the order of the requests

Only the first of the active commands hands bytes to the client, and it leaves the queue at the
front. So what the client reads is a sorted log: the replies of the commands in the order of their
requests, the last of them perhaps not yet complete. And between two handlers no request is left in
the buffer that could have been started. -/
namespace Yarmproxy
namespace ClientConn

variable {ε C : Type}

def output (c : ClientConn C) : Bytes := KeyedLog.text c.replies

/-- The bytes handed to the client for the command `id`. -/
def replyOf (c : ClientConn C) (id : ℕ) : Bytes := KeyedLog.textOf c.replies id

/-- A step that hands nothing to the client. -/
structure Silent (c c' : ClientConn C) : Prop where
  replies : c'.replies = c.replies
  gone : c.gone <+: c'.gone
  count : c.count ≤ c'.count

section Silent
variable {h : Family ε C} {c c' d : ClientConn C} {a : Active C} {f : Ctx C → Ctx C × List Task}

theorem Silent.of_eq (hr : c'.replies = c.replies) (hg : c'.gone = c.gone)
    (hc : c'.count = c.count) :
    c.Silent c' := ⟨hr, by rw [hg], hc.ge⟩

theorem Silent.trans (h : c.Silent c') (h' : c'.Silent d) : c.Silent d :=
  ⟨h'.replies.trans h.replies, h.gone.trans h'.gone, h.count.trans h'.count⟩

theorem silent_run : c.Silent (c.run a f) := .of_eq rfl rfl rfl

theorem silent_tryReadMoreQuery : c.Silent c.tryReadMoreQuery := by
  unfold tryReadMoreQuery
  split
  · exact .of_eq rfl rfl rfl
  · exact .of_eq rfl rfl rfl

theorem silent_abort : c.Silent c.abort := ⟨rfl, List.prefix_append .., le_rfl⟩

theorem silent_rotate : c.Silent (c.rotateReplyingCommand h) := by
  have hread : c.Silent (if c.activeCmdQueue.length = 1 then c.tryReadMoreQuery else c) := by
    split
    · exact silent_tryReadMoreQuery
    · exact .of_eq rfl rfl rfl
  unfold rotateReplyingCommand
  generalize (if c.activeCmdQueue.length = 1 then c.tryReadMoreQuery else c) = d at hread
  dsimp only
  cases hq : d.activeCmdQueue with
  | nil => exact hread.trans (.of_eq rfl rfl rfl)
  | cons a queue =>
    have hpop : c.Silent { d with activeCmdQueue := queue, gone := d.gone ++ [a] } :=
      hread.trans ⟨rfl, List.prefix_append .., le_rfl⟩
    cases queue with
    | nil => exact hpop
    | cons front queue => exact hpop.trans silent_run

theorem silent_startCommand (n : ℕ) (created : Created) (buffer : ReadBuffer) (cmd : C) :
    c.Silent (c.startCommand h n created buffer cmd) := by
  have happend : c.Silent (c.append n created buffer cmd) :=
    ⟨rfl, List.prefix_refl _, Nat.le_succ _⟩
  rw [startCommand_eq]
  exact happend.trans silent_run

theorem silent_processUnparsedQuery : c.Silent (c.processUnparsedQuery h) := by
  unfold processUnparsedQuery
  split
  · split
    · exact .of_eq rfl rfl rfl
    · exact silent_tryReadMoreQuery
    · split
      · exact .of_eq rfl rfl rfl
      next buffer _ _ =>
        split
        · have hs : c.Silent { c with buffer := buffer } := .of_eq rfl rfl rfl
          exact hs.trans silent_tryReadMoreQuery
        · exact silent_startCommand ..
  · exact .of_eq rfl rfl rfl

theorem silent_updateProcessed : c.Silent c.updateProcessed := .of_eq rfl rfl rfl

theorem silent_perform (t : Task) (ht : ∀ id data b, t ≠ .effect id (.writeReply data b)) :
    c.Silent (c.perform h t) := by
  have hread := c.silent_updateProcessed.trans silent_tryReadMoreQuery
  cases t with
  | effect id e =>
    cases e with
    | writeReply data b => exact absurd rfl (ht id data b)
    | rotate => exact silent_rotate
    | abort => exact silent_abort
    | tryReadMoreQuery => exact silent_tryReadMoreQuery
    | _ => exact .of_eq rfl rfl rfl
  | rotated =>
    simp only [perform, finishRotated]
    split
    · exact .of_eq rfl rfl rfl
    split
    · exact .of_eq rfl rfl rfl
    split
    · exact silent_tryReadMoreQuery
    · exact .of_eq rfl rfl rfl
  | processUnparsedQuery => exact silent_processUnparsedQuery
  | started id noCallback =>
    simp only [perform, finishStarted]
    split
    · exact .of_eq rfl rfl rfl
    split
    · split
      · exact hread
      · exact .of_eq rfl rfl rfl
    · exact .of_eq rfl rfl rfl
  | parsed back =>
    simp only [perform, finishParsed]
    split
    · exact .of_eq rfl rfl rfl
    split
    · split
      · exact .of_eq rfl rfl rfl
      · exact silent_run
    · exact .of_eq rfl rfl rfl
  | continued back noCallback =>
    simp only [perform, finishContinued]
    split
    · split
      · exact hread
      · exact .of_eq rfl rfl rfl
    · exact .of_eq rfl rfl rfl
  | unparsed back =>
    simp only [perform, finishUnparsed]
    split
    · exact .of_eq rfl rfl rfl
    split
    · exact .of_eq rfl rfl rfl
    · exact silent_run
  | handled back =>
    simp only [perform, finishHandled]
    split
    · exact .of_eq rfl rfl rfl
    split
    · exact .of_eq rfl rfl rfl
    · exact .of_eq rfl rfl rfl

theorem silent_handleRead (chunk : Bytes) : c.Silent (c.handleRead h chunk) := by
  have hreceived : c.Silent { c with
      isReadingQuery := false
      buffer := (c.buffer.receive chunk).decRecycleLock } := .of_eq rfl rfl rfl
  unfold handleRead
  dsimp only
  split
  · exact .of_eq rfl rfl rfl
  split
  · exact .of_eq rfl rfl rfl
  · exact hreceived.trans silent_run

theorem silent_handleWrite (ec : ErrorCode) : c.Silent (c.handleWrite h ec) := by
  have hdone : c.Silent { c with writing := none } := .of_eq rfl rfl rfl
  unfold handleWrite
  split
  · exact .of_eq rfl rfl rfl
  dsimp only
  split
  · exact hdone
  · exact hdone.trans silent_run

theorem next_silent_or_writes (h : Family ε C) (c : ClientConn C) (e : Event) :
    c.Silent (c.next h e) ∨ ∃ id data b ts, c.todo = .effect id (.writeReply data b) :: ts ∧
      c.next h e = { c with
        todo := ts
        writing := some (id, b)
        replies := c.replies ++ [(id, data)] } := by
  cases e with
  | step =>
    cases ht : c.todo with
    | nil =>
      simp only [next, ht]
      exact .inl (.of_eq rfl rfl rfl)
    | cons t ts =>
      simp only [next, ht]
      have hpop : c.Silent { c with todo := ts } := .of_eq rfl rfl rfl
      by_cases hw : ∃ id data b, t = .effect id (.writeReply data b)
      · obtain ⟨id, data, b, rfl⟩ := hw
        simp only [perform]
        split
        · exact .inl (.of_eq rfl rfl rfl)
        · exact .inr ⟨id, data, b, ts, rfl, rfl⟩
      · refine .inl (hpop.trans (silent_perform t fun id data b he => ?_))
        exact hw ⟨id, data, b, he⟩
  | readDone chunk => exact .inl (silent_handleRead chunk)
  | readEof => exact .inl (.of_eq rfl rfl rfl)
  | readFailed => exact .inl silent_abort
  | writeDone => exact .inl (silent_handleWrite _)
  | writeFailed => exact .inl (silent_handleWrite _)
  | backend id b e =>
    simp only [next]
    split
    · exact .inl (.of_eq rfl rfl rfl)
    · exact .inl silent_run
  | timeout => exact .inl silent_abort

end Silent

/-- What has been handed to the client since `c₀`: pieces for the commands that were active then or
came later, in their order, up to the one that is now at the front. -/
structure Since (c₀ c : ClientConn C) : Prop where
  gone : c₀.gone <+: c.gone
  count : c₀.count ≤ c.count
  replies : ∃ new, c.replies = c₀.replies ++ new ∧ KeyedLog.Sorted new ∧
    ∀ r ∈ new, c₀.gone.length ≤ r.1 ∧ r.1 ≤ c.gone.length ∧ r.1 < c.count

section Since
variable {h : Family ε C} {I F : C → Prop} {recv : C → Bool} {R : C → Bytes → Prop}
variable {c₀ c c' : ClientConn C}

theorem Since.refl (c : ClientConn C) : c.Since c :=
  ⟨List.prefix_refl _, le_rfl, [], (List.append_nil _).symm, List.Pairwise.nil,
    fun _ hr => absurd hr List.not_mem_nil⟩

theorem Since.silent (hs : c₀.Since c) (h : c.Silent c') : c₀.Since c' := by
  obtain ⟨new, hnew, hsorted, hbound⟩ := hs.replies
  refine ⟨hs.gone.trans h.gone, hs.count.trans h.count, new, h.replies.trans hnew, hsorted, ?_⟩
  intro r hr
  obtain ⟨h₀, h₁, h₂⟩ := hbound r hr
  exact ⟨h₀, h₁.trans h.gone.length_le, Nat.lt_of_lt_of_le h₂ h.count⟩

theorem Ordered.front_id (ho : c.Ordered) {id : ℕ} (hf : c.ids.head? = some id) :
    id = c.gone.length ∧ id < c.count := by
  have hids := ho.ids
  have hlt := ho.id_lt (List.mem_of_head? hf)
  refine ⟨?_, hlt⟩
  have hget : (List.range c.count)[c.gone.length]? = some id := by
    rw [← hids, List.map_append, List.getElem?_append_right (by rw [List.length_map]),
      List.length_map, Nat.sub_self, ← List.head?_eq_getElem?]
    exact hf
  rw [List.getElem?_range (by
    have := (List.getElem?_eq_some_iff.mp hget).1
    rwa [List.length_range] at this)] at hget
  exact (Option.some.inj hget).symm

theorem Ordered.gone_ids (ho : c.Ordered) : c.gone.map Active.id = List.range c.gone.length := by
  have hids := congrArg (List.take c.gone.length) ho.ids
  have hle : c.gone.length ≤ c.count := by
    have := congrArg List.length ho.ids
    rw [List.length_map, List.length_append, List.length_range] at this
    omega
  rwa [← List.map_take, List.take_left, List.take_range, Nat.min_eq_left hle] at hids

theorem Since.write (hs : c₀.Since c) {id : ℕ} {data : Bytes} (hid : id = c.gone.length)
    (hlt : id < c.count) (hr : c'.replies = c.replies ++ [(id, data)]) (hg : c'.gone = c.gone)
    (hc : c'.count = c.count) : c₀.Since c' := by
  obtain ⟨new, hnew, hsorted, hbound⟩ := hs.replies
  refine ⟨hg ▸ hs.gone, hc ▸ hs.count, new ++ [(id, data)], ?_, ?_, ?_⟩
  · rw [hr, hnew, List.append_assoc]
  · refine hsorted.append (KeyedLog.sorted_singleton _) fun r hr r' hr' => ?_
    rw [List.mem_singleton.mp hr', hid]
    exact (hbound r hr).2.1
  · intro r hr
    rw [hg, hc]
    rcases List.mem_append.mp hr with hr | hr
    · exact hbound r hr
    · rw [List.mem_singleton.mp hr]
      exact ⟨hid ▸ hs.gone.length_le, hid.le, hlt⟩

theorem Since.next (hs : c₀.Since c) (hi : c.Inv h I recv) (hsound : c.Sound h I recv) (e : Event) :
    c₀.Since (c.next h e) := by
  rcases next_silent_or_writes h c e with hsilent | ⟨id, data, b, ts, ht, he⟩
  · exact hs.silent hsilent
  · have hstage := hsound.stage
    rw [ht] at hstage
    obtain ⟨hid, hlt⟩ := hi.ordered.front_id (ClientConn.front_id.mp hstage.1)
    rw [he]
    exact hs.write hid hlt rfl rfl rfl

theorem reachable_since (hd : h.Disciplined I recv F R) {A : Answers C} (hi : c₀.Inv h I recv)
    (hrun : Transition.Execution (system h A) (Readable h R) c₀ c) :
    c.Inv h I recv ∧ (c.live → c.Doomed ∨ c₀.Since c) := by
  refine hrun.invariant (I := fun c => c.Inv h I recv ∧ (c.live → c.Doomed ∨ c₀.Since c))
    ⟨hi, fun _ => .inr (.refl c₀)⟩ fun c e hc he hr => ?_
  obtain ⟨hi, hs⟩ := hc
  refine ⟨hi.next hd he hr, fun hlive => ?_⟩
  rcases hs (Enabled.live he) with hdoomed | hs
  · exact .inl (hdoomed.next he hlive)
  rcases hi.sound (Enabled.live he) with hdoomed | hsound
  · exact .inl (hdoomed.next he hlive)
  · exact .inr (hs.next hi hsound e)

theorem Inv.since (hd : h.Disciplined I recv F R) {A : Answers C} (hi : c₀.Inv h I recv)
    (hrun : Transition.Execution (system h A) (Readable h R) c₀ c) (hq : c.Quiescent) :
    c₀.Since c :=
  ((reachable_since hd hi hrun).2 hq.1).resolve_left fun hdoomed => hdoomed.todo_ne_nil hq.2

end Since

section Results
variable [DecidableEq ε] [Inhabited ε] {env : AnyCommand.Env ε} {A : Answers (AnyCommand ε)}
variable {data : Bytes} {c₀ c : ClientConn (AnyCommand ε)}

/-- At any moment the client has been handed, in the order of their requests, all that is ever
handed out for the commands that have left the queue, and behind it the beginning of what is handed
out for the front. -/
theorem replies_in_order (hl : data.length ≤ 2 ^ 20)
    (hrun₀ : Transition.Execution (system (AnyCommand.family env) A)
      (Readable (AnyCommand.family env) AnyCommand.Rest) (init data) c₀) (hq₀ : c₀.Quiescent)
    (hrun : Transition.Execution (system (AnyCommand.family env) A)
      (Readable (AnyCommand.family env) AnyCommand.Rest) c₀ c) (hq : c.Quiescent) :
    c₀.gone.map Active.id = List.range c₀.gone.length ∧
      c₀.output = (List.range c₀.gone.length).flatMap c.replyOf ++ c₀.replyOf c₀.gone.length ∧
      c₀.replyOf c₀.gone.length <+: c.replyOf c₀.gone.length := by
  have hd := AnyCommand.family_disciplined env
  have hi := reachable_inv hd hl hrun₀
  obtain ⟨-, -, old, hold, hsorted, hbound⟩ := (init_inv data hl).since hd hrun₀ hq₀
  obtain ⟨-, -, new, hnew, -, hlater⟩ := hi.since hd hrun hq
  have hempty : (init data : ClientConn (AnyCommand ε)).replies = [] :=
    silent_tryReadMoreQuery.replies
  rw [hempty, List.nil_append] at hold
  refine ⟨hi.ordered.gone_ids, ?_⟩
  have hpart := hsorted.text_part (fun r hr => (hbound r hr).2.1) fun r hr => (hlater r hr).1
  rw [← hold, ← hnew] at hpart
  exact hpart

/-- No request is left behind: with room in the queue and the last request received, what is in the
buffer is not yet a request. -/
theorem no_request_left (hl : data.length ≤ 2 ^ 20)
    (hrun : Transition.Execution (system (AnyCommand.family env) A)
      (Readable (AnyCommand.family env) AnyCommand.Rest) (init data) c) (hq : c.Quiescent) :
    c.activeCmdQueue.length ≤ pipelineActiveLimit ∧
      (c.activeCmdQueue.length < pipelineActiveLimit →
        (∀ a, c.back = some a → (AnyCommand.family env).queryRecvComplete a.cmd = true) →
        createCommand c.buffer.bufferSize c.buffer.unprocessedData c.buffer.receivedBytes =
            some (0, none) ∧ c.buffer.parsedOffset = c.buffer.processedOffset) := by
  have hd := AnyCommand.family_disciplined env
  have hi := reachable_inv hd hl hrun
  have hs := hi.quiescent hq
  have hstage := hs.stage
  rw [hq.2] at hstage
  refine ⟨hi.ordered.limit, fun hroom hback => ?_⟩
  have hcomplete : (c.view (AnyCommand.family env) AnyCommand.received).Complete := by
    intro m hm
    rw [view_back] at hm
    obtain ⟨a, ha, rfl⟩ := Option.map_eq_some_iff.mp hm
    rw [complete_mark hd (hs.held a (back_mem ha))]
    exact hback a ha
  have hwaits : Waits c.buffer.bufferSize c.buffer.queued := by
    refine hstage.2 ?_ hcomplete
    rw [view, List.length_map]
    exact hroom
  have hahead : c.buffer.ahead = 0 := hstage.1.ahead_eq hcomplete
  constructor
  · rw [ReadBuffer.receivedBytes_eq hs.valid]
    apply hwaits
    rw [ReadBuffer.unprocessedData_bytes hs.valid le_rfl, List.take_length]
  · have hle := hs.valid.processed_parsed
    rw [ReadBuffer.ahead] at hahead
    omega

/-- The commands at hand have been received, and the buffer holds no array and no data block. -/
def Whole (env : AnyCommand.Env ε) (c : ClientConn (AnyCommand ε)) (_ : Event) : Prop :=
  c.buffer.unprocessedData.rest.getD 0 0 ≠ ch '*' ∧
    (∀ r ∈ createCommand c.buffer.bufferSize c.buffer.unprocessedData c.buffer.receivedBytes,
      ∀ created ∈ r.2, created.whole = true) ∧
    ∀ a ∈ c.activeCmdQueue, (AnyCommand.family env).queryRecvComplete a.cmd = true ∧
      (AnyCommand.family env).queryParsingComplete a.cmd = true

instance (env : AnyCommand.Env ε) (c : ClientConn (AnyCommand ε)) (e : Event) :
    Decidable (Whole env c e) := inferInstanceAs (Decidable (_ ∧ _ ∧ _))

theorem Whole.readable {e : Event} (hw : Whole env c e) :
    Readable (AnyCommand.family env) AnyCommand.Rest c e := by
  obtain ⟨harray, hcreate, hactive⟩ := hw
  cases e with
  | step =>
    intro t _
    cases t with
    | processUnparsedQuery =>
      intro _ _
      refine .inr ⟨fun h => absurd h harray, fun k key hk => ?_⟩
      exact absurd (hcreate _ hk _ rfl) Bool.false_ne_true
    | unparsed back =>
      intro a ha hp
      obtain ⟨id, -, hfind⟩ := Option.bind_eq_some_iff.mp ha
      exact absurd ((hactive a (find_some hfind).1).2.symm.trans hp) Bool.false_ne_true.symm
    | _ => exact trivial
  | readDone chunk =>
    intro a ha hr
    exact absurd ((hactive a (back_mem ha)).1.symm.trans hr) Bool.false_ne_true.symm
  | _ => exact trivial

end Results

def byFirstByte : AnyCommand.Env ℕ :=
  ⟨fun _ key => (key.headD 0).toNat, fun _ _ => (List.replicate 64 0, false), fun _ _ => []⟩

def behind (events : List Event) (c : ClientConn (AnyCommand ℕ)) : ClientConn (AnyCommand ℕ) :=
  Transition.runTrace (system (AnyCommand.family byFirstByte) fun _ _ _ => True) c events

/-- Two requests in one read; the backend of the second one answers first. -/
def crossing : List Event :=
  .readDone (ascii "delete a\r\ndelete b\r\n") :: List.replicate 8 .step ++
    [.backend 1 0 .connected, .backend 1 0 .queryWritten,
      .backend 1 0 (.replyRead (ascii "DELETED\r\n")),
      .backend 0 0 .connected, .backend 0 0 .queryWritten,
      .backend 0 0 (.replyRead (ascii "NOT_FOUND\r\n")), .step, .writeDone] ++
        List.replicate 4 .step

/-- The first command has left, and the second one has written its reply. -/
def crossed : ClientConn (AnyCommand ℕ) := behind crossing (init (List.replicate 64 0))

theorem crossed_run :
    Transition.Execution (system (AnyCommand.family byFirstByte) fun _ _ _ => True)
    (Readable (AnyCommand.family byFirstByte) AnyCommand.Rest)
      (init (List.replicate 64 0)) crossed := by
  have htrace : Transition.ValidTrace (system (AnyCommand.family byFirstByte) fun _ _ _ => True)
      (Whole byFirstByte) (init (List.replicate 64 0)) crossing := by decide +kernel
  exact (Transition.ValidTrace.execution .refl htrace).mono fun _ _ hw => hw.readable

theorem crossing_in_order :
    (List.replicate 64 0 : Bytes).length ≤ 2 ^ 20 ∧ crossed.Quiescent ∧
    (behind [.writeDone, .step] crossed).Quiescent ∧
    crossed.output = ascii "NOT_FOUND\r\nDELETED\r\n" ∧
    crossed.gone.map Active.id = List.range crossed.gone.length ∧
    crossed.output = (List.range crossed.gone.length).flatMap
      (behind [.writeDone, .step] crossed).replyOf ++ crossed.replyOf crossed.gone.length ∧
    crossed.replyOf crossed.gone.length <+:
      (behind [.writeDone, .step] crossed).replyOf crossed.gone.length := by
  have hq : crossed.Quiescent := by decide +kernel
  have hq' : (behind [.writeDone, .step] crossed).Quiescent := by decide +kernel
  have htrace : Transition.ValidTrace (system (AnyCommand.family byFirstByte) fun _ _ _ => True)
      (Whole byFirstByte) crossed [.writeDone, .step] := by decide +kernel
  have hrest := (Transition.ValidTrace.execution .refl htrace).mono fun _ _ hw => hw.readable
  exact ⟨by decide, hq, hq', by decide +kernel,
    replies_in_order (by decide) crossed_run hq hrest hq'⟩

theorem crossed_none_left :
    (List.replicate 64 0 : Bytes).length ≤ 2 ^ 20 ∧ crossed.Quiescent ∧
    crossed.activeCmdQueue.length ≤ pipelineActiveLimit ∧
      (crossed.activeCmdQueue.length < pipelineActiveLimit →
        (∀ a, crossed.back = some a →
          (AnyCommand.family byFirstByte).queryRecvComplete a.cmd = true) →
        createCommand crossed.buffer.bufferSize crossed.buffer.unprocessedData
            crossed.buffer.receivedBytes = some (0, none) ∧
          crossed.buffer.parsedOffset = crossed.buffer.processedOffset) := by
  have hq : crossed.Quiescent := by decide +kernel
  exact ⟨by decide, hq, no_request_left (by decide) crossed_run hq⟩

end ClientConn
end Yarmproxy
