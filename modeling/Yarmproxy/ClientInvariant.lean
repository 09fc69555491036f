import Yarmproxy.Discipline
import Yarmproxy.ClientOrder

/-! # The invariant of a client connection

A connection whose commands keep the contract keeps its buffer, its queue and its tasks
together: `Sound`, from task to task and from handler to handler. -/
namespace Yarmproxy
namespace ClientConn

variable {ε C : Type}

section View
variable (h : Family ε C) (recv : C → Bool)

def mark (a : Active C) : Mark := ⟨a.id, recv a.cmd, h.queryParsingComplete a.cmd⟩

def view (c : ClientConn C) : View :=
  ⟨c.activeCmdQueue.map (mark h recv), c.buffer.queued, c.buffer.ahead, c.buffer.bufferSize,
    c.isReadingQuery⟩

end View

/-- The next tasks end the connection: a handler has asked for it, or the back of the empty
queue is looked at. -/
def Doomed (c : ClientConn C) : Prop :=
  (∃ id es ts, c.todo = es.map (Task.effect id) ++ ts ∧ Terminal es) ∨
    c.activeCmdQueue = [] ∧ .rotated ∈ c.todo ∧ ∀ t ∈ c.todo, t.later = true

def ids (c : ClientConn C) : List ℕ := c.activeCmdQueue.map Active.id

/-- The client write in flight is that of the first command, if its command is still there. -/
structure FrontWrites (c : ClientConn C) : Prop where
  created : ∀ id b, c.writing = some (id, b) → id < c.count
  front : ∀ id b, c.writing = some (id, b) → id ∈ c.ids → c.ids.head? = some id

/-- What holds whatever is still to be done. -/
structure Base (h : Family ε C) (I : C → Prop) (recv : C → Bool) (c : ClientConn C) : Prop where
  valid : c.buffer.Valid
  held : ∀ a ∈ c.activeCmdQueue, I a.cmd
  earlier : ∀ m ∈ (c.view h recv).marks.dropLast, m.complete = true
  reads : c.isReadingQuery = true → (c.view h recv).Complete →
    Waits c.buffer.bufferSize c.buffer.queued
  writes : c.FrontWrites

structure Sound (h : Family ε C) (I : C → Prop) (recv : C → Bool) (c : ClientConn C) : Prop
    extends Base h I recv c where
  stage : Stage c.todo (c.view h recv)

section Sound
variable {h : Family ε C} {I F : C → Prop} {recv : C → Bool} {R : C → Bytes → Prop}
variable {c : ClientConn C} {a : Active C} {f : Ctx C → Ctx C × List Task}

theorem FrontWrites.of_eq {c' : ClientConn C} (hw : c.FrontWrites) (hi : c'.ids = c.ids)
    (hc : c'.count = c.count) (hwr : c'.writing = c.writing) : c'.FrontWrites :=
  ⟨by rw [hwr, hc]; exact hw.created, by rw [hwr, hi]; exact hw.front⟩

theorem FrontWrites.run (hw : c.FrontWrites) : (c.run a f).FrontWrites :=
  hw.of_eq (ids_setCmd ..) rfl rfl

theorem mem_marks (ha : a ∈ c.activeCmdQueue) : mark h recv a ∈ (c.view h recv).marks :=
  List.mem_map_of_mem ha

theorem view_back : (c.view h recv).back = c.back.map (mark h recv) := List.getLast?_map ..

theorem view_front : (c.view h recv).front = c.activeCmdQueue.head?.map (mark h recv) :=
  List.head?_map ..

theorem front_of_isFirst (ho : c.Ordered) (ha : a ∈ c.activeCmdQueue) (hf : c.isFirst a.id = true) :
    (c.view h recv).front = some (mark h recv a) := by
  rw [view_front]
  rw [isFirst] at hf
  cases hq : c.activeCmdQueue.head? with
  | none =>
    rw [hq] at hf
    cases hf
  | some a' =>
    rw [hq, Option.any_some, decide_eq_true_eq] at hf
    rw [ho.eq_of_id (List.mem_of_head? hq) ha hf]
    rfl

theorem front_id {id : ℕ} : (∃ m, (c.view h recv).front = some m ∧ m.id = id) ↔
    c.ids.head? = some id := by
  rw [view_front, ids, List.head?_map]
  cases c.activeCmdQueue.head? <;> simp [mark]

theorem isFirst_iff {id : ℕ} : c.isFirst id = true ↔ c.ids.head? = some id := by
  rw [isFirst, ids, List.head?_map]
  cases c.activeCmdQueue.head? <;> simp

theorem complete_mark (hd : h.Disciplined I recv F R) (ha : I a.cmd) :
    (mark h recv a).complete = h.queryRecvComplete a.cmd := (hd.complete _ ha).symm

theorem Base.back_of_incomplete (hd : h.Disciplined I recv F R) (hb : c.Base h I recv)
    (ha : a ∈ c.activeCmdQueue) (hc : h.queryRecvComplete a.cmd = false) : c.back = some a := by
  have hne := List.ne_nil_of_mem ha
  have hsplit := List.dropLast_append_getLast hne
  rw [← hsplit, List.mem_append, List.mem_singleton] at ha
  rcases ha with hearlier | hlast
  · have hmark := hb.earlier (mark h recv a) (by
      rw [view, ← List.map_dropLast]
      exact List.mem_map_of_mem hearlier)
    rw [complete_mark hd (hb.held a (List.dropLast_subset _ hearlier)), hc] at hmark
    cases hmark
  · rw [back, List.getLast?_eq_some_getLast hne, hlast]

/-- The context in which a handler of `a` runs. -/
abbrev ctx (c : ClientConn C) (a : Active C) : Ctx C := ⟨c.buffer, c.isFirst a.id, a.cmd, []⟩

theorem view_run_minor (ho : c.Ordered) (ha : a ∈ c.activeCmdQueue)
    (hm : Minor h.toHandlers I recv (c.ctx a) (f (c.ctx a)).1) :
    (c.run a f).view h recv = c.view h recv := by
  have hmarks : (c.run a f).activeCmdQueue.map (mark h recv) =
      c.activeCmdQueue.map (mark h recv) := by
    simp only [run, setCmd, List.map_map]
    apply List.map_congr_left
    intro a' ha'
    simp only [Function.comp_apply]
    split
    next hid =>
      obtain rfl := ho.eq_of_id ha' ha hid
      simp only [mark, hm.parsed, hm.received]
    next => rfl
  have hq : (c.run a f).buffer.queued = c.buffer.queued := hm.kept.queued
  have hah : (c.run a f).buffer.ahead = c.buffer.ahead := hm.kept.ahead
  have hsz : (c.run a f).buffer.bufferSize = c.buffer.bufferSize := hm.kept.bufferSize
  rw [view, view, hmarks, hq, hah, hsz]
  rfl

theorem Base.held_others (hb : c.Base h I recv) (a : Active C) :
    ∀ a' ∈ c.activeCmdQueue, a'.id ≠ a.id → I a'.cmd := fun a' ha' _ => hb.held a' ha'

theorem held_run (hh : ∀ a' ∈ c.activeCmdQueue, a'.id ≠ a.id → I a'.cmd)
    (hi : I (f (c.ctx a)).1.cmd) : ∀ a' ∈ (c.run a f).activeCmdQueue, I a'.cmd := by
  intro a' ha'
  obtain ⟨a₀, ha₀, rfl⟩ := List.mem_map.mp ha'
  split
  · exact hi
  next hid => exact hh a₀ ha₀ hid

/-- The effects of a handler that ends the connection come first. -/
theorem doomed_run (hf : Terminal (f (c.ctx a)).1.effects) : (c.run a f).Doomed :=
  .inl ⟨a.id, _, _, rfl, hf⟩

theorem Base.of_view {c' : ClientConn C} (hb : c.Base h I recv) (hv : c'.buffer.Valid)
    (hh : ∀ a ∈ c'.activeCmdQueue, I a.cmd) (hview : c'.view h recv = c.view h recv)
    (hw : c'.FrontWrites) : c'.Base h I recv := by
  have hr : c'.isReadingQuery = c.isReadingQuery := congrArg View.reading hview
  have hs : c'.buffer.bufferSize = c.buffer.bufferSize := congrArg View.size hview
  have hq : c'.buffer.queued = c.buffer.queued := congrArg View.queued hview
  exact ⟨hv, hh, by rw [hview]; exact hb.earlier, by rw [hview, hr, hs, hq]; exact hb.reads, hw⟩

theorem run_minor (hd : h.Disciplined I recv F R) (ho : c.Ordered) (hb : c.Base h I recv)
    (ha : a ∈ c.activeCmdQueue)
    (hi : (c.view h recv).Idle ((f (c.ctx a)).2 ++ c.todo))
    (hm : Terminal (f (c.ctx a)).1.effects ∨ Minor h.toHandlers I recv (c.ctx a) (f (c.ctx a)).1) :
    (c.run a f).Doomed ∨ (c.run a f).Sound h I recv := by
  rcases hm with hm | hm
  · exact .inl (doomed_run hm)
  have hview := view_run_minor ho ha hm
  refine .inr ⟨hb.of_view hm.kept.valid (held_run (hb.held_others a) hm.inv) hview
    hb.writes.run, ?_⟩
  rw [hview]
  exact .of_emits hm.emits (mem_marks ha) rfl (complete_mark hd (hb.held a ha))
    (front_of_isFirst ho ha) hi

theorem back_split (hb : c.back = some a) : ∃ init, c.activeCmdQueue = init ++ [a] :=
  List.getLast?_eq_some_iff.mp hb

theorem view_run_back (ho : c.Ordered) {init : List (Active C)}
    (hq : c.activeCmdQueue = init ++ [a]) :
    (c.run a f).view h recv =
      ⟨init.map (mark h recv) ++
          [⟨a.id, recv (f (c.ctx a)).1.cmd, h.queryParsingComplete (f (c.ctx a)).1.cmd⟩],
        (f (c.ctx a)).1.buffer.queued, (f (c.ctx a)).1.buffer.ahead,
        (f (c.ctx a)).1.buffer.bufferSize, c.isReadingQuery⟩ := by
  have hmarks : (c.run a f).activeCmdQueue.map (mark h recv) = init.map (mark h recv) ++
      [⟨a.id, recv (f (c.ctx a)).1.cmd, h.queryParsingComplete (f (c.ctx a)).1.cmd⟩] := by
    have hn := ho.nodup
    rw [hq, List.map_append] at hn
    have hne : ∀ a' ∈ init, a'.id ≠ a.id := fun a' ha' hid =>
      List.disjoint_of_nodup_append hn (List.mem_map_of_mem ha') (by simp [hid])
    simp only [run, setCmd, hq, List.map_append, List.map_map]
    congr 1
    · apply List.map_congr_left
      intro a' ha'
      simp only [Function.comp_apply, if_neg (hne a' ha')]
    · simp [mark]
  rw [view, hmarks]
  rfl

theorem Base.run_back {I' : C → Prop} (hb : c.Base h I' recv) (ho : c.Ordered)
    (hh : ∀ a' ∈ c.activeCmdQueue, a'.id ≠ a.id → I a'.cmd) (hback : c.back = some a)
    (hr : c.isReadingQuery = false) (hv : (f (c.ctx a)).1.buffer.Valid)
    (hi : I (f (c.ctx a)).1.cmd) : (c.run a f).Base h I recv := by
  obtain ⟨init, hq⟩ := back_split hback
  refine ⟨hv, held_run hh hi, ?_, fun hr' => ?_, hb.writes.run⟩
  · have he := hb.earlier
    rw [view, hq, List.map_append, List.map_singleton, List.dropLast_concat] at he
    rw [view_run_back ho hq, List.dropLast_concat]
    exact he
  · exact absurd (hr.symm.trans hr') nofun

theorem run_sends {I' : C → Prop} (ho : c.Ordered) (hb : c.Base h I' recv)
    (hh : ∀ a' ∈ c.activeCmdQueue, a'.id ≠ a.id → I a'.cmd) (hback : c.back = some a)
    (hr : c.isReadingQuery = false)
    (hrecv : recv a.cmd = true → c.buffer.parsedUnreceivedBytes = 0)
    (hstage : ∀ v m, v.reading = false → v.Sending a.id m → Stage ((f (c.ctx a)).2 ++ c.todo) v)
    (hs : Terminal (f (c.ctx a)).1.effects ∨ Sends h.toHandlers I recv (c.ctx a) (f (c.ctx a)).1) :
    (c.run a f).Doomed ∨ (c.run a f).Sound h I recv := by
  rcases hs with hs | hs
  · exact .inl (doomed_run hs)
  obtain ⟨init, hq⟩ := back_split hback
  have hfront : c.isFirst a.id = true →
      ∃ m, ((c.run a f).view h recv).front = some m ∧ m.id = a.id := by
    rw [isFirst_iff, front_id, ids, ids, show (c.run a f).activeCmdQueue.map Active.id =
      c.activeCmdQueue.map Active.id from ids_setCmd ..]
    exact id
  refine .inr ⟨hb.run_back ho hh hback hr hs.kept.valid hs.inv, .of_sending hs.plain hfront ?_⟩
  have hpu : c.buffer.parsedUnreceivedBytes = 0 ↔
      (f (c.ctx a)).1.buffer.ahead ≤ (f (c.ctx a)).1.buffer.queued.length := by
    have ha : (f (c.ctx a)).1.buffer.ahead = c.buffer.ahead := hs.kept.ahead
    have hq : (f (c.ctx a)).1.buffer.queued = c.buffer.queued := hs.kept.queued
    rw [ReadBuffer.parsedUnreceivedBytes_eq hb.valid, ha, hq]
    omega
  rw [view_run_back ho hq]
  refine hstage _ _ hr ⟨List.getLast?_concat .., rfl, fun hm => ?_, fun hp hle => ?_⟩
  · exact hpu.mp ((hs.received hm).elim hrecv id)
  · exact hs.complete (hs.parsed ▸ hp) (hpu.mpr hle)

theorem tryRead_sound (hb : c.Base h I recv)
    (hw : (c.view h recv).Complete → Waits c.buffer.bufferSize c.buffer.queued)
    (hs : ∀ r, Stage c.todo { c.view h recv with reading := r }) :
    c.tryReadMoreQuery.Sound h I recv := by
  unfold tryReadMoreQuery
  split
  · exact ⟨hb, hs c.isReadingQuery⟩
  · exact ⟨⟨ReadBuffer.incRecycleLock_valid hb.valid, hb.held, hb.earlier, fun _ => hw,
      hb.writes.of_eq rfl rfl rfl⟩, hs true⟩

/-- When the last command is incomplete nothing has to be waited for. -/
theorem tryRead_sound_of_incomplete (hb : c.Base h I recv) {m : Mark}
    (hback : (c.view h recv).back = some m) (hm : m.complete = false)
    (ha : (c.view h recv).Aligned) (hl : ∀ t ∈ c.todo, t.later = true) :
    c.tryReadMoreQuery.Sound h I recv :=
  tryRead_sound hb (fun hc => absurd hc (View.not_complete hback hm)) fun _ =>
    .of_idle ⟨⟨ha.received, ha.empty, ha.pending⟩, .inl (View.Settled.of_incomplete hback hm), hl⟩
      fun _ => View.marks_ne_nil hback

theorem sound_of_incomplete (hb : c.Base h I recv) {m : Mark}
    (hback : (c.view h recv).back = some m) (hm : m.complete = false)
    (ha : (c.view h recv).Aligned) (hl : ∀ t ∈ c.todo, t.later = true) : c.Sound h I recv :=
  ⟨hb, .of_idle ⟨ha, .inl (View.Settled.of_incomplete hback hm), hl⟩
    fun _ => View.marks_ne_nil hback⟩

@[simp] theorem view_push (t : Task) : (c.push t).view h recv = c.view h recv := rfl

theorem Base.push (hb : c.Base h I recv) (t : Task) : (c.push t).Base h I recv :=
  ⟨hb.valid, hb.held, hb.earlier, hb.reads, hb.writes.of_eq rfl rfl rfl⟩

theorem view_updateProcessed (h : Family ε C) (recv : C → Bool) (hv : c.buffer.Valid) :
    c.updateProcessed.view h recv = (c.view h recv).processed := by
  have hn := ReadBuffer.unprocessedBytes_eq hv
  have hq := ReadBuffer.queued_updateProcessedBytes hv
    (Nat.min_le_left c.buffer.queued.length c.buffer.ahead)
    (Nat.min_le_right ..)
  have ha :=
    ReadBuffer.ahead_updateProcessedBytes hv (Nat.min_le_left c.buffer.queued.length c.buffer.ahead)
    (Nat.min_le_right ..)
  simp only [view, updateProcessed, View.processed, hn, hq, ha,
    ReadBuffer.bufferSize_updateProcessedBytes]

theorem Base.updateProcessed (hb : c.Base h I recv) (hr : c.isReadingQuery = false) :
    c.updateProcessed.Base h I recv := by
  have hn := ReadBuffer.unprocessedBytes_eq hb.valid
  refine ⟨?_, hb.held, ?_, fun hr' => absurd (hr.symm.trans hr') nofun,
    hb.writes.of_eq rfl rfl rfl⟩
  · simp only [ClientConn.updateProcessed, hn]
    exact ReadBuffer.updateProcessedBytes_valid hb.valid (Nat.min_le_left ..) (Nat.min_le_right ..)
  · rw [view_updateProcessed h recv hb.valid]
    exact hb.earlier

/-- The buffer behind a handler that has sent: what is missing, and whether that is all. -/
theorem Base.missing (hb : c.Base h I recv) (hr : c.isReadingQuery = false) :
    c.updateProcessed.buffer.parsedUnreceivedBytes =
      (c.view h recv).ahead - (c.view h recv).queued.length := by
  have hv := (hb.updateProcessed hr).valid
  have hview := view_updateProcessed h recv hb.valid
  have hq : c.updateProcessed.buffer.queued = (c.view h recv).processed.queued :=
    congrArg View.queued hview
  have ha : c.updateProcessed.buffer.ahead = (c.view h recv).processed.ahead :=
    congrArg View.ahead hview
  rw [ReadBuffer.parsedUnreceivedBytes_eq hv, hq, ha, View.missing_processed]

theorem finishStarted_sound (ho : c.Ordered) (hb : c.Base h I recv)
    (hr : c.isReadingQuery = false) {id : ℕ} {m : Mark} (hs : (c.view h recv).Sending id m)
    (hl : ∀ t ∈ c.todo, t.later = true) (noCallback : Bool) :
    (c.finishStarted h id noCallback).Sound h I recv := by
  obtain ⟨a, hback, rfl⟩ := Option.map_eq_some_iff.mp (view_back.symm.trans hs.back)
  obtain rfl := hs.id_eq
  have hb' := hb.updateProcessed hr
  have hview := view_updateProcessed h recv hb.valid
  have hback' : (c.updateProcessed.view h recv).back = some (mark h recv a) := hview ▸ hs.back
  have ha' : (c.updateProcessed.view h recv).Aligned := hview ▸ hs.aligned
  have hfind : c.updateProcessed.find a.id = some a := ho.find (back_mem hback)
  simp only [finishStarted, mark, hfind, hb.missing hr]
  split
  next hw =>
    have hm : (mark h recv a).complete = false := by
      rw [Mark.complete, Bool.and_eq_false_iff]
      rcases hw with hw | hw
      · left
        rw [Bool.eq_false_iff]
        intro hrecv
        have := hs.received hrecv
        omega
      · exact .inr hw
    split
    · exact tryRead_sound_of_incomplete hb' hback' hm ha' hl
    · exact sound_of_incomplete hb' hback' hm ha' hl
  next hw =>
    rw [not_or, Bool.not_eq_false] at hw
    have hrecv := hs.complete hw.2 (by omega)
    refine ⟨hb'.push _, ha', .inl fun m' hm' => ?_, fun hn => absurd hn (View.marks_ne_nil hback'),
      hl⟩
    obtain rfl := Option.some.inj (hback'.symm.trans hm')
    exact Bool.and_eq_true_iff.mpr ⟨hrecv, hw.2⟩

theorem finishRotated_sound (hd : h.Disciplined I recv F R) (hb : c.Base h I recv)
    (ha : (c.view h recv).Aligned) (hl : ∀ t ∈ c.todo, t.later = true)
    (hlive : (c.finishRotated h).live) : (c.finishRotated h).Sound h I recv := by
  unfold finishRotated at hlive ⊢
  cases hback : c.back with
  | none =>
    rw [hback] at hlive
    exact absurd hlive.2 nofun
  | some a =>
    have hback' : (c.view h recv).back = some (mark h recv a) := by rw [view_back, hback]; rfl
    have hm := complete_mark hd (hb.held a (back_mem hback))
    dsimp only
    split
    next hc =>
      refine ⟨hb.push _, ha, .inl fun m' hm' => ?_, fun hn => absurd hn (View.marks_ne_nil hback'),
        hl⟩
      obtain rfl := Option.some.inj (hback'.symm.trans hm')
      exact hm.trans hc
    next hc =>
      have hm' : (mark h recv a).complete = false := hm.trans (Bool.not_eq_true _ ▸ hc)
      split
      · exact tryRead_sound_of_incomplete hb hback' hm' ha hl
      · exact sound_of_incomplete hb hback' hm' ha hl

/-- The command that a handler of the source holds as `back_cmd`. -/
theorem bind_find_back (ho : c.Ordered) {back : Option ℕ}
    (hback : back = (c.view h recv).back.map Mark.id) : back.bind c.find = c.back := by
  rw [hback, view_back, Option.map_map]
  cases hb : c.back with
  | none => rfl
  | some a => exact ho.find (back_mem hb)

theorem finishParsed_sound (hd : h.Disciplined I recv F R) (ho : c.Ordered) (hb : c.Base h I recv)
    (hr : c.isReadingQuery = false) (ha : (c.view h recv).Aligned) {back : Option ℕ}
    (hback : back = (c.view h recv).back.map Mark.id) (ht : c.todo = []) :
    (c.finishParsed h back).Doomed ∨ (c.finishParsed h back).Sound h I recv := by
  have hnot : ¬ c.buffer.parsedOffset < c.buffer.processedOffset :=
    Nat.not_lt.mpr hb.valid.processed_parsed
  unfold finishParsed
  rw [if_neg hnot, bind_find_back ho hback]
  split
  next hpos =>
    cases hb' : c.back with
    | none =>
      have := ha.empty (by rw [view_back, hb']; rfl)
      exact absurd hpos (by rw [ReadBuffer.parsedUnprocessedBytes_eq]; exact this ▸ Nat.lt_irrefl 0)
    | some a =>
      have hback' : (c.view h recv).back = some (mark h recv a) := by rw [view_back, hb']; rfl
      have hrecv : recv a.cmd = false := by
        rw [Bool.eq_false_iff]
        intro hrecv
        have := ha.received _ hback' hrecv
        exact absurd hpos
          (by rw [ReadBuffer.parsedUnprocessedBytes_eq]; exact this ▸ Nat.lt_irrefl 0)
      refine run_sends ho hb (hb.held_others a) hb' hr
        (fun hr' => absurd (hrecv.symm.trans hr') nofun) ?_
        (hd.continue_ _ (hb.held a (back_mem hb')) hb.valid rfl hrecv)
      intro v m hv hs
      refine ⟨hv, ⟨a.id, m, ?_, hs⟩, ht⟩
      rw [hback, hback']
      rfl
  next hpos =>
    rw [ReadBuffer.parsedUnprocessedBytes_eq] at hpos
    exact .inr ⟨hb.push _, hr, ha, Nat.eq_zero_of_not_pos hpos, hback, ht⟩

theorem finishContinued_sound (hb : c.Base h I recv) (hr : c.isReadingQuery = false) {id : ℕ}
    {m : Mark} (hs : (c.view h recv).Sending id m) (ht : c.todo = []) (noCallback : Bool) :
    (c.finishContinued (some id) noCallback).Sound h I recv := by
  have hb' := hb.updateProcessed hr
  have hview := view_updateProcessed h recv hb.valid
  have hback' : (c.updateProcessed.view h recv).back = some m := hview ▸ hs.back
  have ha' : (c.updateProcessed.view h recv).Aligned := hview ▸ hs.aligned
  have hl : ∀ t ∈ c.updateProcessed.todo, t.later = true := by
    rw [show c.updateProcessed.todo = [] from ht]
    exact nofun
  simp only [finishContinued, hb.missing hr]
  split
  next hw =>
    have hm : m.complete = false := by
      rw [Mark.complete, Bool.and_eq_false_iff]
      left
      rw [Bool.eq_false_iff]
      intro hrecv
      have := hs.received hrecv
      omega
    split
    · exact tryRead_sound_of_incomplete hb' hback' hm ha' hl
    · exact sound_of_incomplete hb' hback' hm ha' hl
  next hw =>
    refine ⟨hb'.push _, hr, ha', ?_, ?_, ht⟩
    · rw [view_push, hview]
      simp only [View.processed]
      omega
    · rw [view_push, hback', Option.map_some, hs.id_eq]

theorem finishHandled_sound (ho : c.Ordered) (hb : c.Base h I recv) (ha : (c.view h recv).Aligned)
    {back : Option ℕ} (hback : back = (c.view h recv).back.map Mark.id)
    (hm : ∀ m, (c.view h recv).back = some m → m.parsed = true →
      m.complete = true ∨ (c.view h recv).queued.length ≤ (c.view h recv).ahead)
    (ht : c.todo = []) : (c.finishHandled h back).Sound h I recv := by
  have hl : ∀ t ∈ c.todo, t.later = true := ht ▸ nofun
  have hrot : (c.view h recv).marks = [] → .rotated ∉ c.todo := fun _ => ht ▸ nofun
  unfold finishHandled
  rw [bind_find_back ho hback]
  cases hb' : c.back with
  | none =>
    have hnone : (c.view h recv).back = none := by rw [view_back, hb']; rfl
    refine ⟨hb.push _, ha, .inl fun m hm' => ?_, hrot, hl⟩
    exact absurd (hnone.symm.trans hm') nofun
  | some a =>
    have hback' : (c.view h recv).back = some (mark h recv a) := by rw [view_back, hb']; rfl
    dsimp only
    split
    next hp =>
      refine ⟨hb.push _, ha, (hm _ hback' hp).imp_left fun hc m hm' => ?_, hrot, hl⟩
      obtain rfl := Option.some.inj (hback'.symm.trans hm')
      exact hc
    next hp =>
      refine sound_of_incomplete hb hback' ?_ ha hl
      rw [Mark.complete, Bool.and_eq_false_iff]
      exact .inr (Bool.not_eq_true _ ▸ hp)

theorem run_processes (hd : h.Disciplined I recv F R) (ho : c.Ordered) (hb : c.Base h I recv)
    (hback : c.back = some a)
    (hr : c.isReadingQuery = false) (hf : (f (c.ctx a)).2 = [.handled (some a.id)])
    (hy : Processes h.toHandlers I recv (f (c.ctx a)).1) (ht : c.todo = []) :
    (c.run a f).Sound h I recv := by
  obtain ⟨init, hq⟩ := back_split hback
  refine ⟨hb.run_back ho (hb.held_others a) hback hr hy.valid hy.inv, ?_⟩
  have hlast : ((c.run a f).view h recv).back =
      some ⟨a.id, recv (f (c.ctx a)).1.cmd, h.queryParsingComplete (f (c.ctx a)).1.cmd⟩ := by
    rw [view_run_back ho hq]
    exact List.getLast?_concat ..
  have hstage : ∀ r, Stage [.handled (some a.id)]
      { (c.run a f).view h recv with reading := r } := by
    intro r
    refine ⟨⟨fun m hm hrecv => ?_, fun hn => ?_, fun m hm hp hrecv => ?_⟩, ?_, fun m hm hp => ?_,
      rfl⟩
    · obtain rfl := Option.some.inj (hlast.symm.trans hm)
      exact hy.received hrecv
    · exact absurd (hlast.symm.trans hn) nofun
    · obtain rfl := Option.some.inj (hlast.symm.trans hm)
      exact (hy.pending hp hrecv).1
    · exact (congrArg (Option.map Mark.id) hlast).symm
    · obtain rfl := Option.some.inj (hlast.symm.trans hm)
      cases hrecv : recv (f (c.ctx a)).1.cmd with
      | true => exact .inl (Bool.and_eq_true_iff.mpr ⟨rfl, hp⟩)
      | false => exact .inr (hy.pending hp hrecv).2
  have htodo : (c.run a f).todo =
      (f (c.ctx a)).1.effects.map (.effect a.id) ++ [.handled (some a.id)] := by
    simp only [run, hf, ht, List.append_nil]
  rw [htodo]
  rcases hy.effects with he | ⟨he, hc⟩
  · rw [he]
    exact hstage c.isReadingQuery
  · rw [he]
    exact ⟨⟨_, List.mem_of_getLast? hlast, rfl, (hd.complete _ hy.inv).symm.trans hc⟩, hstage⟩

theorem finishUnparsed_sound (hd : h.Disciplined I recv F R) (ho : c.Ordered) (hb : c.Base h I recv)
    (hr : c.isReadingQuery = false) (ha : (c.view h recv).Aligned)
    (h0 : (c.view h recv).ahead = 0) {back : Option ℕ}
    (hback : back = (c.view h recv).back.map Mark.id) (ht : c.todo = [])
    (hrest : ∀ a, c.back = some a → h.queryParsingComplete a.cmd = false →
      R a.cmd c.buffer.unparsed) :
    (c.finishUnparsed h back).Doomed ∨ (c.finishUnparsed h back).Sound h I recv := by
  -- with nothing parsed ahead a parsed request has been received
  have hdone : ∀ m, (c.view h recv).back = some m → m.parsed = true →
      m.complete = true ∨ (c.view h recv).queued.length ≤ (c.view h recv).ahead := by
    intro m hm hp
    left
    rw [Mark.complete, hp, Bool.and_true]
    by_contra hrecv
    have := ha.pending m hm hp (Bool.not_eq_true _ ▸ hrecv)
    omega
  unfold finishUnparsed
  rw [bind_find_back ho hback]
  cases hb' : c.back with
  | none => exact .inr ⟨hb.push _, ha, hback, hdone, ht⟩
  | some a =>
    have hid : back = some a.id := by rw [hback, view_back, hb']; rfl
    dsimp only
    split
    · exact .inr ⟨hb.push _, ha, hback, hdone, ht⟩
    next hp =>
      have hp : h.queryParsingComplete a.cmd = false := Bool.not_eq_true _ ▸ hp
      rcases hd.process (c.ctx a) (hb.held a (back_mem hb')) hb.valid rfl hp h0
        (hrest a hb' hp) with hf | ⟨hok, heff⟩ | ⟨hok, hy⟩
      · exact .inl (doomed_run hf)
      · refine .inl (.inl ⟨a.id, [.abort], c.todo, ?_, .single rfl⟩)
        simp only [run, hok, heff]
        rfl
      · refine .inr (run_processes hd ho hb hb' hr ?_ hy ht)
        simp only [hok, if_true, hid]

theorem tryReadMoreQuery_eq (hv : c.buffer.Valid) : ∃ b r, c.buffer.Kept b ∧
    c.tryReadMoreQuery = { c with buffer := b, isReadingQuery := r } := by
  unfold tryReadMoreQuery
  split
  · exact ⟨c.buffer, c.isReadingQuery, .refl hv, rfl⟩
  · exact ⟨_, _, (ReadBuffer.Kept.refl hv).incRecycleLock, rfl⟩

theorem rotateReplyingCommand_last (h : Family ε C) (hv : c.buffer.Valid)
    (hq : c.activeCmdQueue = [a]) : ∃ b r, c.buffer.Kept b ∧ c.rotateReplyingCommand h =
      { c with buffer := b, isReadingQuery := r, activeCmdQueue := [], gone := c.gone ++ [a] } := by
  obtain ⟨b, r, hk, he⟩ := tryReadMoreQuery_eq hv
  refine ⟨b, r, hk, ?_⟩
  rw [rotateReplyingCommand, if_pos (by rw [hq]; rfl), he]
  simp only [hq]

theorem rotateReplyingCommand_next (h : Family ε C) {front : Active C} {queue : List (Active C)}
    (hq : c.activeCmdQueue = a :: front :: queue) : c.rotateReplyingCommand h =
      ClientConn.run { c with activeCmdQueue := front :: queue, gone := c.gone ++ [a] } front
        fun x => (h.startWriteReply x, [.rotated]) := by
  rw [rotateReplyingCommand, if_neg (by rw [hq]; simp)]
  simp only [hq]

/-- The last command leaves; what it has left in the buffer cannot be started. -/
theorem rotate_last (hb : c.Base h I recv) (hq : c.activeCmdQueue = [a])
    (hm : (mark h recv a).complete = true) (hi : (c.view h recv).Idle c.todo) :
    (c.rotateReplyingCommand h).Doomed ∨ (c.rotateReplyingCommand h).Sound h I recv := by
  obtain ⟨b, r, hk, hrotate⟩ := rotateReplyingCommand_last h hb.valid hq
  have hback : (c.view h recv).back = some (mark h recv a) := by rw [view, View.back, hq]; rfl
  have h0 : b.ahead = 0 :=
    hk.ahead.trans (hi.1.received _ hback (Bool.and_eq_true_iff.mp hm).1)
  rw [hrotate]
  by_cases hr : .rotated ∈ c.todo
  · exact .inl (.inr ⟨rfl, hr, hi.2.2⟩)
  have hw : Waits b.bufferSize b.queued := by
    rw [hk.bufferSize, hk.queued]
    refine (hi.2.1.resolve_right hr) (by simp [view, hq, pipelineActiveLimit]) fun m hm' => ?_
    obtain rfl := Option.some.inj (hback.symm.trans hm')
    exact hm
  refine .inr ⟨⟨hk.valid, (by rintro _ ⟨⟩), (by rintro _ ⟨⟩), fun _ _ => hw,
      ⟨hb.writes.created, (by rintro _ _ _ ⟨⟩)⟩⟩,
    .of_idle ⟨⟨(by rintro _ ⟨⟩), fun _ => h0, (by rintro _ ⟨⟩)⟩, ?_, hi.2.2⟩
      fun hr' => absurd hr' hr⟩
  exact .inl fun _ _ => hw

theorem Base.pop (hb : c.Base h I recv) (ho : c.Ordered) {front : Active C}
    {queue : List (Active C)} (hq : c.activeCmdQueue = a :: front :: queue) :
    Base h I recv { c with activeCmdQueue := front :: queue, gone := c.gone ++ [a] } := by
  refine ⟨hb.valid, fun a' ha' => ?_, fun m hm' => ?_, fun hr hc => ?_, hb.writes.created, ?_⟩
  · exact hb.held a' (by rw [hq]; exact List.mem_cons_of_mem _ ha')
  · apply hb.earlier
    rw [view, hq, List.map_cons, List.map_cons, List.dropLast_cons_cons]
    exact List.mem_cons_of_mem _ hm'
  · refine hb.reads hr fun m hm => hc m (Eq.trans ?_ hm)
    rw [view_back, view_back, back, back, hq, List.getLast?_cons_cons]
  · -- a write of the command that has left is not that of another
    intro id b hw hid
    have hn := ho.nodup
    have hhead := hb.writes.front id b hw (by rw [ids, hq]; exact List.mem_cons_of_mem _ hid)
    rw [ids, hq] at hhead
    rw [hq, List.map_cons, List.nodup_cons] at hn
    obtain rfl := Option.some.inj hhead
    exact absurd hid hn.1

theorem rotate_sound (hd : h.Disciplined I recv F R) (ho : c.Ordered) (hb : c.Base h I recv)
    {id : ℕ} (hm : ∃ m, (c.view h recv).front = some m ∧ m.id = id ∧ m.complete = true)
    (hi : (c.view h recv).Idle c.todo) :
    (c.rotateReplyingCommand h).Doomed ∨ (c.rotateReplyingCommand h).Sound h I recv := by
  obtain ⟨m, hfront, _, hcomplete⟩ := hm
  have hm := List.mem_of_head? hfront
  cases hq : c.activeCmdQueue with
  | nil =>
    rw [view, hq] at hm
    cases hm
  | cons a queue =>
    cases queue with
    | nil =>
      rw [view, hq] at hm
      obtain rfl := List.mem_singleton.mp hm
      exact rotate_last hb hq hcomplete hi
    | cons front queue =>
      have hview : View.back (view h recv
          { c with activeCmdQueue := front :: queue, gone := c.gone ++ [a] }) =
          (c.view h recv).back := by
        rw [view_back, view_back, back, back, hq, List.getLast?_cons_cons]
      rw [rotateReplyingCommand_next h hq]
      refine run_minor hd (ho.pop hq) (hb.pop ho hq) (List.mem_cons_self ..) ⟨⟨?_, ?_, ?_⟩, ?_, ?_⟩
        (hd.becomeFirst _ (hb.held front (by rw [hq]; simp)) hb.valid rfl (by simp [isFirst]))
      · rw [hview]
        exact hi.1.received
      · rw [hview]
        exact hi.1.empty
      · rw [hview]
        exact hi.1.pending
      · exact .inr (List.mem_cons_self ..)
      · intro t ht
        rcases List.mem_cons.mp ht with rfl | ht
        · rfl
        · exact hi.2.2 t ht

theorem startCommand_sound (hd : h.Disciplined I recv F R) (ho : c.Ordered) (hb : c.Base h I recv)
    (hr : c.isReadingQuery = false) (ha : (c.view h recv).Aligned) (hc : (c.view h recv).Complete)
    (hl : ∀ t ∈ c.todo, t.later = true) (hlimit : c.activeCmdQueue.length < pipelineActiveLimit)
    {n : ℕ} {created : Created} {buffer : ReadBuffer} {cmd : C} (hn : n < 2 ^ 63)
    (hw : created.whole = true → n ≤ c.buffer.queued.length) (hk : c.buffer.Kept buffer)
    (hi : F cmd) (hrecv : recv cmd = true → created.whole = true) :
    (c.startCommand h n created buffer cmd).Doomed ∨
      (c.startCommand h n created buffer cmd).Sound h I recv := by
  have h0 : buffer.ahead = 0 := hk.ahead.trans (ha.ahead_eq hc)
  have hoff := ReadBuffer.parsedOffset_le hk.valid
  have hsum : buffer.parsedOffset + n < 2 ^ 64 := by omega
  have hahead := ReadBuffer.ahead_updateParsedBytes hk.valid hsum
  have hv := ReadBuffer.updateParsedBytes_valid hk.valid hsum
  have hq : (buffer.updateParsedBytes n).queued = c.buffer.queued := hk.queued
  have hheld : ∀ a' ∈ (c.append n created buffer cmd).activeCmdQueue, a'.id ≠ c.count →
      I a'.cmd := by
    intro a' ha' hid
    rcases List.mem_append.mp ha' with ha' | ha'
    · exact hb.held a' ha'
    · obtain rfl := List.mem_singleton.mp ha'
      exact absurd rfl hid
  have hb' : (c.append n created buffer cmd).Base h (fun _ => True) recv := by
    refine ⟨hv, fun _ _ => trivial, fun m hm => ?_, fun hr' => absurd (hr.symm.trans hr') nofun,
      fun id b hwr => ?_, fun id b hwr hid => ?_⟩
    · simp only [view, append, List.map_append, List.map_singleton, List.dropLast_concat] at hm
      exact View.complete_of_mem hb.earlier hc m hm
    · exact (hb.writes.created id b hwr).trans (Nat.lt_succ_self _)
    · have hlt := hb.writes.created id b hwr
      rw [ids, append, List.map_append, List.mem_append] at hid
      have hid : id ∈ c.ids := hid.resolve_right fun hid => by
        rw [List.map_singleton, List.mem_singleton] at hid
        exact absurd hid (Nat.ne_of_lt hlt)
      have hhead : (c.activeCmdQueue.map Active.id).head? = some id := hb.writes.front id b hwr hid
      rw [ids, append, List.map_append, List.head?_append, hhead]
      rfl
  rw [startCommand_eq]
  refine run_sends (ho.append hlimit n created buffer cmd) hb' hheld (List.getLast?_concat ..) hr
    (fun hrecv' => ?_) (fun v m hv hs => ⟨hv, ⟨m, hs⟩, hl⟩) (hd.start _ hi hv rfl)
  have hle := hw (hrecv hrecv')
  have hpu := ReadBuffer.parsedUnreceivedBytes_eq hv
  rw [hahead, hq, h0] at hpu
  exact hpu.trans (by omega)

theorem framed (hv : c.buffer.Valid) (h0 : 0 < c.buffer.queued.length)
    (hu : Understood c.buffer.bufferSize c.buffer.unprocessedData c.buffer.receivedBytes) :
    Framed c.buffer.bufferSize c.buffer.unprocessedData c.buffer.queued.length := by
  have hm := hv.memory
  have hr := hv.received_size
  have hs := hv.size_bound
  have hq := ReadBuffer.queued_length hv
  rw [ReadBuffer.receivedBytes_eq hv] at hu
  refine hu.framed ?_ h0 (by omega)
  rw [Ptr.rest, List.length_drop, ReadBuffer.unprocessedData, hq]
  dsimp only
  omega

theorem processUnparsedQuery_sound (hd : h.Disciplined I recv F R) (ho : c.Ordered)
    (hb : c.Base h I recv) (ha : (c.view h recv).Aligned)
    (hc : (c.view h recv).Complete ∨ (c.view h recv).queued.length ≤ (c.view h recv).ahead)
    (hne : (c.view h recv).marks = [] → .rotated ∉ c.todo) (hl : ∀ t ∈ c.todo, t.later = true)
    (hu : c.activeCmdQueue.length < pipelineActiveLimit → 0 < c.buffer.unparsedReceivedBytes →
      Understood c.buffer.bufferSize c.buffer.unprocessedData c.buffer.receivedBytes)
    (hlive : (c.processUnparsedQuery h).live) :
    (c.processUnparsedQuery h).Doomed ∨ (c.processUnparsedQuery h).Sound h I recv := by
  have hun := ReadBuffer.unparsedReceivedBytes_eq hb.valid
  have hrot : .rotated ∈ c.todo → (c.view h recv).marks ≠ [] := fun hr hn => hne hn hr
  have hbytes : c.buffer.unprocessedData.bytes c.buffer.queued.length = c.buffer.queued := by
    rw [ReadBuffer.unprocessedData_bytes hb.valid le_rfl, List.take_length]
  unfold processUnparsedQuery at hlive ⊢
  split at hlive
  next hbody =>
    rw [if_pos hbody]
    have hpos := hbody.2
    rw [hun] at hpos
    have hc : (c.view h recv).Complete := hc.resolve_right fun hle => by
      have hle : c.buffer.queued.length ≤ c.buffer.ahead := hle
      omega
    have hf := framed hb.valid (by omega) (hu hbody.1 hbody.2)
    rw [ReadBuffer.receivedBytes_eq hb.valid] at hlive ⊢
    cases hcr :
      createCommand c.buffer.bufferSize c.buffer.unprocessedData c.buffer.queued.length with
    | none =>
      rw [hcr] at hlive
      exact absurd hlive.2 nofun
    | some r =>
      obtain ⟨k, _ | created⟩ := r
      · have hw := hf.waits k hcr
        rw [hbytes] at hw
        refine .inr
          (tryRead_sound hb (fun _ => hw) fun r => .of_idle ⟨?_, .inl fun _ _ => hw, hl⟩ hrot)
        exact ⟨ha.received, ha.empty, ha.pending⟩
      · obtain ⟨hk0, hk, hwhole⟩ := hf.takes k created hcr
        -- while a read is outstanding there is nothing to start
        have hr : c.isReadingQuery = false := by
          rw [Bool.eq_false_iff]
          intro hr
          have := hb.reads hr hc _ hbytes
          rw [hcr] at this
          cases this
        rw [hcr] at hlive
        dsimp only at hlive ⊢
        cases hcon : h.construct c.count c.buffer created with
        | none =>
          rw [hcon] at hlive
          exact absurd hlive.2 nofun
        | some r =>
          obtain ⟨buffer, cmd⟩ := r
          obtain ⟨hkept, hi, hrecv⟩ := hd.construct _ _ _ _ _ hb.valid hcon
          dsimp only
          rw [if_neg (by omega)]
          exact startCommand_sound hd ho hb hr ha hc hl hbody.1 hk hwhole hkept hi hrecv
  next hbody =>
    rw [if_neg hbody]
    refine .inr ⟨hb, .of_idle ⟨ha, .inl fun hlen hc => ?_, hl⟩ hrot⟩
    have h0 : c.buffer.ahead = 0 := ha.ahead_eq hc
    have hlen : c.activeCmdQueue.length < pipelineActiveLimit := by
      simpa only [view, List.length_map] using hlen
    have hnil : c.buffer.queued = [] := by
      apply List.eq_nil_of_length_eq_zero
      have : ¬ 0 < c.buffer.unparsedReceivedBytes := fun hp => hbody ⟨hlen, hp⟩
      omega
    show Waits c.buffer.bufferSize c.buffer.queued
    rw [hnil]
    exact waits_nil _

theorem Doomed.of_eq {c' : ClientConn C} (hd : c.Doomed) (hq : c'.activeCmdQueue = c.activeCmdQueue)
    (ht : c'.todo = c.todo) : c'.Doomed := by
  unfold Doomed
  rw [hq, ht]
  exact hd

/-- The effects before the fatal one do not save the connection. -/
theorem fatal_step {id : ℕ} {e : Effect} {es : List Effect} {ts : List Task}
    (hf : Terminal (e :: es))
    (ht : c.todo = es.map (Task.effect id) ++ ts) (hlive : (c.perform h (.effect id e)).live) :
    (c.perform h (.effect id e)).Doomed := by
  have hrest : e.fatal = false → e ≠ .rotate ∧ c.Doomed := by
    intro he
    obtain ⟨hr, hf⟩ := hf.tail.resolve_left fun h => absurd (he.symm.trans h) Bool.false_ne_true
    exact ⟨hr, .inl ⟨id, es, ts, ht, hf⟩⟩
  cases e with
  | writeReply data b =>
    simp only [perform] at hlive ⊢
    split
    next hw =>
      rw [if_pos hw] at hlive
      exact absurd hlive.2 Bool.false_ne_true.symm
    next => exact (hrest rfl).2.of_eq rfl rfl
  | rotate => exact absurd rfl (hrest rfl).1
  | abort => exact absurd hlive.1 Bool.false_ne_true.symm
  | tryReadMoreQuery =>
    simp only [perform, tryReadMoreQuery]
    split
    · exact (hrest rfl).2
    · exact (hrest rfl).2.of_eq rfl rfl
  | decRecycleLock => exact (hrest rfl).2.of_eq rfl rfl
  | assertFailed => exact absurd hlive.2 Bool.false_ne_true.symm
  | crash => exact absurd hlive.2 Bool.false_ne_true.symm

theorem doomed_step {t : Task} {ts : List Task} (hd : c.Doomed) (ht : c.todo = t :: ts)
    (hlive : (perform h { c with todo := ts } t).live) :
    (perform h { c with todo := ts } t).Doomed := by
  rcases hd with ⟨id, es, ts', hes, hf⟩ | ⟨hq, hr, hl⟩
  · cases es with
    | nil => exact absurd hf Terminal.not_nil
    | cons e es =>
      rw [ht, List.map_cons, List.cons_append, List.cons.injEq] at hes
      obtain ⟨rfl, hes⟩ := hes
      exact fatal_step hf hes hlive
  · have hlater := hl t (by rw [ht]; exact List.mem_cons_self ..)
    have hrest : t ≠ .rotated → Doomed { c with todo := ts } := by
      intro hne
      rw [ht] at hr hl
      exact .inr ⟨hq, (List.mem_cons.mp hr).resolve_left (Ne.symm hne),
        fun t ht => hl t (List.mem_cons_of_mem _ ht)⟩
    cases t with
    | rotated =>
      have hcrash : perform h { c with todo := ts } .rotated = crash { c with todo := ts } := by
        simp only [perform, finishRotated, back, hq, List.getLast?_nil]
      rw [hcrash] at hlive
      exact absurd hlive.2 Bool.false_ne_true.symm
    | effect id e =>
      cases e with
      | decRecycleLock => exact (hrest (by rintro ⟨⟩)).of_eq rfl rfl
      | _ => cases hlater
    | _ => cases hlater

end Sound

/-- The bytes that the next task looks at are well formed. -/
def ReadableTask (h : Family ε C) (R : C → Bytes → Prop) (c : ClientConn C) : Task → Prop
  | .processUnparsedQuery =>
    c.activeCmdQueue.length < pipelineActiveLimit → 0 < c.buffer.unparsedReceivedBytes →
      Understood c.buffer.bufferSize c.buffer.unprocessedData c.buffer.receivedBytes
  | .unparsed back =>
    ∀ a, back.bind c.find = some a → h.queryParsingComplete a.cmd = false →
      R a.cmd c.buffer.unparsed
  | _ => True

/-- The bytes that the parsers look at in a step are well formed: those of the next request, and
those that follow the parsed part of the last one. -/
def Readable (h : Family ε C) (R : C → Bytes → Prop) (c : ClientConn C) : Event → Prop
  | .step => ∀ t, c.todo.head? = some t → ReadableTask h R c t
  | .readDone chunk =>
    ∀ a, c.back = some a → h.queryRecvComplete a.cmd = false →
      R a.cmd ((c.buffer.queued ++ chunk).drop c.buffer.ahead)
  | _ => True

section Steps
variable {h : Family ε C} {I F : C → Prop} {recv : C → Bool} {R : C → Bytes → Prop}
variable {c : ClientConn C}

theorem effect_sound (hd : h.Disciplined I recv F R) (ho : c.Ordered) (hb : c.Base h I recv)
    {id : ℕ} {e : Effect} (hs : Stage (.effect id e :: c.todo) (c.view h recv))
    (hlive : (c.perform h (.effect id e)).live) :
    (c.perform h (.effect id e)).Doomed ∨ (c.perform h (.effect id e)).Sound h I recv := by
  cases e with
  | writeReply data b =>
    simp only [perform] at hlive ⊢
    split
    next hw =>
      rw [if_pos hw] at hlive
      exact absurd hlive.2 Bool.false_ne_true.symm
    next =>
      have hfront := front_id.mp hs.1
      refine .inr
        ⟨⟨hb.valid, hb.held, hb.earlier, hb.reads, fun id' b' hwr => ?_, fun id' b' hwr _ => ?_⟩,
        hs.2⟩
      · obtain ⟨rfl, -⟩ := Prod.mk.inj (Option.some.inj hwr)
        exact ho.id_lt (List.mem_of_head? hfront)
      · obtain ⟨rfl, -⟩ := Prod.mk.inj (Option.some.inj hwr)
        exact hfront
  | rotate => exact rotate_sound hd ho hb hs.1 hs.2
  | tryReadMoreQuery =>
    obtain ⟨⟨m, hm, _, hc⟩, hs⟩ := hs
    -- the earlier commands are complete, so this is the last one
    refine .inr (tryRead_sound hb (fun hcomplete => ?_) hs)
    exact absurd (hc.symm.trans (View.complete_of_mem hb.earlier hcomplete m hm)) Bool.false_ne_true
  | decRecycleLock =>
    have hk := (ReadBuffer.Kept.refl hb.valid).decRecycleLock
    have hview : view h recv { c with buffer := c.buffer.decRecycleLock } = c.view h recv := by
      simp only [view, hk.queued, hk.ahead, hk.bufferSize]
    have hw : FrontWrites { c with buffer := c.buffer.decRecycleLock } :=
      hb.writes.of_eq rfl rfl rfl
    refine .inr ⟨hb.of_view hk.valid hb.held hview hw, ?_⟩
    rw [show perform h c (.effect id .decRecycleLock) = { c with buffer := c.buffer.decRecycleLock }
      from rfl, hview]
    exact hs
  | abort => exact False.elim hs
  | assertFailed => exact False.elim hs
  | crash => exact False.elim hs

theorem task_sound (hd : h.Disciplined I recv F R) (ho : c.Ordered) (hb : c.Base h I recv)
    {t : Task} (hs : Stage (t :: c.todo) (c.view h recv)) (hr : ReadableTask h R c t)
    (hlive : (c.perform h t).live) : (c.perform h t).Doomed ∨ (c.perform h t).Sound h I recv := by
  cases t with
  | effect id e => exact effect_sound hd ho hb hs hlive
  | rotated => exact .inr (finishRotated_sound hd hb hs.2.1 hs.2.2 hlive)
  | processUnparsedQuery =>
    exact processUnparsedQuery_sound hd ho hb hs.1 hs.2.1 hs.2.2.1 hs.2.2.2 hr hlive
  | started id noCallback =>
    obtain ⟨hread, ⟨m, hm⟩, hl⟩ := hs
    exact .inr (finishStarted_sound ho hb hread hm hl noCallback)
  | parsed back =>
    obtain ⟨hread, ha, hback, ht⟩ := hs
    exact finishParsed_sound hd ho hb hread ha hback ht
  | continued back noCallback =>
    obtain ⟨hread, ⟨id, m, rfl, hm⟩, ht⟩ := hs
    exact .inr (finishContinued_sound hb hread hm ht noCallback)
  | unparsed back =>
    obtain ⟨hread, ha, h0, hback, ht⟩ := hs
    refine finishUnparsed_sound hd ho hb hread ha h0 hback ht fun a ha' hp => hr a ?_ hp
    rw [bind_find_back ho hback, ha']
  | handled back =>
    obtain ⟨ha, hback, hm, ht⟩ := hs
    exact .inr (finishHandled_sound ho hb ha hback hm ht)

/-- The connection with a completed read, before it looks at the bytes. -/
def received (c : ClientConn C) (chunk : Bytes) : ClientConn C :=
  { c with isReadingQuery := false, buffer := (c.buffer.receive chunk).decRecycleLock }

theorem view_received (h : Family ε C) (recv : C → Bool) (hv : c.buffer.Valid) {chunk : Bytes}
    (hc : chunk.length ≤ c.buffer.freeSpaceSize) : (c.received chunk).view h recv =
      { c.view h recv with queued := c.buffer.queued ++ chunk, reading := false } := by
  have hv' := ReadBuffer.receive_valid hv hc
  simp only [view, received, ReadBuffer.queued_decRecycleLock hv', ReadBuffer.queued_receive hv hc,
    ReadBuffer.ahead_decRecycleLock hv', ReadBuffer.ahead_receive,
    ReadBuffer.bufferSize_decRecycleLock, ReadBuffer.bufferSize_receive]

theorem run_parses {f : Ctx C → Ctx C × List Task} {a : Active C} (ho : c.Ordered)
    (hb : c.Base h I recv) (ha : (c.view h recv).Aligned) (hback : c.back = some a)
    (hr : c.isReadingQuery = false) (hf : (f (c.ctx a)).2 = [.parsed (some a.id)])
    (hy : Parses h.toHandlers I recv (c.ctx a) (f (c.ctx a)).1) (ht : c.todo = []) :
    (c.run a f).Sound h I recv := by
  obtain ⟨init, hq⟩ := back_split hback
  have hback' : (c.view h recv).back = some (mark h recv a) := by rw [view_back, hback]; rfl
  have hlast : ((c.run a f).view h recv).back =
      some ⟨a.id, recv (f (c.ctx a)).1.cmd, h.queryParsingComplete (f (c.ctx a)).1.cmd⟩ := by
    rw [view_run_back ho hq]
    exact List.getLast?_concat ..
  have htodo : (c.run a f).todo = [.parsed (some a.id)] := by
    simp only [run, hf, ht, hy.effects, List.map_nil, List.nil_append, List.append_nil]
  refine ⟨hb.run_back ho (hb.held_others a) hback hr hy.valid hy.inv, ?_⟩
  rw [htodo]
  refine ⟨hr, ⟨fun m hm hrecv => ?_, fun hn => ?_, fun m hm hp hrecv => ?_⟩, ?_, rfl⟩
  · obtain rfl := Option.some.inj (hlast.symm.trans hm)
    have hrecv : recv a.cmd = true := hy.received.symm.trans hrecv
    exact (hy.ahead_eq hrecv).trans (ha.received _ hback' hrecv)
  · exact absurd (hlast.symm.trans hn) nofun
  · obtain rfl := Option.some.inj (hlast.symm.trans hm)
    rcases hy.parsed hp with hp' | hgrown
    · exact Nat.lt_of_lt_of_le (ha.pending _ hback' hp' (hy.received.symm.trans hrecv)) hy.ahead
    · exact Nat.zero_lt_of_lt hgrown
  · exact (congrArg (Option.map Mark.id) hlast).symm

theorem handleRead_sound (hd : h.Disciplined I recv F R) (ho : c.Ordered) (hs : c.Sound h I recv)
    (ht : c.todo = []) {chunk : Bytes} (hc : chunk.length ≤ c.buffer.freeSpaceSize)
    (hr : ∀ a, c.back = some a → h.queryRecvComplete a.cmd = false →
      R a.cmd ((c.buffer.queued ++ chunk).drop c.buffer.ahead)) :
    (c.handleRead h chunk).Doomed ∨ (c.handleRead h chunk).Sound h I recv := by
  have hstage := hs.stage
  rw [ht] at hstage
  have hview := view_received h recv hs.valid hc
  have hv : (c.received chunk).buffer.Valid :=
    ReadBuffer.decRecycleLock_valid (ReadBuffer.receive_valid hs.valid hc)
  have hb : (c.received chunk).Base h I recv := by
    refine ⟨hv, hs.held, ?_, nofun, hs.writes.of_eq rfl rfl rfl⟩
    rw [hview]
    exact hs.earlier
  have ha : ((c.received chunk).view h recv).Aligned := by
    rw [hview]
    exact ⟨hstage.1.received, hstage.1.empty, hstage.1.pending⟩
  have hparsed : ∀ back, back = ((c.received chunk).view h recv).back.map Mark.id →
      ((c.received chunk).push (.parsed back)).Sound h I recv :=
    fun back hback => ⟨hb.push _, rfl, ha, hback, ht⟩
  unfold handleRead
  rw [show { c with
    isReadingQuery := false, buffer := (c.buffer.receive chunk).decRecycleLock } =
      c.received chunk from rfl]
  dsimp only
  cases hback : (c.received chunk).back with
  | none => exact .inr (hparsed _ (by rw [view_back, hback]; rfl))
  | some a =>
    dsimp only
    split
    · exact .inr (hparsed _ (by rw [view_back, hback]; rfl))
    next hcomplete =>
      have hcomplete : h.queryRecvComplete a.cmd = false := Bool.not_eq_true _ ▸ hcomplete
      have hrest : R a.cmd (c.received chunk).buffer.unparsed := by
        have hq : (c.received chunk).buffer.queued = c.buffer.queued ++ chunk :=
          congrArg View.queued hview
        have hah : (c.received chunk).buffer.ahead = c.buffer.ahead := congrArg View.ahead hview
        rw [ReadBuffer.unparsed, hq, hah]
        exact hr a hback hcomplete
      rcases hd.parse ((c.received chunk).ctx a) (hs.held a (back_mem hback)) hv rfl hcomplete hrest
        with hf | ⟨hok, heff⟩ | ⟨hok, hy⟩
      · exact .inl (doomed_run hf)
      · refine .inl (.inl ⟨a.id, [.abort], c.todo, ?_, .single rfl⟩)
        simp only [run, hok, heff]
        rfl
      · refine .inr (run_parses (ho.of_eq rfl rfl rfl) hb ha hback rfl ?_ hy ht)
        simp only [hok, if_true]

theorem handleWrite_sound (hd : h.Disciplined I recv F R) (ho : c.Ordered) (hs : c.Sound h I recv)
    (ht : c.todo = []) (ec : ErrorCode) :
    (c.handleWrite h ec).Doomed ∨ (c.handleWrite h ec).Sound h I recv := by
  unfold handleWrite
  cases hw : c.writing with
  | none => exact .inr hs
  | some w =>
    obtain ⟨id, b⟩ := w
    have hs' : Sound h I recv { c with writing := none } :=
      ⟨⟨hs.valid, hs.held, hs.earlier, hs.reads, nofun, nofun⟩, hs.stage⟩
    have hstage := hs.stage
    rw [ht] at hstage
    dsimp only
    cases hf : find { c with writing := none } id with
    | none => exact .inr hs'
    | some a =>
      obtain ⟨hmem, hid⟩ := find_some hf
      have hfirst : c.isFirst a.id = true := by
        rw [hid, isFirst_iff]
        exact hs.writes.front id b hw (hid ▸ List.mem_map_of_mem hmem)
      refine run_minor hd (ho.of_eq rfl rfl rfl) hs'.toBase hmem ?_
        (hd.written b ec _ (hs.held a hmem) hs.valid rfl hfirst)
      exact ⟨hstage.1, .inl hstage.2, by rw [ht]; nofun⟩

theorem backend_sound (hd : h.Disciplined I recv F R) (ho : c.Ordered) (hs : c.Sound h I recv)
    (ht : c.todo = []) (id b : ℕ) (e : BackendEvent) :
    (c.next h (.backend id b e)).Doomed ∨ (c.next h (.backend id b e)).Sound h I recv := by
  have hstage := hs.stage
  rw [ht] at hstage
  simp only [next]
  cases hf : c.find id with
  | none => exact .inr hs
  | some a =>
    have hmem := (find_some hf).1
    refine run_minor hd ho hs.toBase hmem ?_ (hd.backend b e _ (hs.held a hmem) hs.valid rfl)
    exact ⟨hstage.1, .inl hstage.2, by rw [ht]; rintro _ ⟨⟩⟩

/-- The invariant of the runs of a connection. -/
structure Inv (h : Family ε C) (I : C → Prop) (recv : C → Bool) (c : ClientConn C) : Prop where
  ordered : c.Ordered
  sound : c.live → c.Doomed ∨ c.Sound h I recv

theorem Doomed.todo_ne_nil (hd : c.Doomed) : c.todo ≠ [] := by
  intro ht
  rcases hd with ⟨id, es, ts, hes, hf⟩ | ⟨_, hr, _⟩
  · rw [ht] at hes
    obtain ⟨rfl, -⟩ := List.append_eq_nil_iff.mp hes.symm |>.imp_left List.map_eq_nil_iff.mp
    exact hf.not_nil
  · rw [ht] at hr
    cases hr

theorem Doomed.readable (hd : c.Doomed) {A : Answers C} {e : Event} (he : Enabled h A c e) :
    Readable h R c e := by
  cases e with
  | step =>
    intro t ht
    rcases hd with ⟨id, es, ts, hes, hf⟩ | ⟨-, -, hl⟩
    · cases es with
      | nil => exact absurd hf Terminal.not_nil
      | cons e es =>
        rw [hes] at ht
        obtain rfl := Option.some.inj ht
        exact trivial
    · have hlater := hl t (List.mem_of_head? ht)
      cases t with
      | processUnparsedQuery | unparsed back => cases hlater
      | _ => exact trivial
  | readDone chunk => exact absurd he.1.2 hd.todo_ne_nil
  | _ => exact trivial

theorem Doomed.next (hd : c.Doomed) {A : Answers C} {e : Event} (he : Enabled h A c e)
    (hlive : (c.next h e).live) : (c.next h e).Doomed := by
  cases e with
  | step =>
    cases ht : c.todo with
    | nil => exact absurd ht he.2
    | cons t ts =>
      have hstep : c.next h .step = perform h { c with todo := ts } t := by
        simp only [ClientConn.next, ht]
      rw [hstep] at hlive ⊢
      exact doomed_step hd ht hlive
  | readDone chunk => exact absurd he.1.2 hd.todo_ne_nil
  | readEof | readFailed | writeDone | writeFailed | backend _ _ _ =>
    exact absurd he.1.2 hd.todo_ne_nil
  | timeout => exact absurd he.2 hd.todo_ne_nil

theorem Enabled.live {A : Answers C} {e : Event} (he : Enabled h A c e) : c.live := by
  cases e with
  | step => exact he.1
  | timeout => exact he.1
  | _ => exact he.1.1

theorem Inv.quiescent (hi : c.Inv h I recv) (hq : c.Quiescent) : c.Sound h I recv :=
  (hi.sound hq.1).resolve_left fun hd => hd.todo_ne_nil hq.2

theorem init_inv (data : Bytes) (hl : data.length ≤ 2 ^ 20) :
    (init data : ClientConn C).Inv h I recv := by
  refine ⟨init_ordered data, fun _ => .inr ?_⟩
  have hw : Waits data.length (ReadBuffer.new data).queued := by
    have : (ReadBuffer.new data).queued = [] := by simp [ReadBuffer.new, ReadBuffer.queued]
    rw [this]
    exact waits_nil _
  refine tryRead_sound ⟨ReadBuffer.new_valid hl, (by rintro _ ⟨⟩), (by rintro _ ⟨⟩),
    fun _ _ => hw, (by rintro _ _ ⟨⟩), (by rintro _ _ ⟨⟩)⟩ (fun _ => hw) ?_
  exact fun r => ⟨⟨(by rintro _ ⟨⟩), fun _ => rfl, (by rintro _ ⟨⟩)⟩, fun _ _ => hw⟩

theorem Inv.next (hd : h.Disciplined I recv F R) {A : Answers C} (hi : c.Inv h I recv) {e : Event}
    (he : Enabled h A c e) (hr : Readable h R c e) : (c.next h e).Inv h I recv := by
  refine ⟨hi.ordered.next e, fun hlive => ?_⟩
  cases e with
  | step =>
    cases ht : c.todo with
    | nil => exact absurd ht he.2
    | cons t ts =>
      simp only [ClientConn.next, ht] at hlive ⊢
      rcases hi.sound he.1 with hdoomed | hs
      · exact .inl (doomed_step hdoomed ht hlive)
      · have ho : Ordered { c with todo := ts } := hi.ordered.of_eq rfl rfl rfl
        have hb : Base h I recv { c with todo := ts } :=
          ⟨hs.valid, hs.held, hs.earlier, hs.reads, hs.writes.of_eq rfl rfl rfl⟩
        have hstage := hs.stage
        rw [ht] at hstage
        have htask := hr t (by rw [ht]; rfl)
        exact task_sound hd ho hb hstage (by cases t <;> exact htask) hlive
  | readDone chunk =>
    exact handleRead_sound hd hi.ordered (hi.quiescent he.1) he.1.2 he.2.2.2 hr
  | readEof =>
    have hs := hi.quiescent he.1
    have hstage := hs.stage
    rw [he.1.2] at hstage
    refine .inr ⟨⟨hs.valid, hs.held, hs.earlier, (by rintro ⟨⟩), hs.writes.of_eq rfl rfl rfl⟩, ?_⟩
    rw [show (c.next h .readEof).todo = [] from he.1.2]
    exact ⟨⟨hstage.1.received, hstage.1.empty, hstage.1.pending⟩, hstage.2⟩
  | readFailed => exact absurd hlive.1 Bool.false_ne_true.symm
  | writeDone => exact handleWrite_sound hd hi.ordered (hi.quiescent he.1) he.1.2 _
  | writeFailed => exact handleWrite_sound hd hi.ordered (hi.quiescent he.1) he.1.2 _
  | backend id b e => exact backend_sound hd hi.ordered (hi.quiescent he.1) he.1.2 id b e
  | timeout => exact absurd hlive.1 Bool.false_ne_true.symm

/-- The invariant holds along every run whose bytes are well formed where they are looked at. -/
theorem reachable_inv (hd : h.Disciplined I recv F R) {A : Answers C} {data : Bytes}
    (hl : data.length ≤ 2 ^ 20)
    (hrun : Transition.Execution (system h A) (Readable h R) (init data) c) : c.Inv h I recv :=
  hrun.invariant (init_inv data hl) fun _ _ hi he hr => hi.next hd he hr

end Steps
end ClientConn
end Yarmproxy
