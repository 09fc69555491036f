import Yarmproxy.RedisMgetCommand

/-! # The reply queue of `RedisMgetCommand`

Which queues the handlers call `front` on. A front that is read must be there; the queue of a
command with a key always has one, and without a key its handlers fail. -/
namespace Yarmproxy

variable {ε : Type}

namespace RedisMgetCommand

/-- The queues whose front the loop of `ParseReply` reads, one in each round that takes a bulk. -/
def parseReplyLoopFronts (b : ℕ) : ℕ → RedisMgetCommand ε → List (List (ℕ × ℕ))
  | 0, _ => []
  | fuel + 1, c =>
    if (c.backend b).buffer.unparsedBytes = 0 then []
    else match parseRound (c.subquery b) with
      | some (s, .bulk) =>
        c.waitingReplyQueue :: match takeBulk (c.setSubquery b s) with
          | some (c, false) => parseReplyLoopFronts b fuel c
          | _ => []
      | _ => []

def parseReplyFronts (c : RedisMgetCommand ε) (b : ℕ) : List (List (ℕ × ℕ)) :=
  let k := c.backend b
  if 0 < k.buffer.unprocessedBytes then [] else parseReplyLoopFronts b k.buffer.unparsedBytes c

/-- Here the queue is tested before its front is read. -/
def backendReadyToReplyFronts (b : ℕ) (x : Ctx (RedisMgetCommand ε)) : List (List (ℕ × ℕ)) :=
  if !x.first then []
  else if x.cmd.waitingReplyQueue.isEmpty then []
  else if !x.cmd.replyPrefixComplete then []
  else x.cmd.waitingReplyQueue ::
    if x.cmd.waitingReplyQueue.head?.map Prod.fst ≠ some b then []
    else parseReplyFronts { x.cmd with replyingBackend := some b } b

def nextBackendStartReplyFronts (x : Ctx (RedisMgetCommand ε)) : List (List (ℕ × ℕ)) :=
  if !x.cmd.replyPrefixComplete then []
  else x.cmd.waitingReplyQueue :: match x.cmd.waitingReplyQueue with
    | [] => []
    | (front, _) :: _ =>
      if 0 < (x.cmd.backend front).buffer.unparsedBytes then backendReadyToReplyFronts front x
        else []

def rotateReplyingBackendFronts (x : Ctx (RedisMgetCommand ε)) : List (List (ℕ × ℕ)) :=
  if x.cmd.waitingReplyQueue.isEmpty then [] else nextBackendStartReplyFronts x

def onWriteReplyFinishedFronts (backend : Option ℕ) (ec : ErrorCode)
    (x : Ctx (RedisMgetCommand ε)) : List (List (ℕ × ℕ)) :=
  if ec ≠ .success then []
  else match backend with
    | none => nextBackendStartReplyFronts { x with cmd := { x.cmd with replyPrefix := [] } }
    | some b =>
      if !x.cmd.reply.isWriting then []
      else
        let x := { x with cmd := x.cmd.writeDone b }
        x.cmd.waitingReplyQueue ::
          if x.cmd.waitingReplyQueue.head?.map Prod.fst ≠ some b ∨
            x.cmd.replyingBackend ≠ some b then
            []
          else if (x.cmd.backend b).buffer.parsedUnreceivedBytes = 0 then
            x.cmd.waitingReplyQueue :: rotateReplyingBackendFronts { x with cmd := x.cmd.popRun }
          else []

def onBackendRecoverableErrorFronts (b : ℕ) (x : Ctx (RedisMgetCommand ε)) :
    List (List (ℕ × ℕ)) :=
  let k := (x.cmd.backend b).setReplyData (errorReplyBody (x.cmd.subquery b).keyCount) false
  backendReadyToReplyFronts b { x with cmd := x.cmd.setBackend b k.setNoRecycle }

def onBackendReplyReceivedFronts (b : ℕ) (ec : ErrorCode) (x : Ctx (RedisMgetCommand ε)) :
    List (List (ℕ × ℕ)) :=
  if ec ≠ .success then
    if x.cmd.replyingBackend = some b then [] else onBackendRecoverableErrorFronts b x
  else backendReadyToReplyFronts b x

def onWriteQueryFinishedFronts (b : ℕ) (ec : ErrorCode) (x : Ctx (RedisMgetCommand ε)) :
    List (List (ℕ × ℕ)) :=
  if ec = .connect then onBackendRecoverableErrorFronts b x else []

def onBackendFronts (b : ℕ) (e : BackendEvent) (x : Ctx (RedisMgetCommand ε)) :
    List (List (ℕ × ℕ)) :=
  let (k, callback) := (x.cmd.backend b).handle e
  let x := { x with cmd := x.cmd.setBackend b k }
  match callback with
  | none => []
  | some (.querySent ec) => onWriteQueryFinishedFronts b ec x
  | some (.replyReceived ec) => onBackendReplyReceivedFronts b ec x

/-- The queues whose front is read by the handler of an event, in order. -/
def frontsRead (w : World (RedisMgetCommand ε)) : World.Event → List (List (ℕ × ℕ))
  | .backend buf b e => onBackendFronts b e ⟨buf, w.first, w.cmd, []⟩
  | .writeDone buf =>
    match w.writing with
    | none => []
    | some b => onWriteReplyFinishedFronts b .success ⟨buf, w.first, w.cmd, []⟩
  | .writeFailed buf =>
    match w.writing with
    | none => []
    | some b => onWriteReplyFinishedFronts b .writeReply ⟨buf, w.first, w.cmd, []⟩
  | _ => []

section Queue
variable {c c' : RedisMgetCommand ε} {x : Ctx (RedisMgetCommand ε)} {b : ℕ}

@[simp] theorem writeDone_waitingReplyQueue :
    (c.writeDone b).waitingReplyQueue = c.waitingReplyQueue := rfl

theorem takeBulk_ne_nil {used : Bool} (h : takeBulk c = some (c', used)) :
    c'.waitingReplyQueue ≠ [] := by
  unfold takeBulk at h
  split at h
  next =>
    obtain ⟨rfl, -⟩ := Prod.mk.inj (Option.some.inj h)
    exact List.cons_ne_nil _ _
  next => cases h

theorem parseReplyLoop_ne_nil {ok : Bool} : ∀ (fuel : ℕ) {c : RedisMgetCommand ε},
    c.waitingReplyQueue ≠ [] → parseReplyLoop b fuel c = some (c', ok) →
    c'.waitingReplyQueue ≠ [] := by
  intro fuel
  induction fuel with
  | zero =>
    intro c hc h
    rw [parseReplyLoop] at h
    split at h
    · obtain ⟨rfl, -⟩ := Prod.mk.inj (Option.some.inj h)
      exact hc
    · cases h
  | succ fuel ih =>
    intro c hc h
    rw [parseReplyLoop] at h
    split at h
    · obtain ⟨rfl, -⟩ := Prod.mk.inj (Option.some.inj h)
      exact hc
    obtain ⟨⟨s, round⟩, -, h⟩ := Option.bind_eq_some_iff.mp h
    cases round with
    | failed =>
      obtain ⟨rfl, -⟩ := Prod.mk.inj (Option.some.inj h)
      exact hc
    | waiting =>
      obtain ⟨rfl, -⟩ := Prod.mk.inj (Option.some.inj h)
      exact hc
    | bulk =>
      obtain ⟨⟨d, used⟩, htake, h⟩ := Option.bind_eq_some_iff.mp h
      have hd := takeBulk_ne_nil htake
      dsimp only at h
      split at h
      · obtain ⟨rfl, -⟩ := Prod.mk.inj (Option.some.inj h)
        exact hd
      · exact ih hd h

theorem parseReply_ne_nil {ok : Bool} (hc : c.waitingReplyQueue ≠ [])
    (h : c.parseReply b = some (c', ok)) : c'.waitingReplyQueue ≠ [] := by
  unfold parseReply at h
  dsimp only at h
  split at h
  · obtain ⟨rfl, -⟩ := Prod.mk.inj (Option.some.inj h)
    split
    · exact hc
    · exact hc
  · exact parseReplyLoop_ne_nil _ hc h

theorem afterParse_ne_nil (hx : x.cmd.waitingReplyQueue ≠ [])
    {r : Option (RedisMgetCommand ε × Bool)}
    (hr : ∀ c ok, r = some (c, ok) → c.waitingReplyQueue ≠ []) :
    (afterParse b x r).cmd.waitingReplyQueue ≠ [] := by
  rcases r with _ | ⟨c, ok⟩
  · exact hx
  have hc := hr c ok rfl
  simp only [afterParse]
  split
  · exact hc
  split
  · exact hc
  · exact hc

theorem backendReadyToReply_ne_nil (hx : x.cmd.waitingReplyQueue ≠ []) :
    (backendReadyToReply b x).cmd.waitingReplyQueue ≠ [] := by
  unfold backendReadyToReply
  split
  · exact hx
  split
  · exact hx
  split
  · exact hx
  split
  · exact hx
  · refine afterParse_ne_nil ?_ fun c ok hr => parseReply_ne_nil ?_ hr
    · exact hx
    · exact hx

theorem nextBackendStartReply_ne_nil (hx : x.cmd.waitingReplyQueue ≠ []) :
    (nextBackendStartReply x).cmd.waitingReplyQueue ≠ [] := by
  unfold nextBackendStartReply
  split
  · exact hx
  split
  · exact hx
  split
  · exact backendReadyToReply_ne_nil hx
  · exact hx

/-- The command goes on with a run to deliver, or it is rotated out. -/
def Waiting (x : Ctx (RedisMgetCommand ε)) : Prop :=
  x.cmd.waitingReplyQueue ≠ [] ∨ Effect.rotate ∈ x.effects

theorem rotateReplyingBackend_waiting : Waiting (rotateReplyingBackend x) := by
  unfold rotateReplyingBackend
  split
  next => exact .inr (by simp [Ctx.emit])
  next h => exact .inl (nextBackendStartReply_ne_nil (by simpa using h))

theorem onWriteReplyFinished_waiting {backend : Option ℕ} {ec : ErrorCode}
    (hx : x.cmd.waitingReplyQueue ≠ []) : Waiting (onWriteReplyFinished backend ec x) := by
  unfold onWriteReplyFinished
  split
  · exact .inl hx
  split
  · exact .inl (nextBackendStartReply_ne_nil hx)
  split
  · exact .inl hx
  dsimp only
  split
  · exact .inl hx
  split
  · exact rotateReplyingBackend_waiting
  · exact .inl hx

theorem onBackendRecoverableError_ne_nil (hx : x.cmd.waitingReplyQueue ≠ []) :
    (onBackendRecoverableError b x).cmd.waitingReplyQueue ≠ [] :=
  backendReadyToReply_ne_nil hx

theorem onBackendReplyReceived_ne_nil {ec : ErrorCode} (hx : x.cmd.waitingReplyQueue ≠ []) :
    (onBackendReplyReceived b ec x).cmd.waitingReplyQueue ≠ [] := by
  unfold onBackendReplyReceived
  split
  · split
    · exact hx
    · exact onBackendRecoverableError_ne_nil hx
  · exact backendReadyToReply_ne_nil hx

theorem onWriteQueryFinished_ne_nil {ec : ErrorCode} (hx : x.cmd.waitingReplyQueue ≠ []) :
    (onWriteQueryFinished b ec x).cmd.waitingReplyQueue ≠ [] := by
  unfold onWriteQueryFinished
  split
  · split
    · exact onBackendRecoverableError_ne_nil hx
    · exact hx
  · dsimp only
    split
    · exact hx
    · exact hx

theorem onBackend_ne_nil {e : BackendEvent} (hx : x.cmd.waitingReplyQueue ≠ []) :
    (handlers.onBackend b e x).cmd.waitingReplyQueue ≠ [] :=
  Handlers.onBackend_rule (P := fun y : Ctx (RedisMgetCommand ε) => y.cmd.waitingReplyQueue ≠ [])
    (fun _ _ hy => hy)
    (fun _ _ hy => onWriteQueryFinished_ne_nil hy)
      (fun _ _ hy => onBackendReplyReceived_ne_nil hy) hx

theorem foldl_writePrefix_waitingReplyQueue (bs : List ℕ) : ∀ c : RedisMgetCommand ε,
    (bs.foldl writePrefix c).waitingReplyQueue = c.waitingReplyQueue := by
  induction bs with
  | nil => exact fun _ => rfl
  | cons b bs ih => exact fun c => ih (c.writePrefix b)

theorem startWriteQuery_ne_nil (hx : x.cmd.waitingReplyQueue ≠ []) :
    (startWriteQuery x).1.cmd.waitingReplyQueue ≠ [] := by
  have hfold := foldl_writePrefix_waitingReplyQueue (List.range x.cmd.count) x.cmd
  unfold startWriteQuery
  dsimp only
  split
  · exact hfold ▸ hx
  · exact hfold ▸ hx

end Queue

section Fronts
variable {c : RedisMgetCommand ε} {x : Ctx (RedisMgetCommand ε)} {b : ℕ}

theorem parseReplyLoopFronts_ne_nil : ∀ (fuel : ℕ) {c : RedisMgetCommand ε},
    c.waitingReplyQueue ≠ [] → ∀ q ∈ parseReplyLoopFronts b fuel c, q ≠ [] := by
  intro fuel
  induction fuel with
  | zero => exact fun _ _ hq => absurd hq List.not_mem_nil
  | succ fuel ih =>
    intro c hc q hq
    rw [parseReplyLoopFronts] at hq
    split at hq
    · exact absurd hq List.not_mem_nil
    split at hq
    next s _ =>
      rcases List.mem_cons.mp hq with rfl | hq
      · exact hc
      split at hq
      next d htake => exact ih (takeBulk_ne_nil htake) q hq
      next => exact absurd hq List.not_mem_nil
    next => exact absurd hq List.not_mem_nil

theorem backendReadyToReplyFronts_ne_nil : ∀ q ∈ backendReadyToReplyFronts b x, q ≠ [] := by
  intro q hq
  unfold backendReadyToReplyFronts at hq
  split at hq
  · exact absurd hq List.not_mem_nil
  split at hq
  · exact absurd hq List.not_mem_nil
  next hempty =>
    have hx : x.cmd.waitingReplyQueue ≠ [] := by simpa using hempty
    split at hq
    · exact absurd hq List.not_mem_nil
    rcases List.mem_cons.mp hq with rfl | hq
    · exact hx
    split at hq
    · exact absurd hq List.not_mem_nil
    unfold parseReplyFronts at hq
    dsimp only at hq
    split at hq
    · exact absurd hq List.not_mem_nil
    · refine parseReplyLoopFronts_ne_nil _ ?_ q hq
      exact hx

theorem nextBackendStartReplyFronts_ne_nil (hx : x.cmd.waitingReplyQueue ≠ []) :
    ∀ q ∈ nextBackendStartReplyFronts x, q ≠ [] := by
  intro q hq
  unfold nextBackendStartReplyFronts at hq
  split at hq
  · exact absurd hq List.not_mem_nil
  rcases List.mem_cons.mp hq with rfl | hq
  · exact hx
  split at hq
  · exact absurd hq List.not_mem_nil
  split at hq
  · exact backendReadyToReplyFronts_ne_nil q hq
  · exact absurd hq List.not_mem_nil

theorem onWriteReplyFinishedFronts_ne_nil {backend : Option ℕ} {ec : ErrorCode}
    (hx : x.cmd.waitingReplyQueue ≠ []) :
    ∀ q ∈ onWriteReplyFinishedFronts backend ec x, q ≠ [] := by
  intro q hq
  unfold onWriteReplyFinishedFronts at hq
  split at hq
  · exact absurd hq List.not_mem_nil
  split at hq
  · refine nextBackendStartReplyFronts_ne_nil ?_ q hq
    exact hx
  split at hq
  · exact absurd hq List.not_mem_nil
  rcases List.mem_cons.mp hq with rfl | hq
  · exact hx
  split at hq
  · exact absurd hq List.not_mem_nil
  split at hq
  · rcases List.mem_cons.mp hq with rfl | hq
    · exact hx
    unfold rotateReplyingBackendFronts at hq
    split at hq
    next => exact absurd hq List.not_mem_nil
    next hempty => exact nextBackendStartReplyFronts_ne_nil (by simpa using hempty) q hq
  · exact absurd hq List.not_mem_nil

theorem onBackendFronts_ne_nil {e : BackendEvent} : ∀ q ∈ onBackendFronts b e x, q ≠ [] := by
  intro q hq
  unfold onBackendFronts at hq
  dsimp only at hq
  split at hq
  · exact absurd hq List.not_mem_nil
  · unfold onWriteQueryFinishedFronts at hq
    split at hq
    · exact backendReadyToReplyFronts_ne_nil q hq
    · exact absurd hq List.not_mem_nil
  · unfold onBackendReplyReceivedFronts at hq
    split at hq
    · split at hq
      · exact absurd hq List.not_mem_nil
      · exact backendReadyToReplyFronts_ne_nil q hq
    · exact backendReadyToReplyFronts_ne_nil q hq

theorem frontsRead_ne_nil {w : World (RedisMgetCommand ε)} (hw : w.cmd.waitingReplyQueue ≠ []) :
    ∀ e, ∀ q ∈ frontsRead w e, q ≠ [] := by
  intro e q hq
  cases e with
  | backend buf b e => exact onBackendFronts_ne_nil q hq
  | writeDone buf =>
    unfold frontsRead at hq
    dsimp only at hq
    split at hq
    · exact absurd hq List.not_mem_nil
    · exact onWriteReplyFinishedFronts_ne_nil hw q hq
  | writeFailed buf =>
    unfold frontsRead at hq
    dsimp only at hq
    split at hq
    · exact absurd hq List.not_mem_nil
    · exact onWriteReplyFinishedFronts_ne_nil hw q hq
  | _ => exact absurd hq List.not_mem_nil

end Fronts

section Run
variable {w w' : World (RedisMgetCommand ε)}

theorem foldl_apply_cmd (es : List Effect) : ∀ w : World (RedisMgetCommand ε),
    (es.foldl (World.apply handlers) w).cmd = w.cmd := by
  induction es with
  | nil => exact fun _ => rfl
  | cons e es ih =>
    intro w
    rw [List.foldl_cons, ih]
    cases e <;> rfl

/-- A flag that no effect takes back. -/
theorem foldl_apply_flag {flag : World (RedisMgetCommand ε) → Bool} {e₀ : Effect}
    (keep : ∀ w e, flag w = true → flag (World.apply handlers w e) = true)
    (raise : ∀ w, flag (World.apply handlers w e₀) = true) (es : List Effect) :
    ∀ w, flag w = true ∨ e₀ ∈ es → flag (es.foldl (World.apply handlers) w) = true := by
  induction es with
  | nil => exact fun w h => h.resolve_right List.not_mem_nil
  | cons e es ih =>
    intro w h
    refine ih _ ?_
    rcases h with h | h
    · exact .inl (keep w e h)
    · rcases List.mem_cons.mp h with rfl | h
      · exact .inl (raise w)
      · exact .inr h

theorem foldl_apply_rotated {es : List Effect} (h : Effect.rotate ∈ es)
    (w : World (RedisMgetCommand ε)) : (es.foldl (World.apply handlers) w).rotated = true :=
  foldl_apply_flag (fun w e h => by cases e <;> simp [World.apply, h]) (fun _ => rfl) es w (.inr h)

theorem foldl_apply_crashed {es : List Effect} (h : Effect.assertFailed ∈ es)
    (w : World (RedisMgetCommand ε)) : (es.foldl (World.apply handlers) w).crashed = true :=
  foldl_apply_flag (fun w e h => by cases e <;> simp [World.apply, h]) (fun _ => rfl) es w (.inr h)

theorem run_ne_nil {buf : ReadBuffer} {f : Ctx (RedisMgetCommand ε) → Ctx (RedisMgetCommand ε)}
    (hf : Waiting (f ⟨buf, w.first, w.cmd, []⟩)) (hl : (w.run handlers buf f).live) :
    (w.run handlers buf f).cmd.waitingReplyQueue ≠ [] := by
  unfold World.run at hl ⊢
  dsimp only at hl ⊢
  rw [foldl_apply_cmd]
  rcases hf with hf | hf
  · exact hf
  · have := foldl_apply_rotated hf { w with cmd := (f ⟨buf, w.first, w.cmd, []⟩).cmd }
    rw [hl.1] at this
    cases this

/-- One step of a command that has a run to deliver. -/
theorem next_ne_nil (hw : w.cmd.waitingReplyQueue ≠ []) (e : World.Event)
    (hl : (w.next handlers e).live) : (w.next handlers e).cmd.waitingReplyQueue ≠ [] := by
  cases e with
  | start buf => exact run_ne_nil (.inl (startWriteQuery_ne_nil hw)) hl
  | parse buf => exact run_ne_nil (.inl hw) hl
  | continue_ buf => exact run_ne_nil (.inl hw) hl
  | process buf => exact run_ne_nil (.inl hw) hl
  | becomeFirst buf => exact run_ne_nil (.inl hw) hl
  | backend buf b e => exact run_ne_nil (.inl (onBackend_ne_nil hw)) hl
  | writeDone buf =>
    unfold World.next at hl ⊢
    dsimp only at hl ⊢
    split at hl
    · exact hw
    · exact run_ne_nil (onWriteReplyFinished_waiting hw) hl
  | writeFailed buf =>
    unfold World.next at hl ⊢
    dsimp only at hl ⊢
    split at hl
    · exact hw
    · exact run_ne_nil (onWriteReplyFinished_waiting hw) hl

theorem enabled_live {A : World.Answers (RedisMgetCommand ε)} {e : World.Event}
    (h : World.Enabled handlers A w e) : w.live := by
  cases e <;> exact h.1

/-- Every state of every run, whatever the backends send. -/
theorem reachable_ne_nil {A : World.Answers (RedisMgetCommand ε)} {cmd : RedisMgetCommand ε}
    {first : Bool} (hc : cmd.waitingReplyQueue ≠ [])
    (hw : Transition.Execution (World.system handlers A) Transition.Unrestricted
      (World.init cmd first) w) : w.live → w.cmd.waitingReplyQueue ≠ [] :=
  hw.invariant (I := fun w => w.live → w.cmd.waitingReplyQueue ≠ []) (fun _ => hc)
    fun _ e ih he _ hl => next_ne_nil (ih (enabled_live he)) e hl

theorem pushRun_ne_nil (queue : List (ℕ × ℕ)) (b : ℕ) : pushRun queue b ≠ [] := by
  unfold pushRun
  split
  · split
    · simp
    · simp
  · simp

variable [DecidableEq ε]

theorem pushKey_ne_nil {locate : Bytes → ε} {pool : Pool} {s s' : Building ε} {bulk : Bulk}
    (h : pushKey locate pool s bulk = some s') : s'.cmd.waitingReplyQueue ≠ [] := by
  unfold pushKey at h
  obtain ⟨key, -, h⟩ := Option.bind_eq_some_iff.mp h
  obtain ⟨total, -, h⟩ := Option.bind_eq_some_iff.mp h
  obtain ⟨segments, -, h⟩ := Option.bind_eq_some_iff.mp h
  obtain rfl := Option.some.inj h
  exact pushRun_ne_nil _ _

theorem foldlM_pushKey_ne_nil {locate : Bytes → ε} {pool : Pool} {s' : Building ε}
    (bulks : List Bulk) : ∀ s : Building ε, bulks ≠ [] ∨ s.cmd.waitingReplyQueue ≠ [] →
    bulks.foldlM (pushKey locate pool) s = some s' → s'.cmd.waitingReplyQueue ≠ [] := by
  induction bulks with
  | nil =>
    intro s hs h
    obtain rfl := Option.some.inj h
    exact hs.resolve_left (by simp)
  | cons bulk bulks ih =>
    intro s _ h
    rw [List.foldlM_cons] at h
    obtain ⟨t, ht, h⟩ := Option.bind_eq_some_iff.mp h
    exact ih t (.inr (pushKey_ne_nil ht)) h

theorem new_ne_nil [Inhabited ε] {locate : Bytes → ε} {pool : Pool} {buffer buffer' : ReadBuffer}
    {ba : BulkArray} {cmd : RedisMgetCommand ε} (hk : 2 ≤ ba.totalBulks)
    (h : new locate pool buffer ba = some (buffer', cmd)) : cmd.waitingReplyQueue ≠ [] := by
  unfold new at h
  obtain ⟨bulks, hb, h⟩ := Option.bind_eq_some_iff.mp h
  obtain ⟨s, hs, h⟩ := Option.bind_eq_some_iff.mp h
  obtain ⟨-, rfl⟩ := Prod.mk.inj (Option.some.inj h)
  have hlen : bulks ≠ [] := by
    rintro rfl
    have hk' : ba.totalBulks - 1 = (ba.totalBulks - 2) + 1 := by omega
    rw [hk', List.range'_succ, List.mapM_cons] at hb
    obtain ⟨_, -, hb⟩ := Option.bind_eq_some_iff.mp hb
    obtain ⟨_, -, hb⟩ := Option.bind_eq_some_iff.mp hb
    cases hb
  exact foldlM_pushKey_ne_nil bulks _ (.inl hlen) hs

end Run

def requeue (queue : List (ℕ × ℕ)) (c : RedisMgetCommand ε) : RedisMgetCommand ε :=
  { c with waitingReplyQueue := queue }

/-- The same command but for the runs that wait, which are as many. -/
def Alike (c d : RedisMgetCommand ε) : Prop :=
  ∃ queue, d = c.requeue queue ∧ queue.length = c.waitingReplyQueue.length

/-- Both attempts fail, or both leave the same command but for the runs that wait. -/
abbrev Together : Option (RedisMgetCommand ε × Bool) → Option (RedisMgetCommand ε × Bool) → Prop :=
  Option.Rel fun r s => Alike r.1 s.1 ∧ r.2 = s.2

/-- The same fronts are found in the same order. -/
def SameFronts (l m : List (List (ℕ × ℕ))) : Prop := l.map List.head? = m.map List.head?

section Sight
variable {c d : RedisMgetCommand ε} {b : ℕ} {queue : List (ℕ × ℕ)}

theorem SameFronts.head {q r : List (ℕ × ℕ)} {l m : List (List (ℕ × ℕ))}
    (h : SameFronts (q :: l) (r :: m)) : q.head? = r.head? := (List.cons.inj h).1

theorem SameFronts.tail {q r : List (ℕ × ℕ)} {l m : List (List (ℕ × ℕ))}
    (h : SameFronts (q :: l) (r :: m)) : SameFronts l m := (List.cons.inj h).2

@[simp] theorem requeue_waitingReplyQueue : (c.requeue queue).waitingReplyQueue = queue := rfl

@[simp] theorem requeue_subquery : (c.requeue queue).subquery = c.subquery := rfl

@[simp] theorem requeue_backend : (c.requeue queue).backend b = c.backend b := rfl

@[simp] theorem requeue_setSubquery (s : MgetSubquery ε) :
    (c.requeue queue).setSubquery b s = (c.setSubquery b s).requeue queue := rfl

@[simp] theorem requeue_setBackend (k : BackendConn ε) :
    (c.requeue queue).setBackend b k = (c.setBackend b k).requeue queue := rfl

theorem takeBulk_alike (h : Alike c d)
    (hh : c.waitingReplyQueue.head? = d.waitingReplyQueue.head?) :
    Together (takeBulk c) (takeBulk d) := by
  obtain ⟨queue, rfl, hlen⟩ := h
  rcases hc : c.waitingReplyQueue with _ | ⟨⟨b, n⟩, rest⟩
  · rw [hc] at hlen
    obtain rfl := List.length_eq_zero_iff.mp hlen
    simp only [takeBulk, hc, requeue_waitingReplyQueue]
    exact .none
  rw [hc] at hh hlen
  obtain ⟨⟨b', n'⟩, rest', rfl⟩ : ∃ run rest', queue = run :: rest' :=
    List.exists_cons_of_length_eq_add_one hlen
  obtain ⟨rfl, rfl⟩ := Prod.mk.inj (Option.some.inj hh)
  cases n with
  | zero =>
    simp only [takeBulk, hc, requeue_waitingReplyQueue]
    exact .none
  | succ n =>
    simp only [takeBulk, hc, requeue_waitingReplyQueue]
    exact .some ⟨⟨_, rfl, hlen⟩, rfl⟩

theorem parseReplyLoop_alike : ∀ (fuel : ℕ) {c d : RedisMgetCommand ε}, Alike c d →
    SameFronts (parseReplyLoopFronts b fuel c) (parseReplyLoopFronts b fuel d) →
    Together (parseReplyLoop b fuel c) (parseReplyLoop b fuel d) := by
  intro fuel
  induction fuel with
  | zero =>
    rintro c d ⟨queue, rfl, hlen⟩ -
    by_cases h0 : (c.backend b).buffer.unparsedBytes = 0
    · have h0' : ((c.requeue queue).backend b).buffer.unparsedBytes = 0 := h0
      rw [parseReplyLoop, parseReplyLoop, if_pos h0, if_pos h0']
      exact .some ⟨⟨_, rfl, hlen⟩, rfl⟩
    · have h0' : ((c.requeue queue).backend b).buffer.unparsedBytes ≠ 0 := h0
      rw [parseReplyLoop, parseReplyLoop, if_neg h0, if_neg h0']
      exact .none
  | succ fuel ih =>
    rintro c d ⟨queue, rfl, hlen⟩ hf
    rw [parseReplyLoopFronts, parseReplyLoopFronts] at hf
    rw [parseReplyLoop, parseReplyLoop]
    by_cases h0 : (c.backend b).buffer.unparsedBytes = 0
    · have h0' : ((c.requeue queue).backend b).buffer.unparsedBytes = 0 := h0
      rw [if_pos h0, if_pos h0']
      exact .some ⟨⟨_, rfl, hlen⟩, rfl⟩
    have h0' : ((c.requeue queue).backend b).buffer.unparsedBytes ≠ 0 := h0
    rw [if_neg h0, if_neg h0'] at hf ⊢
    rw [requeue_subquery] at hf ⊢
    rcases hr : parseRound (c.subquery b) with _ | ⟨s, round⟩
    · exact .none
    cases round with
    | failed => exact .some ⟨⟨_, rfl, hlen⟩, rfl⟩
    | waiting => exact .some ⟨⟨_, rfl, hlen⟩, rfl⟩
    | bulk =>
      simp only [hr, requeue_setSubquery] at hf
      have hcd : Alike (c.setSubquery b s) ((c.setSubquery b s).requeue queue) := ⟨_, rfl, hlen⟩
      have htake := takeBulk_alike hcd hf.head
      have hf := hf.tail
      simp only [Option.bind_eq_bind, Option.bind_some, requeue_setSubquery]
      generalize takeBulk (c.setSubquery b s) = r at htake hf ⊢
      generalize takeBulk ((c.setSubquery b s).requeue queue) = r' at htake hf ⊢
      cases htake with
      | none => exact .none
      | @some r r' h =>
        obtain ⟨c', used⟩ := r
        obtain ⟨d', used'⟩ := r'
        obtain ⟨hcd', rfl⟩ := h
        cases used with
        | true => exact .some ⟨hcd', rfl⟩
        | false => exact ih hcd' hf

theorem parseReply_alike (h : Alike c d)
    (hf : SameFronts (parseReplyFronts c b) (parseReplyFronts d b)) :
    Together (c.parseReply b) (d.parseReply b) := by
  obtain ⟨queue, rfl, hlen⟩ := h
  unfold parseReplyFronts at hf
  unfold parseReply
  by_cases h0 : 0 < (c.backend b).buffer.unprocessedBytes
  · have h0' : 0 < ((c.requeue queue).backend b).buffer.unprocessedBytes := h0
    rw [if_pos h0, if_pos h0']
    refine .some ⟨?_, rfl⟩
    by_cases hdone : (c.backend b).buffer.parsedUnreceivedBytes = 0 ∧
        (c.subquery b).replyAbsentBulks = 0
    · have hdone' : ((c.requeue queue).backend b).buffer.parsedUnreceivedBytes = 0 ∧
          ((c.requeue queue).subquery b).replyAbsentBulks = 0 := hdone
      rw [if_pos hdone, if_pos hdone']
      exact ⟨queue, rfl, hlen⟩
    · have hdone' : ¬ (((c.requeue queue).backend b).buffer.parsedUnreceivedBytes = 0 ∧
          ((c.requeue queue).subquery b).replyAbsentBulks = 0) := hdone
      rw [if_neg hdone, if_neg hdone']
      exact ⟨queue, rfl, hlen⟩
  · have h0' : ¬ 0 < ((c.requeue queue).backend b).buffer.unprocessedBytes := h0
    rw [if_neg h0, if_neg h0'] at hf ⊢
    exact parseReplyLoop_alike _ ⟨queue, rfl, hlen⟩ hf

/-- Handlers in the same surroundings, on commands that are alike. -/
def AlikeCtx (x y : Ctx (RedisMgetCommand ε)) : Prop :=
  y = { x with cmd := y.cmd } ∧ Alike x.cmd y.cmd

namespace AlikeCtx
variable {x y : Ctx (RedisMgetCommand ε)}

theorem emit (h : AlikeCtx x y) (e : Effect) : AlikeCtx (x.emit e) (y.emit e) := by
  obtain ⟨hy, hc⟩ := h
  rw [hy]
  exact ⟨rfl, hc⟩

theorem first (h : AlikeCtx x y) : y.first = x.first := by
  rw [h.1]

theorem backend (h : AlikeCtx x y) (b : ℕ) : y.cmd.backend b = x.cmd.backend b := by
  obtain ⟨-, queue, hq, -⟩ := h
  rw [hq, requeue_backend]

theorem subquery (h : AlikeCtx x y) : y.cmd.subquery = x.cmd.subquery := by
  obtain ⟨-, queue, hq, -⟩ := h
  rw [hq, requeue_subquery]

theorem replyPrefixComplete (h : AlikeCtx x y) :
    y.cmd.replyPrefixComplete = x.cmd.replyPrefixComplete := by
  obtain ⟨-, queue, hq, -⟩ := h
  rw [hq]
  rfl

theorem reply (h : AlikeCtx x y) : y.cmd.reply = x.cmd.reply := by
  obtain ⟨-, queue, hq, -⟩ := h
  rw [hq]
  rfl

theorem replyingBackend (h : AlikeCtx x y) : y.cmd.replyingBackend = x.cmd.replyingBackend := by
  obtain ⟨-, queue, hq, -⟩ := h
  rw [hq]
  rfl

theorem handlersBackend (h : AlikeCtx x y) (b : ℕ) :
    handlers.backend y.cmd b = handlers.backend x.cmd b := by
  obtain ⟨-, queue, hq, -⟩ := h
  rw [hq]
  rfl

theorem queue_cases (h : AlikeCtx x y) :
    x.cmd.waitingReplyQueue = [] ∧ y.cmd.waitingReplyQueue = [] ∨
      ∃ run rest run' rest', x.cmd.waitingReplyQueue = run :: rest ∧
        y.cmd.waitingReplyQueue = run' :: rest' ∧ rest'.length = rest.length := by
  obtain ⟨-, queue, hq, hlen⟩ := h
  rw [hq, requeue_waitingReplyQueue]
  rcases hc : x.cmd.waitingReplyQueue with _ | ⟨run, rest⟩
  · rw [hc] at hlen
    exact .inl ⟨rfl, List.length_eq_zero_iff.mp hlen⟩
  · rw [hc] at hlen
    obtain ⟨run', rest', rfl⟩ := List.exists_cons_of_length_eq_add_one hlen
    exact .inr ⟨run, rest, run', rest', rfl, rfl, Nat.succ.inj hlen⟩

/-- The same change to both commands, one that leaves the runs alone. -/
theorem update (h : AlikeCtx x y) {f : RedisMgetCommand ε → RedisMgetCommand ε}
    (hqueue : ∀ c, (f c).waitingReplyQueue = c.waitingReplyQueue)
    (hf : ∀ c queue, f (c.requeue queue) = (f c).requeue queue) :
    AlikeCtx { x with cmd := f x.cmd } { y with cmd := f y.cmd } := by
  obtain ⟨hy, queue, hq, hlen⟩ := h
  refine ⟨by rw [hy], queue, ?_, ?_⟩
  · rw [← hf, ← hq]
  · rw [hqueue]
    exact hlen

theorem setBackend (h : AlikeCtx x y) (b : ℕ) (k : BackendConn ε) :
    AlikeCtx { x with cmd := x.cmd.setBackend b k } { y with cmd := y.cmd.setBackend b k } :=
  h.update (f := fun c => c.setBackend b k) (fun _ => rfl) fun _ _ => rfl

end AlikeCtx

variable {x y : Ctx (RedisMgetCommand ε)}

theorem afterParse_alike (h : AlikeCtx x y) {r s : Option (RedisMgetCommand ε × Bool)}
    (hr : Together r s) : AlikeCtx (afterParse b x r) (afterParse b y s) := by
  cases hr with
  | none => exact h.emit .crash
  | @some r s hr =>
    obtain ⟨c, ok⟩ := r
    obtain ⟨d, ok'⟩ := s
    obtain ⟨⟨queue, rfl, hlen⟩, rfl⟩ := hr
    obtain ⟨hy, -⟩ := h
    rw [hy]
    simp only [afterParse, requeue_backend, requeue_setBackend]
    cases ok with
    | false => exact ⟨rfl, queue, rfl, hlen⟩
    | true =>
      by_cases h0 : (c.backend b).buffer.unprocessedBytes = 0
      · simp only [h0, if_true]
        exact ⟨rfl, queue, rfl, hlen⟩
      · simp only [h0, if_false]
        exact ⟨rfl, queue, rfl, hlen⟩

theorem backendReadyToReply_alike (h : AlikeCtx x y)
    (hf : SameFronts (backendReadyToReplyFronts b x) (backendReadyToReplyFronts b y)) :
    AlikeCtx (backendReadyToReply b x) (backendReadyToReply b y) := by
  unfold backendReadyToReplyFronts at hf
  unfold backendReadyToReply
  by_cases h0 : x.first = true
  case neg => simpa only [h.first, h0, Bool.not_false, if_true] using h
  obtain ⟨hc, hd⟩ | ⟨⟨front, n⟩, rest, ⟨front', n'⟩, rest', hc, hd, -⟩ := h.queue_cases
  · simpa only [h.first, h0, hc, hd, Bool.not_true, Bool.false_eq_true, if_false]
      using h.emit .abort
  simp only [hc, hd, h0, h.first, h.replyPrefixComplete, Bool.not_true, Bool.false_eq_true,
    if_false, List.isEmpty_cons] at hf ⊢
  by_cases h1 : x.cmd.replyPrefixComplete = true
  case neg => simpa only [h1, Bool.not_false, if_true] using h
  simp only [h1, Bool.not_true, Bool.false_eq_true, if_false] at hf ⊢
  have hhead := hf.head
  replace hf := hf.tail
  obtain ⟨rfl, rfl⟩ := Prod.mk.inj (Option.some.inj hhead)
  by_cases h2 : b = front
  case neg => simpa only [h2, ne_eq, not_false_eq_true, if_true] using h
  subst h2
  simp only [List.head?_cons, Option.map_some, ne_eq, not_true, if_false] at hf ⊢
  have hreply : AlikeCtx { x with cmd := { x.cmd with replyingBackend := some b } }
      { y with cmd := { y.cmd with replyingBackend := some b } } :=
    h.update (f := fun c => { c with replyingBackend := some b }) (fun _ => rfl) fun _ _ => rfl
  rw [← hc, ← hd] at hf
  have hafter := afterParse_alike (b := b) hreply (parseReply_alike hreply.2 hf)
  simpa only [hc, hd, h0, h.first] using hafter

theorem nextBackendStartReply_alike (h : AlikeCtx x y)
    (hf : SameFronts (nextBackendStartReplyFronts x) (nextBackendStartReplyFronts y)) :
    AlikeCtx (nextBackendStartReply x) (nextBackendStartReply y) := by
  unfold nextBackendStartReplyFronts at hf
  unfold nextBackendStartReply
  simp only [h.replyPrefixComplete] at hf ⊢
  by_cases h1 : x.cmd.replyPrefixComplete = true
  case neg => simpa only [h1, Bool.not_false, if_true] using h
  simp only [h1, Bool.not_true, Bool.false_eq_true, if_false] at hf ⊢
  obtain ⟨hc, hd⟩ | ⟨⟨front, n⟩, rest, ⟨front', n'⟩, rest', hc, hd, -⟩ := h.queue_cases
  · simpa only [hc, hd] using h.emit .assertFailed
  simp only [hc, hd] at hf ⊢
  have hhead := hf.head
  replace hf := hf.tail
  obtain ⟨rfl, rfl⟩ := Prod.mk.inj (Option.some.inj hhead)
  rw [h.backend] at hf ⊢
  split at hf
  next h0 =>
    rw [if_pos h0, if_pos h0]
    exact backendReadyToReply_alike h hf
  next h0 =>
    rw [if_neg h0, if_neg h0]
    exact h

theorem rotateReplyingBackend_alike (h : AlikeCtx x y)
    (hf : SameFronts (rotateReplyingBackendFronts x) (rotateReplyingBackendFronts y)) :
    AlikeCtx (rotateReplyingBackend x) (rotateReplyingBackend y) := by
  unfold rotateReplyingBackendFronts at hf
  unfold rotateReplyingBackend
  obtain ⟨hc, hd⟩ | ⟨run, rest, run', rest', hc, hd, -⟩ := h.queue_cases
  · simpa only [hc, hd, List.isEmpty_nil, if_true] using h.emit .rotate
  · simp only [hc, hd, List.isEmpty_cons, Bool.false_eq_true, if_false] at hf ⊢
    exact nextBackendStartReply_alike h hf

theorem popRun_alike (h : AlikeCtx x y)
    (hh : x.cmd.waitingReplyQueue.head? = y.cmd.waitingReplyQueue.head?) :
    AlikeCtx { x with cmd := x.cmd.popRun } { y with cmd := y.cmd.popRun } := by
  obtain ⟨hc, hd⟩ | ⟨⟨front, n⟩, rest, ⟨front', n'⟩, rest', hc, hd, hlen⟩ := h.queue_cases
  · simpa only [popRun, hc, hd] using h
  rw [hc, hd] at hh
  obtain ⟨rfl, rfl⟩ := Prod.mk.inj (Option.some.inj hh)
  cases n with
  | zero =>
    obtain ⟨hy, queue, hq, -⟩ := h
    simp only [popRun, hc, hd]
    exact ⟨by rw [hy], rest', by rw [hq]; rfl, hlen⟩
  | succ n => simpa only [popRun, hc, hd] using h

theorem onWriteReplyFinished_alike {backend : Option ℕ} {ec : ErrorCode} (h : AlikeCtx x y)
    (hf : SameFronts (onWriteReplyFinishedFronts backend ec x)
      (onWriteReplyFinishedFronts backend ec y)) :
    AlikeCtx (onWriteReplyFinished backend ec x) (onWriteReplyFinished backend ec y) := by
  unfold onWriteReplyFinishedFronts at hf
  unfold onWriteReplyFinished
  by_cases hec : ec = .success
  case neg =>
    rw [if_pos hec, if_pos hec]
    exact h.emit .abort
  rw [if_neg (not_not.mpr hec), if_neg (not_not.mpr hec)] at hf ⊢
  cases backend with
  | none =>
    refine nextBackendStartReply_alike ?_ hf
    exact h.update (f := fun c => { c with replyPrefix := [] }) (fun _ => rfl) fun _ _ => rfl
  | some b =>
    simp only [h.reply] at hf ⊢
    by_cases hw : x.cmd.reply.isWriting = true
    case neg => simpa only [hw, Bool.not_false, if_true] using h.emit .assertFailed
    simp only [hw, Bool.not_true, Bool.false_eq_true, if_false] at hf ⊢
    have hdone : AlikeCtx { x with cmd := x.cmd.writeDone b } { y with cmd := y.cmd.writeDone b } :=
      h.update (f := fun c => c.writeDone b) (fun _ => rfl) fun _ _ => rfl
    have hhead := hf.head
    replace hf := hf.tail
    have hcond : (y.cmd.writeDone b).waitingReplyQueue.head?.map Prod.fst ≠ some b ∨
          (y.cmd.writeDone b).replyingBackend ≠ some b ↔
        (x.cmd.writeDone b).waitingReplyQueue.head?.map Prod.fst ≠ some b ∨
          (x.cmd.writeDone b).replyingBackend ≠ some b := by
      rw [hhead, hdone.replyingBackend]
    by_cases hstray : (x.cmd.writeDone b).waitingReplyQueue.head?.map Prod.fst ≠ some b ∨
        (x.cmd.writeDone b).replyingBackend ≠ some b
    · rw [if_pos hstray, if_pos (hcond.mpr hstray)]
      exact hdone.emit .assertFailed
    rw [if_neg hstray, if_neg (mt hcond.mp hstray), hdone.backend b] at hf ⊢
    by_cases hall : ((x.cmd.writeDone b).backend b).buffer.parsedUnreceivedBytes = 0
    · rw [if_pos hall, if_pos hall] at hf ⊢
      exact rotateReplyingBackend_alike (popRun_alike hdone hhead) hf.tail
    · rw [if_neg hall, if_neg hall]
      exact hdone.setBackend b _

theorem onBackendRecoverableError_alike (h : AlikeCtx x y)
    (hf : SameFronts (onBackendRecoverableErrorFronts b x) (onBackendRecoverableErrorFronts b y)) :
    AlikeCtx (onBackendRecoverableError b x) (onBackendRecoverableError b y) := by
  unfold onBackendRecoverableErrorFronts at hf
  unfold onBackendRecoverableError
  simp only [h.backend b, h.subquery] at hf ⊢
  exact backendReadyToReply_alike (h.setBackend b _) hf

theorem onBackendReplyReceived_alike {ec : ErrorCode} (h : AlikeCtx x y)
    (hf : SameFronts (onBackendReplyReceivedFronts b ec x) (onBackendReplyReceivedFronts b ec y)) :
    AlikeCtx (onBackendReplyReceived b ec x) (onBackendReplyReceived b ec y) := by
  unfold onBackendReplyReceivedFronts at hf
  unfold onBackendReplyReceived
  rw [h.replyingBackend] at hf ⊢
  by_cases hec : ec = .success
  · rw [if_neg (not_not.mpr hec), if_neg (not_not.mpr hec)] at hf ⊢
    exact backendReadyToReply_alike h hf
  rw [if_pos hec, if_pos hec] at hf ⊢
  by_cases hr : x.cmd.replyingBackend = some b
  · rw [if_pos hr, if_pos hr]
    exact h.emit .abort
  · rw [if_neg hr, if_neg hr] at hf ⊢
    exact onBackendRecoverableError_alike h hf

theorem onWriteQueryFinished_alike {ec : ErrorCode} (h : AlikeCtx x y)
    (hf : SameFronts (onWriteQueryFinishedFronts b ec x) (onWriteQueryFinishedFronts b ec y)) :
    AlikeCtx (onWriteQueryFinished b ec x) (onWriteQueryFinished b ec y) := by
  unfold onWriteQueryFinishedFronts at hf
  unfold onWriteQueryFinished
  by_cases hec : ec = .success
  · rw [if_neg (not_not.mpr hec), if_neg (not_not.mpr hec)]
    obtain ⟨hy, queue, hq, hlen⟩ := h
    rw [hy, hq]
    dsimp only [requeue_subquery]
    cases (x.cmd.subquery b).segments.tail with
    | nil => exact ⟨rfl, queue, rfl, hlen⟩
    | cons segment segments => exact ⟨rfl, queue, rfl, hlen⟩
  rw [if_pos hec, if_pos hec]
  by_cases hconnect : ec = .connect
  · rw [if_pos hconnect, if_pos hconnect] at hf ⊢
    exact (onBackendRecoverableError_alike h hf).emit .decRecycleLock
  · rw [if_neg hconnect, if_neg hconnect]
    exact h.emit .abort

theorem onBackend_alike {e : BackendEvent} (h : AlikeCtx x y)
    (hf : SameFronts (onBackendFronts b e x) (onBackendFronts b e y)) :
    AlikeCtx (handlers.onBackend b e x) (handlers.onBackend b e y) := by
  unfold onBackendFronts at hf
  simp only [h.backend b] at hf
  have held : ∀ {k}, handlers.backend x.cmd b = some k → k = x.cmd.backend b := by
    intro k hk
    simp only [handlers] at hk
    split at hk
    · exact (Option.some.inj hk).symm
    · cases hk
  refine Handlers.onBackend_rel (fun _ _ h => h.handlersBackend b) (fun _ _ k h => h.setBackend b k)
    (fun k ec hk hcb => ?_) (fun k ec hk hcb => ?_) h
  · obtain rfl := held hk
    rw [hcb] at hf
    exact onWriteQueryFinished_alike (h.setBackend b _) hf
  · obtain rfl := held hk
    rw [hcb] at hf
    exact onBackendReplyReceived_alike (h.setBackend b _) hf

theorem startWriteReply_alike (h : AlikeCtx x y) :
    AlikeCtx (startWriteReply x) (startWriteReply y) := by
  have hprefix : y.cmd.replyPrefix = x.cmd.replyPrefix := by
    obtain ⟨-, queue, hq, -⟩ := h
    rw [hq]
    rfl
  unfold startWriteReply
  rw [ hprefix]
  exact h.emit _

theorem startWriteQuery_alike (h : AlikeCtx x y) :
    AlikeCtx (startWriteQuery x).1 (startWriteQuery y).1 := by
  have hcount : y.cmd.count = x.cmd.count := by
    obtain ⟨-, queue, hq, -⟩ := h
    rw [hq]
    rfl
  have hprefixes : ∀ (bs : List ℕ) (c : RedisMgetCommand ε) queue,
      bs.foldl writePrefix (c.requeue queue) = (bs.foldl writePrefix c).requeue queue := by
    intro bs
    induction bs with
    | nil => exact fun _ _ => rfl
    | cons b bs ih => exact fun c queue => ih (c.writePrefix b) queue
  have hwritten : AlikeCtx { x with cmd := (List.range x.cmd.count).foldl writePrefix x.cmd }
      { y with cmd := (List.range x.cmd.count).foldl writePrefix y.cmd } :=
    h.update (f := (List.range x.cmd.count).foldl writePrefix)
      (foldl_writePrefix_waitingReplyQueue _) (hprefixes _)
  unfold startWriteQuery
  dsimp only
  rw [hcount]
  rw [h.first] at hwritten ⊢
  split
  · exact startWriteReply_alike hwritten
  · exact hwritten

end Sight

/-- Two worlds that differ at most in the runs that the commands wait for. -/
def AlikeWorlds (w v : World (RedisMgetCommand ε)) : Prop :=
  v = { w with cmd := v.cmd } ∧ Alike w.cmd v.cmd

section Worlds
variable {w v : World (RedisMgetCommand ε)}

theorem foldl_apply_alike (es : List Effect) : ∀ {w v : World (RedisMgetCommand ε)},
    AlikeWorlds w v →
    AlikeWorlds (es.foldl (World.apply handlers) w) (es.foldl (World.apply handlers) v) := by
  induction es with
  | nil => exact fun h => h
  | cons e es ih =>
    rintro w v ⟨hv, hc⟩
    refine ih ⟨?_, ?_⟩
    · rw [hv]
      cases e <;> rfl
    · cases e <;> exact hc

theorem run_alike {buf : ReadBuffer} {f : Ctx (RedisMgetCommand ε) → Ctx (RedisMgetCommand ε)}
    (h : AlikeWorlds w v)
    (hf : AlikeCtx (f ⟨buf, w.first, w.cmd, []⟩) (f ⟨buf, v.first, v.cmd, []⟩)) :
    AlikeWorlds (w.run handlers buf f) (v.run handlers buf f) := by
  obtain ⟨hctx, hc⟩ := hf
  have heffects : (f ⟨buf, v.first, v.cmd, []⟩).effects =
      (f ⟨buf, w.first, w.cmd, []⟩).effects := by
    rw [hctx]
  unfold World.run
  dsimp only
  rw [heffects]
  refine foldl_apply_alike _ ⟨?_, hc⟩
  rw [h.1]

theorem AlikeWorlds.ctx (h : AlikeWorlds w v) (buf : ReadBuffer) :
    AlikeCtx ⟨buf, w.first, w.cmd, []⟩ ⟨buf, v.first, v.cmd, []⟩ := by
  refine ⟨?_, h.2⟩
  rw [h.1]

/-- The handlers see nothing of the queue but its length and the fronts they read. -/
theorem next_alike (h : AlikeWorlds w v) (e : World.Event)
    (hf : SameFronts (frontsRead w e) (frontsRead v e)) :
    AlikeWorlds (w.next handlers e) (v.next handlers e) := by
  have hwriting : v.writing = w.writing := by rw [h.1]
  have written : ∀ {buf ec b}, SameFronts
      (onWriteReplyFinishedFronts b ec ⟨buf, w.first, w.cmd, []⟩)
      (onWriteReplyFinishedFronts b ec ⟨buf, v.first, v.cmd, []⟩) →
      AlikeWorlds (World.run handlers { w with writing := none } buf (onWriteReplyFinished b ec))
        (World.run handlers { v with writing := none } buf (onWriteReplyFinished b ec)) :=
    fun {buf _ _} hf => run_alike ⟨by rw [h.1], h.2⟩ (onWriteReplyFinished_alike (h.ctx buf) hf)
  cases e with
  | start buf =>
    exact run_alike (f := fun x => (startWriteQuery x).1) ⟨by rw [h.1], h.2⟩
      (startWriteQuery_alike (h.ctx buf))
  | parse buf => exact run_alike (f := id) h (h.ctx buf)
  | continue_ buf =>
    exact run_alike (f := fun x => x.emit .assertFailed) h ((h.ctx buf).emit .assertFailed)
  | process buf => exact run_alike (f := id) h (h.ctx buf)
  | becomeFirst buf =>
    have hfirst : AlikeWorlds { w with first := true } { v with first := true } :=
      ⟨by rw [h.1], h.2⟩
    exact run_alike hfirst (startWriteReply_alike (hfirst.ctx buf))
  | backend buf b e => exact run_alike h (onBackend_alike (h.ctx buf) hf)
  | writeDone buf =>
    unfold frontsRead at hf
    unfold World.next
    dsimp only at hf ⊢
    rw [hwriting] at hf ⊢
    cases hw : w.writing with
    | none => exact h
    | some b =>
      rw [hw] at hf
      exact written hf
  | writeFailed buf =>
    unfold frontsRead at hf
    unfold World.next
    dsimp only at hf ⊢
    rw [hwriting] at hf ⊢
    cases hw : w.writing with
    | none => exact h
    | some b =>
      rw [hw] at hf
      exact written hf

theorem nextBackendStartReply_fails {x : Ctx (RedisMgetCommand ε)}
    (h : [] ∈ nextBackendStartReplyFronts x) :
    Effect.assertFailed ∈ (nextBackendStartReply x).effects := by
  have hnil : x.cmd.waitingReplyQueue = [] :=
    not_not.mp fun hx => nextBackendStartReplyFronts_ne_nil hx [] h rfl
  unfold nextBackendStartReplyFronts at h
  unfold nextBackendStartReply
  split at h
  · exact absurd h List.not_mem_nil
  next hp =>
    rw [if_neg hp, hnil]
    simp [Ctx.emit]

theorem onWriteReplyFinished_fails {x : Ctx (RedisMgetCommand ε)} {backend : Option ℕ}
    {ec : ErrorCode} (h : [] ∈ onWriteReplyFinishedFronts backend ec x) :
    Effect.assertFailed ∈ (onWriteReplyFinished backend ec x).effects := by
  have hnil : x.cmd.waitingReplyQueue = [] :=
    not_not.mp fun hx => onWriteReplyFinishedFronts_ne_nil hx [] h rfl
  unfold onWriteReplyFinishedFronts at h
  unfold onWriteReplyFinished
  split at h
  · exact absurd h List.not_mem_nil
  next hec =>
    rw [if_neg hec]
    cases backend with
    | none => exact nextBackendStartReply_fails h
    | some b =>
      dsimp only at h ⊢
      split at h
      · exact absurd h List.not_mem_nil
      next hw =>
        have hstray : (x.cmd.writeDone b).waitingReplyQueue.head?.map Prod.fst ≠ some b ∨
            (x.cmd.writeDone b).replyingBackend ≠ some b := .inl (by simp [hnil])
        rw [if_neg hw, if_pos hstray]
        simp [Ctx.emit]

/-- A front that is not there fails the handler that reads it. -/
theorem nil_front_fails {e : World.Event} (h : [] ∈ frontsRead w e) :
    (w.next handlers e).crashed = true := by
  have fails : ∀ {buf ec b}, [] ∈ onWriteReplyFinishedFronts b ec ⟨buf, w.first, w.cmd, []⟩ →
      (World.run handlers { w with writing := none } buf (onWriteReplyFinished b ec)).crashed =
        true :=
    fun h => foldl_apply_crashed (onWriteReplyFinished_fails h) _
  cases e with
  | backend buf b e => exact absurd rfl (onBackendFronts_ne_nil [] h)
  | writeDone buf =>
    unfold frontsRead at h
    unfold World.next
    dsimp only at h ⊢
    cases hw : w.writing with
    | none =>
      rw [hw] at h
      exact absurd h List.not_mem_nil
    | some b =>
      rw [hw] at h
      exact fails h
  | writeFailed buf =>
    unfold frontsRead at h
    unfold World.next
    dsimp only at h ⊢
    cases hw : w.writing with
    | none =>
      rw [hw] at h
      exact absurd h List.not_mem_nil
    | some b =>
      rw [hw] at h
      exact fails h
  | _ => exact absurd h List.not_mem_nil

end Worlds
end RedisMgetCommand
end Yarmproxy
