import Yarmproxy.Conduct
import Yarmproxy.RedisMgetCommand

/-! # The conduct of commands that are split over several backends -/
namespace Yarmproxy

variable {ε : Type}

namespace MemcGetCommand

def outline : Outline (MemcGetCommand ε) Unit :=
  .split (fun _ => ()) (fun c => Finset.range c.count) subquery MemcSubquery.backend
    MemcSubquery.segments

variable {b : ℕ} {c c' : MemcGetCommand ε} {x : Ctx (MemcGetCommand ε)}

theorem still_of_eq (hc : c'.count = c.count) (hq : c'.subquery = c.subquery) :
    outline.Still c c' :=
  Outline.still_of_eq rfl (by rw [hc]) hq

theorem still_setBackend {k : BackendConn ε} (hk : k.writeSide = (c.backend b).writeSide) :
    outline.Still c (c.setBackend b k) :=
  Outline.still_of_update rfl (Finset.Subset.refl _) rfl hk rfl

theorem subquery_setBackend {k : BackendConn ε} {s : MemcSubquery ε} :
    ((c.setSubquery b s).setBackend b k).subquery =
      Function.update c.subquery b { s with backend := k } := by
  simp only [setBackend, setSubquery, Function.update_self, Function.update_idem]

theorem tryWriteReply_steps (b : ℕ) (hf : x.first = true) :
    Steps outline true x (tryWriteReply b x) :=
  .write hf ((still_setBackend (BackendConn.writeSide_tryWriteReply b _ x.cmd.reply)).trans
    (still_of_eq rfl rfl)) (BackendConn.effects_tryWriteReply b (x.cmd.backend b) x.cmd.reply)

/-- The recursion follows the queue of backends that are ready. -/
theorem nextBackendStartReply_ends (queue : List ℕ) (hf : x.first = true) :
    Ends outline true x (nextBackendStartReply queue x) := by
  induction queue generalizing x with
  | nil => exact .steps (.of_cmd (still_of_eq rfl rfl))
  | cons b queue ih =>
    have hq : outline.Still x.cmd { x.cmd with waitingReplyQueue := queue } := still_of_eq rfl rfl
    refine .of_cmd hq ?_
    rw [nextBackendStartReply]
    dsimp only
    split
    · have hn : outline.Still { x.cmd with waitingReplyQueue := queue } { x.cmd with
          waitingReplyQueue := queue
          completedBackends := x.cmd.completedBackends + 1 } := still_of_eq rfl rfl
      refine .of_cmd hn ?_
      split
      · exact ih hf
      · exact .emit_rotate hf rfl
    · refine Ends.cmd (.steps (tryWriteReply_steps b ?_)) ?_
      · exact hf
      · exact still_of_eq rfl rfl

theorem rotateReplyingBackend_ends (hf : x.first = true) :
    Ends outline true x (rotateReplyingBackend x) := by
  have hn : outline.Still x.cmd { x.cmd with completedBackends := x.cmd.completedBackends + 1 } :=
    still_of_eq rfl rfl
  refine .of_cmd hn ?_
  unfold rotateReplyingBackend
  dsimp only
  split
  · exact nextBackendStartReply_ends _ hf
  · exact .emit_rotate hf rfl

theorem backendReadyToReply_ends (b : ℕ) : Ends outline true x (backendReadyToReply b x) := by
  unfold backendReadyToReply
  split
  next ha =>
    have hf : x.first = true := (Bool.and_eq_true_iff.mp ha).1
    have hr : outline.Still x.cmd { x.cmd with replyingBackend := some b } := still_of_eq rfl rfl
    refine .of_cmd hr ?_
    dsimp only
    split
    · exact rotateReplyingBackend_ends hf
    · exact .steps (tryWriteReply_steps b hf)
  · split
    · exact .steps (.refl ..)
    · exact .steps (.of_cmd (still_of_eq rfl rfl))

theorem still_tryMarkLastBackend (c : MemcGetCommand ε) (b : ℕ) :
    outline.Still c (c.tryMarkLastBackend b) := by
  unfold tryMarkLastBackend
  split
  · exact .refl ..
  · exact still_of_eq rfl rfl

theorem onBackendRecoverableError_ends (b : ℕ) (ec : ErrorCode) :
    Ends outline true x (onBackendRecoverableError b ec x) := by
  refine .of_cmd (still_tryMarkLastBackend x.cmd b) ?_
  generalize hc : x.cmd.tryMarkLastBackend b = c
  unfold onBackendRecoverableError
  rw [hc]
  dsimp only
  refine .of_cmd (still_setBackend ?_) (backendReadyToReply_ends b)
  split <;> rfl

theorem onReplyError_ends (b : ℕ) (ec : ErrorCode) : Ends outline true x (onReplyError b ec x) := by
  unfold onReplyError
  split
  · exact .emit_fatal rfl
  · exact onBackendRecoverableError_ends b ec

theorem writeSide_parseReplyLoop {last ok : Bool} {fuel : ℕ} {k k' : BackendConn ε}
    (h : parseReplyLoop last fuel k = some (k', ok)) : k'.writeSide = k.writeSide := by
  induction fuel generalizing k with
  | zero =>
    rw [parseReplyLoop] at h
    split at h
    · cases h
      rfl
    · cases h
  | succ fuel ih =>
    rw [parseReplyLoop] at h
    dsimp only at h
    split at h
    · cases h
      rfl
    split at h
    · cases h
      rfl
    split at h
    · simp only [Option.bind_eq_bind, Option.bind_eq_some_iff] at h
      obtain ⟨body, _, h⟩ := h
      exact (ih h).trans rfl
    · split at h <;> cases h <;> rfl

theorem onBackendReplyReceived_ends (b : ℕ) (ec : ErrorCode) :
    Ends outline true x (onBackendReplyReceived b ec x) := by
  refine .of_cmd (still_tryMarkLastBackend x.cmd b) ?_
  unfold onBackendReplyReceived
  dsimp only
  split
  · exact onReplyError_ends b ec
  split
  · exact .emit_fatal rfl
  next backend ok hp =>
    refine .of_cmd (still_setBackend (writeSide_parseReplyLoop hp)) ?_
    split
    · exact (backendReadyToReply_ends b).cmd
        (still_setBackend BackendConn.writeSide_tryReadMoreReply)
    · exact onReplyError_ends b .protocol

theorem startWriteReply_ends (hf : x.first = true) : Ends outline true x (startWriteReply x) :=
  nextBackendStartReply_ends _ hf

theorem onWriteQueryFinished_sent (b : ℕ) (ec : ErrorCode) :
    Sent outline true b ec x (onWriteQueryFinished b ec x) := by
  unfold onWriteQueryFinished
  split
  · split
    · exact .of_emit (onBackendRecoverableError_ends b ec)
    · exact .emit_fatal rfl
  dsimp only
  split
  next hne =>
    obtain ⟨s, segments, hs⟩ := List.exists_cons_of_ne_nil hne
    have hfront : ∀ c : MemcGetCommand ε, (c.subquery b).segments = s :: segments →
        c.writeFront b = c.setBackend b ((c.backend b).writeQuery s.at_ s.bytes) := by
      intro c hc
      rw [writeFront, hc]
    rw [hfront _ (by simp only [setSubquery, Function.update_self, hs])]
    refine .writing (not_not.mp ‹_›)
      (Outline.sends_of_update (t := s) rfl rfl subquery_setBackend ?_ ?_ ?_) rfl rfl rfl
    · simp only [backend, setSubquery, Function.update_self]
    · exact List.mem_of_mem_tail (hs ▸ List.mem_cons_self ..)
    · exact fun t ht => List.mem_of_mem_tail ht
  · have hs : ∀ k : BackendConn ε, k.writeSide = (x.cmd.backend b).writeSide →
        outline.Sheds b x.cmd ((x.cmd.setSubquery b { x.cmd.subquery b with
          segments := (x.cmd.subquery b).segments.tail }).setBackend b k) := fun k hk =>
      Outline.sheds_of_update rfl (Finset.Subset.refl _) subquery_setBackend hk
        fun t ht => List.mem_of_mem_tail ht
    refine .of_unlock (hs _ ?_) (.steps (.refl ..))
    simp only [backend, setSubquery, Function.update_self]
    rfl

theorem onWriteReplyFinished_ends (b : Option ℕ) (ec : ErrorCode) (hf : x.first = true) :
    Ends outline true x (handlers.onWriteReplyFinished b ec x) := by
  cases b with
  | none => exact .emit_fatal rfl
  | some b =>
    dsimp only [handlers]
    unfold onWriteReplyFinished
    split
    · exact .emit_fatal rfl
    split
    · exact .emit_fatal rfl
    have hs : ∀ k : BackendConn ε, k.writeSide = (x.cmd.backend b).writeSide →
        outline.Still x.cmd { x.cmd.setBackend b k with
          reply := { x.cmd.reply with isWriting := false } } := fun k hk =>
      (still_setBackend hk).trans (still_of_eq rfl rfl)
    refine .of_cmd
      (hs { x.cmd.backend b with buffer := (x.cmd.backend b).buffer.decRecycleLock } rfl) ?_
    dsimp only
    split
    · split
      · exact .emit_fatal rfl
      · exact rotateReplyingBackend_ends hf
    · refine .of_cmd (still_setBackend ?_) (.steps (tryWriteReply_steps b hf))
      rw [BackendConn.writeSide_tryReadMoreReply]
      simp only [backend, setBackend, setSubquery, Function.update_self]

end MemcGetCommand

namespace RedisMgetCommand

def outline : Outline (RedisMgetCommand ε) Unit :=
  .split (fun _ => ()) (fun c => Finset.range c.count) subquery MgetSubquery.backend
    MgetSubquery.segments

variable {b : ℕ} {c c' : RedisMgetCommand ε} {s s' : MgetSubquery ε} {x : Ctx (RedisMgetCommand ε)}

theorem still_of_eq (hc : c'.count = c.count) (hq : c'.subquery = c.subquery) :
    outline.Still c c' :=
  Outline.still_of_eq rfl (by rw [hc]) hq

theorem still_setSubquery (hw : s.backend.writeSide = (c.backend b).writeSide)
    (hs : s.segments = (c.subquery b).segments) : outline.Still c (c.setSubquery b s) :=
  Outline.still_of_update rfl (Finset.Subset.refl _) rfl hw hs

theorem still_setBackend {k : BackendConn ε} (hk : k.writeSide = (c.backend b).writeSide) :
    outline.Still c (c.setBackend b k) :=
  still_setSubquery hk rfl

theorem startWriteReply_ends (hf : x.first = true) : Ends outline true x (startWriteReply x) :=
  .steps (.emit hf nofun)

theorem tryWriteReply_steps (b : ℕ) (hf : x.first = true) :
    Steps outline true x (tryWriteReply b x) :=
  .write hf ((still_setBackend (BackendConn.writeSide_tryWriteReply b _ x.cmd.reply)).trans
    (still_of_eq rfl rfl)) (BackendConn.effects_tryWriteReply b (x.cmd.backend b) x.cmd.reply)

theorem taking_same (s : MgetSubquery ε) (buffer : ReadBuffer) (absent : ℕ) (completed : Bool) :
    (taking s buffer absent completed).backend.writeSide = s.backend.writeSide ∧
      (taking s buffer absent completed).segments = s.segments := by
  cases completed <;> exact ⟨rfl, rfl⟩

theorem parseRound_same {round : Round} (h : parseRound s = some (s', round)) :
    s'.backend.writeSide = s.backend.writeSide ∧ s'.segments = s.segments := by
  unfold parseRound at h
  split at h
  · simp only [parseFirst, Option.bind_eq_bind, Option.bind_eq_some_iff] at h
    obtain ⟨ba, _, h⟩ := h
    split at h
    · cases h
      exact ⟨rfl, rfl⟩
    split at h
    · cases h
      exact ⟨rfl, rfl⟩
    split at h
    · cases h
      exact ⟨rfl, rfl⟩
    · simp only [takeFirst, Option.bind_eq_bind, Option.bind_eq_some_iff] at h
      obtain ⟨total, _, h⟩ := h
      split at h
      · cases h
        exact ⟨rfl, rfl⟩
      · split at h
        · obtain ⟨completed, _, h⟩ := Option.bind_eq_some_iff.mp h
          cases h
          exact taking_same ..
        · cases h
          exact taking_same ..
  · simp only [parseNext, Option.bind_eq_bind] at h
    split at h
    · cases h
      exact ⟨rfl, rfl⟩
    split at h
    · cases h
      exact ⟨rfl, rfl⟩
    · obtain ⟨total, _, h⟩ := Option.bind_eq_some_iff.mp h
      split at h
      · obtain ⟨completed, _, h⟩ := Option.bind_eq_some_iff.mp h
        cases h
        exact taking_same ..
      · cases h
        exact taking_same ..

theorem still_takeBulk {used : Bool} (h : takeBulk c = some (c', used)) : outline.Still c c' := by
  unfold takeBulk at h
  split at h
  · cases h
    exact still_of_eq rfl rfl
  · cases h

theorem still_parseReplyLoop {fuel : ℕ} {ok : Bool} (h : parseReplyLoop b fuel c = some (c', ok)) :
    outline.Still c c' := by
  induction fuel generalizing c with
  | zero =>
    rw [parseReplyLoop] at h
    split at h
    · cases h
      exact .refl ..
    · cases h
  | succ fuel ih =>
    rw [parseReplyLoop] at h
    split at h
    · cases h
      exact .refl ..
    simp only [Option.bind_eq_bind, Option.bind_eq_some_iff] at h
    obtain ⟨⟨s, round⟩, hr, h⟩ := h
    obtain ⟨hw, hs⟩ := parseRound_same hr
    refine (still_setSubquery hw hs).trans ?_
    cases round with
    | failed | waiting =>
      cases h
      exact .refl ..
    | bulk =>
      obtain ⟨⟨c₁, used⟩, ht, h⟩ := Option.bind_eq_some_iff.mp h
      refine (still_takeBulk ht).trans ?_
      dsimp only at h
      split at h
      · cases h
        exact .refl ..
      · exact ih h

theorem still_parseReply {ok : Bool} (h : c.parseReply b = some (c', ok)) : outline.Still c c' := by
  unfold parseReply at h
  dsimp only at h
  split at h
  · obtain ⟨rfl, -⟩ := Prod.mk.inj (Option.some.inj h)
    split
    · exact still_setBackend rfl
    · exact .refl ..
  · exact still_parseReplyLoop h

theorem backendReadyToReply_ends (b : ℕ) : Ends outline true x (backendReadyToReply b x) := by
  unfold backendReadyToReply
  split
  · exact .steps (.refl ..)
  next hf =>
  split
  · exact .emit_fatal rfl
  split
  · exact .steps (.refl ..)
  split
  · exact .steps (.refl ..)
  have hr : outline.Still x.cmd { x.cmd with replyingBackend := some b } := still_of_eq rfl rfl
  refine .of_cmd hr ?_
  dsimp only
  cases hp : parseReply { x.cmd with replyingBackend := some b } b with
  | none => exact .emit_fatal rfl
  | some r =>
    obtain ⟨c, ok⟩ := r
    refine .of_cmd (still_parseReply hp) ?_
    unfold afterParse
    dsimp only
    split
    · exact .emit_fatal rfl
    split
    · exact .steps (.of_cmd (still_setBackend BackendConn.writeSide_tryReadMoreReply))
    · exact .steps (tryWriteReply_steps b (by simpa using hf))

theorem nextBackendStartReply_ends : Ends outline true x (nextBackendStartReply x) := by
  unfold nextBackendStartReply
  split
  · exact .steps (.refl ..)
  split
  · exact .emit_fatal rfl
  split
  · exact backendReadyToReply_ends _
  · exact .steps (.refl ..)

theorem rotateReplyingBackend_ends (hf : x.first = true) :
    Ends outline true x (rotateReplyingBackend x) := by
  unfold rotateReplyingBackend
  split
  · exact .emit_rotate hf rfl
  · exact nextBackendStartReply_ends

theorem still_writeDone (c : RedisMgetCommand ε) (b : ℕ) : outline.Still c (c.writeDone b) := by
  have hb : outline.Still c (c.setBackend b { c.backend b with
      buffer := (c.backend b).buffer.decRecycleLock }) := still_setBackend rfl
  exact hb.trans (still_of_eq rfl rfl)

theorem still_popRun (c : RedisMgetCommand ε) : outline.Still c c.popRun := by
  unfold popRun
  split
  · exact still_of_eq rfl rfl
  · exact .refl ..

theorem onWriteReplyFinished_ends (b : Option ℕ) (ec : ErrorCode) (hf : x.first = true) :
    Ends outline true x (onWriteReplyFinished b ec x) := by
  unfold onWriteReplyFinished
  split
  · exact .emit_fatal rfl
  split
  · have hp : outline.Still x.cmd { x.cmd with replyPrefix := [] } := still_of_eq rfl rfl
    exact .of_cmd hp nextBackendStartReply_ends
  next b =>
    split
    · exact .emit_fatal rfl
    refine .of_cmd (still_writeDone x.cmd b) ?_
    dsimp only
    split
    · exact .emit_fatal rfl
    split
    · exact .of_cmd (still_popRun _) (rotateReplyingBackend_ends hf)
    · exact .steps (.of_cmd (still_setBackend BackendConn.writeSide_tryReadMoreReply))

theorem onBackendRecoverableError_ends (b : ℕ) :
    Ends outline true x (onBackendRecoverableError b x) := by
  refine .of_cmd (still_setBackend ?_) (backendReadyToReply_ends b)
  rfl

theorem onBackendReplyReceived_ends (b : ℕ) (ec : ErrorCode) :
    Ends outline true x (onBackendReplyReceived b ec x) := by
  unfold onBackendReplyReceived
  split
  · split
    · exact .emit_fatal rfl
    · exact onBackendRecoverableError_ends b
  · exact backendReadyToReply_ends b

theorem onWriteQueryFinished_sent (b : ℕ) (ec : ErrorCode) :
    Sent outline true b ec x (onWriteQueryFinished b ec x) := by
  unfold onWriteQueryFinished
  split
  · split
    · exact .of_emit (onBackendRecoverableError_ends b)
    · exact .emit_fatal rfl
  dsimp only
  split
  · have hs : outline.Sheds b x.cmd (x.cmd.setSubquery b { x.cmd.subquery b with
        segments := [], backend := (x.cmd.subquery b).backend.readReply }) :=
      Outline.sheds_of_update rfl (Finset.Subset.refl _) rfl rfl nofun
    exact .of_unlock hs (.steps (.refl ..))
  next t segments ht =>
    have hmem : ∀ u ∈ t :: segments, u ∈ (x.cmd.subquery b).segments := by
      rw [← ht]
      exact fun u hu => List.mem_of_mem_tail hu
    exact .writing (not_not.mp ‹_›)
      (Outline.sends_of_update rfl rfl rfl rfl (hmem t (List.mem_cons_self ..)) hmem)
      rfl rfl rfl

end RedisMgetCommand
end Yarmproxy
