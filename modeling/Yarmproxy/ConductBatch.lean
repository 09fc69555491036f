import Yarmproxy.Conduct
import Yarmproxy.RedisDelCommand
import Mathlib.Data.Finset.Dedup

/-! # The conduct of commands whose subqueries come in batches -/
namespace Yarmproxy

variable {ε : Type}

namespace RedisMsetCommand

/-- What the command knows of its request. -/
structure Progress where
  unparsedBulks : ℕ
  tailQuery : Option ℕ
  received : ℕ → Bool
  waiting : List ℕ

def progress (c : RedisMsetCommand ε) : Progress :=
  ⟨c.unparsedBulks, c.tailQuery, fun b => (c.subquery b).queryRecvComplete, c.waitingSubqueries⟩

def outline : Outline (RedisMsetCommand ε) Progress :=
  .split progress (fun c => c.pendingSubqueries.toFinset) subquery MsetSubquery.backend
    MsetSubquery.segments

variable {b : ℕ} {k : Bool} {c c' : RedisMsetCommand ε} {s : MsetSubquery ε}
variable {x : Ctx (RedisMsetCommand ε)}

theorem queryRecvComplete_eq (h : c'.progress = c.progress) :
    c'.queryRecvComplete = c.queryRecvComplete := by
  obtain ⟨h₁, h₂, h₃, -⟩ := Progress.mk.inj h
  simp only [queryRecvComplete, tailComplete, queryParsingComplete, h₁, h₂, fun b => congrFun h₃ b]

theorem progress_setSubquery (hr : s.queryRecvComplete = (c.subquery b).queryRecvComplete) :
    (c.setSubquery b s).progress = c.progress := by
  rw [progress, progress, Progress.mk.injEq]
  exact ⟨rfl, rfl, Outline.comp_update hr, rfl⟩

theorem still_setSubquery (hw : s.backend.writeSide = (c.backend b).writeSide)
    (hr : s.queryRecvComplete = (c.subquery b).queryRecvComplete)
    (hs : s.segments = (c.subquery b).segments) : outline.Still c (c.setSubquery b s) :=
  Outline.still_of_update (progress_setSubquery hr) (Finset.Subset.refl _) rfl hw hs

theorem still_setBackend {k : BackendConn ε} (hk : k.writeSide = (c.backend b).writeSide) :
    outline.Still c (c.setBackend b k) :=
  still_setSubquery hk rfl rfl

theorem still_of_eq (hp : c'.progress = c.progress)
    (hm : c'.pendingSubqueries = c.pendingSubqueries)
    (hq : c'.subquery = c.subquery) : outline.Still c c' :=
  Outline.still_of_eq hp (by rw [hm]) hq

theorem still_release (c : RedisMsetCommand ε) (b : ℕ) : outline.Still c (c.release b) := by
  refine Outline.still_of_eq rfl (fun b' hb => ?_) rfl
  rw [List.mem_toFinset] at hb ⊢
  exact List.mem_of_mem_filter hb

theorem tryWriteReply_steps (b : ℕ) (hf : x.first = true) : Steps outline k x (tryWriteReply b x) :=
  .write hf ((still_setBackend (BackendConn.writeSide_tryWriteReply b _ x.cmd.reply)).trans
    (still_of_eq rfl rfl rfl)) (BackendConn.effects_tryWriteReply b (x.cmd.backend b) x.cmd.reply)

theorem replyOrWait_steps (b : ℕ) : Steps outline k x (replyOrWait b x) := by
  unfold replyOrWait
  split
  next hf => exact tryWriteReply_steps b hf
  · exact .of_cmd (still_of_eq rfl rfl rfl)

theorem startWriteReply_ends (hf : x.first = true) : Ends outline k x (startWriteReply x) := by
  unfold startWriteReply
  split
  · split
    · exact .steps (tryWriteReply_steps _ hf)
    · exact .steps (.refl ..)
  · exact .steps (.refl ..)

theorem onBackendRecoverableError_steps (b : ℕ) (ec : ErrorCode)
    (hw : x.cmd.reply.hasWrittenSome = false) :
    Steps outline k x (onBackendRecoverableError b ec x) := by
  have hs : outline.Still x.cmd (x.cmd.setBackend b
      ((x.cmd.backend b).substitute (redisErrorReply ec))) := still_setBackend rfl
  refine (Steps.of_cmd hs).trans ?_
  unfold onBackendRecoverableError
  rw [hw, if_neg nofun]
  dsimp only
  split
  · split
    · exact replyOrWait_steps b
    · exact .of_cmd (still_release ..)
  · exact .refl ..

theorem not_complete (h : 0 < x.cmd.unparsedBulks) : x.cmd.queryRecvComplete = false := by
  rw [queryRecvComplete, queryParsingComplete, beq_false_of_ne (Nat.pos_iff_ne_zero.mp h),
    Bool.and_false]

theorem replyReceived_ends (b : ℕ) (hk : x.cmd.queryRecvComplete = k) :
    Ends outline k x (replyReceived b x) := by
  unfold replyReceived
  split
  · exact .emit_fatal rfl
  split
  · exact .steps (replyOrWait_steps b)
  dsimp only
  split
  · exact .emit_fatal rfl
  · have hs : ∀ k : BackendConn ε, k.writeSide = (x.cmd.backend b).writeSide →
        outline.Still x.cmd ((x.cmd.setBackend b k).release b) := fun k hk =>
      (still_setBackend hk).trans (still_release ..)
    refine .of_cmd (hs { x.cmd.backend b with
      buffer := (x.cmd.backend b).buffer.updateProcessedBytes
        (x.cmd.backend b).buffer.unprocessedBytes } rfl) ?_
    split
    next hu => exact .steps (.readMore (hk.symm.trans (not_complete hu.1)))
    · exact .steps (.refl ..)

theorem onBackendReplyReceived_ends (b : ℕ) (ec : ErrorCode) (hk : x.cmd.queryRecvComplete = k) :
    Ends outline k x (onBackendReplyReceived b ec x) := by
  unfold onBackendReplyReceived
  split
  · exact .emit_fatal rfl
  split
  · exact .emit_fatal rfl
  next backend ok hp =>
    have hs := still_setBackend (c := x.cmd) (b := b) (BackendConn.writeSide_parseReply hp)
    refine .of_cmd hs ?_
    dsimp only
    split
    · exact .emit_fatal rfl
    split
    · refine .steps (.of_cmd (still_setBackend ?_))
      simp only [BackendConn.writeSide_tryReadMoreReply, RedisMsetCommand.backend, setBackend,
        setSubquery, Function.update_self]
    · exact replyReceived_ends b ((queryRecvComplete_eq hs.core).trans hk)

theorem readMore_steps (hk : x.cmd.queryRecvComplete = k) : Steps outline k x (readMore x) := by
  unfold readMore
  split
  next hr => exact .readMore (hk.symm.trans hr.1)
  · exact .refl ..

theorem still_readReply (c : RedisMsetCommand ε) (b : ℕ) :
    outline.Still c (if (c.subquery b).queryRecvComplete then
      c.setSubquery b { c.subquery b with
        phase := .readingReply, backend := (c.subquery b).backend.readReply }
      else c) := by
  split
  · exact still_setSubquery rfl rfl rfl
  · exact .refl ..

theorem querySent_sent (h : outline.Sheds b x.cmd c) (hk : x.cmd.queryRecvComplete = k) :
    Sent outline k b ec x (querySent b { x with cmd := c }) := by
  have hs := h.still (still_readReply c b)
  exact .of_unlock hs (.steps (readMore_steps ((queryRecvComplete_eq hs.core).trans hk)))

theorem onWriteQueryFinished_sent (b : ℕ) (ec : ErrorCode) (hk : x.cmd.queryRecvComplete = k) :
    Sent outline k b ec x (onWriteQueryFinished b ec x) := by
  unfold onWriteQueryFinished
  split
  · split
    · cases hw : x.cmd.reply.hasWrittenSome with
      | true =>
        dsimp only [onBackendRecoverableError]
        rw [hw, if_pos rfl]
        refine .of_fatal (e := .assertFailed) rfl ?_ (readMore_steps hk)
        rfl
      | false =>
        have hs := onBackendRecoverableError_steps (k := k) b ec hw
        exact .of_steps hs (readMore_steps ((queryRecvComplete_eq hs.still.core).trans hk))
    · exact .emit_fatal rfl
  dsimp only
  split
  · split
    · exact .emit_fatal rfl
    next t segments ht =>
      exact .writing (not_not.mp ‹_›)
        (Outline.sends_of_update (progress_setSubquery rfl) rfl rfl rfl
        (ht ▸ List.mem_cons_self ..) fun u hu => hu) rfl rfl rfl
  · split
    · exact querySent_sent (Outline.sheds_of_update (progress_setSubquery rfl)
        (Finset.Subset.refl _) rfl rfl nofun) hk
    next t segments ht =>
      have hmem : ∀ u ∈ t :: segments, u ∈ (x.cmd.subquery b).segments := by
        rw [← ht]
        exact fun u hu => List.mem_of_mem_tail hu
      exact .writing (not_not.mp ‹_›)
        (Outline.sends_of_update (progress_setSubquery rfl) rfl rfl rfl
        (hmem t (List.mem_cons_self ..)) hmem) rfl rfl rfl
  · exact querySent_sent ((Outline.Still.refl ..).sheds b) hk
  · exact .emit_fatal rfl

theorem onWriteReplyFinished_ends (b : ℕ) (ec : ErrorCode) (hf : x.first = true)
    (hk : x.cmd.queryRecvComplete = k) : Ends outline k x (onWriteReplyFinished b ec x) := by
  unfold onWriteReplyFinished
  split
  · exact .emit_fatal rfl
  split
  · exact .emit_fatal rfl
  have hs : ∀ k : BackendConn ε, k.writeSide = (x.cmd.backend b).writeSide →
      outline.Still x.cmd { x.cmd.setBackend b k with
        reply := { x.cmd.reply with isWriting := false } } := fun k hk =>
    (still_setBackend hk).trans (still_of_eq rfl rfl rfl)
  have hd := hs { x.cmd.backend b with buffer := (x.cmd.backend b).buffer.decRecycleLock } rfl
  refine .of_cmd hd ?_
  dsimp only
  split
  · split
    · exact .emit_fatal rfl
    next hc =>
      simp only [Bool.or_eq_true, not_or, Bool.not_eq_true', Bool.not_eq_false] at hc
      exact .emit_rotate hf (hk.symm.trans ((queryRecvComplete_eq hd.core).symm.trans hc.2))
  · refine .of_cmd (still_setBackend ?_) (.steps (tryWriteReply_steps b hf))
    rw [BackendConn.writeSide_tryReadMoreReply]
    simp only [backend, setBackend, setSubquery, Function.update_self]

end RedisMsetCommand

namespace RedisDelCommand

def outline : Outline (RedisDelCommand ε) (ℕ × List ℕ) :=
  .split (fun c => (c.unparsedBulks, c.waitingSubqueries)) (fun c => c.pendingSubqueries.toFinset)
    subquery DelSubquery.backend DelSubquery.segments

variable {b : ℕ} {k : Bool} {c c' : RedisDelCommand ε} {x : Ctx (RedisDelCommand ε)}

theorem queryRecvComplete_eq (h : outline.core c' = outline.core c) :
    c'.queryRecvComplete = c.queryRecvComplete := by
  rw [queryRecvComplete, queryRecvComplete, (Prod.mk.inj h).1]

theorem still_setBackend {k : BackendConn ε} (hk : k.writeSide = (c.backend b).writeSide) :
    outline.Still c (c.setBackend b k) :=
  Outline.still_of_update rfl (Finset.Subset.refl _) rfl hk rfl

theorem still_of_eq (hp : outline.core c' = outline.core c)
    (hm : c'.pendingSubqueries = c.pendingSubqueries) (hq : c'.subquery = c.subquery) :
    outline.Still c c' :=
  Outline.still_of_eq hp (by rw [hm]) hq

theorem still_release (c : RedisDelCommand ε) (b : ℕ) : outline.Still c (c.release b) := by
  refine Outline.still_of_eq rfl (fun b' hb => ?_) rfl
  rw [List.mem_toFinset] at hb ⊢
  exact List.mem_of_mem_filter hb

theorem tryWriteReply_steps (b : ℕ) (hf : x.first = true) : Steps outline k x (tryWriteReply b x) :=
  .write hf ((still_setBackend (BackendConn.writeSide_tryWriteReply b _ x.cmd.reply)).trans
    (still_of_eq rfl rfl rfl)) (BackendConn.effects_tryWriteReply b (x.cmd.backend b) x.cmd.reply)

theorem replyOrWait_steps (b : ℕ) : Steps outline k x (replyOrWait b x) := by
  have hs : outline.Still x.cmd (x.cmd.setBackend b
      ((x.cmd.backend b).setReplyData (replyCount x.cmd.totalDelCount) true)) :=
        still_setBackend rfl
  refine (Steps.of_cmd hs).trans ?_
  unfold replyOrWait
  dsimp only
  split
  next hf => exact tryWriteReply_steps b hf
  · exact .of_cmd (still_of_eq rfl rfl rfl)

theorem startWriteReply_ends (hf : x.first = true) : Ends outline k x (startWriteReply x) := by
  unfold startWriteReply
  split
  · split
    · exact .steps (tryWriteReply_steps _ hf)
    · exact .steps (.refl ..)
  · exact .steps (.refl ..)

theorem onBackendRecoverableError_steps (b : ℕ) :
    Steps outline k x (onBackendRecoverableError b x) := by
  have hs : outline.Still x.cmd (x.cmd.setBackend b
      (x.cmd.backend b).setReplyRecvComplete.setNoRecycle) := still_setBackend rfl
  refine (Steps.of_cmd hs).trans ?_
  unfold onBackendRecoverableError
  dsimp only
  split
  · exact replyOrWait_steps b
  · exact .of_cmd (still_release ..)

theorem still_parseReply {ok : Bool} (h : c.parseReply b = some (c', ok)) : outline.Still c c' := by
  unfold parseReply at h
  dsimp only at h
  split at h
  · cases h
  split at h
  · cases h
    exact .refl ..
  split at h
  · cases h
    exact .refl ..
  split at h
  · cases h
    exact .refl ..
  · cases h
    refine .trans (still_setBackend ?_) (still_of_eq rfl rfl rfl)
    rfl

theorem replyReceived_ends (b : ℕ) (hk : x.cmd.queryRecvComplete = k) :
    Ends outline k x (replyReceived b x) := by
  unfold replyReceived
  split
  · exact .steps (replyOrWait_steps b)
  dsimp only
  split
  · exact .emit_fatal rfl
  · have hs : ∀ k : BackendConn ε, k.writeSide = (x.cmd.backend b).writeSide →
        outline.Still x.cmd ((x.cmd.setBackend b k).release b) := fun k hk =>
      (still_setBackend hk).trans (still_release ..)
    refine .of_cmd (hs { x.cmd.backend b with
      buffer := (x.cmd.backend b).buffer.updateProcessedBytes
        (x.cmd.backend b).buffer.unprocessedBytes } rfl) ?_
    split
    next hu =>
      exact .steps (.readMore (hk.symm.trans (beq_false_of_ne (Nat.pos_iff_ne_zero.mp hu.2))))
    · exact .steps (.refl ..)

theorem onBackendReplyReceived_ends (b : ℕ) (ec : ErrorCode) (hk : x.cmd.queryRecvComplete = k) :
    Ends outline k x (onBackendReplyReceived b ec x) := by
  unfold onBackendReplyReceived
  split
  · exact .emit_fatal rfl
  split
  · exact .emit_fatal rfl
  next c ok hp =>
    refine .of_cmd (still_parseReply hp) ?_
    dsimp only
    split
    · exact .emit_fatal rfl
    split
    · exact .steps (.of_cmd (still_setBackend BackendConn.writeSide_tryReadMoreReply))
    · exact replyReceived_ends b ((queryRecvComplete_eq (still_parseReply hp).core).trans hk)

theorem onWriteQueryFinished_sent (b : ℕ) (ec : ErrorCode) (hk : x.cmd.queryRecvComplete = k) :
    Sent outline k b ec x (onWriteQueryFinished b ec x) := by
  unfold onWriteQueryFinished
  split
  · split
    · have hs := onBackendRecoverableError_steps (k := k) (x := x) b
      refine .of_steps hs ?_
      dsimp only
      split
      next hr =>
        exact .readMore (hk.symm.trans ((queryRecvComplete_eq hs.still.core).symm.trans hr.2))
      · exact .refl ..
    · exact .emit_fatal rfl
  dsimp only
  split
  · split
    · exact .emit_fatal rfl
    next t segments ht =>
      exact .writing (not_not.mp ‹_›)
        (Outline.sends_of_update rfl rfl rfl rfl (ht ▸ List.mem_cons_self ..)
        fun u hu => hu) rfl rfl rfl
  · split
    · have hs : outline.Sheds b x.cmd (x.cmd.setSubquery b { x.cmd.subquery b with
          segments := [], phase := .readingReply
          backend := (x.cmd.subquery b).backend.readReply }) :=
        Outline.sheds_of_update rfl (Finset.Subset.refl _) rfl rfl nofun
      exact .of_unlock hs (.steps (.refl ..))
    next t segments ht =>
      have hmem : ∀ u ∈ t :: segments, u ∈ (x.cmd.subquery b).segments := by
        rw [← ht]
        exact fun u hu => List.mem_of_mem_tail hu
      exact .writing (not_not.mp ‹_›)
        (Outline.sends_of_update rfl rfl rfl rfl (hmem t (List.mem_cons_self ..)) hmem)
        rfl rfl rfl
  · exact .emit_fatal rfl

theorem onWriteReplyFinished_ends (b : ℕ) (ec : ErrorCode) (hf : x.first = true)
    (hk : x.cmd.queryRecvComplete = k) : Ends outline k x (onWriteReplyFinished b ec x) := by
  unfold onWriteReplyFinished
  split
  · exact .emit_fatal rfl
  split
  · exact .emit_fatal rfl
  have hs : ∀ k : BackendConn ε, k.writeSide = (x.cmd.backend b).writeSide →
      outline.Still x.cmd { x.cmd.setBackend b k with
        reply := { x.cmd.reply with isWriting := false } } := fun k hk =>
    (still_setBackend hk).trans (still_of_eq rfl rfl rfl)
  have hd := hs { x.cmd.backend b with buffer := (x.cmd.backend b).buffer.decRecycleLock } rfl
  refine .of_cmd hd ?_
  dsimp only
  split
  · split
    · exact .emit_fatal rfl
    next hc =>
      simp only [Bool.or_eq_true, not_or, Bool.not_eq_true', Bool.not_eq_false] at hc
      exact .emit_rotate hf (hk.symm.trans ((queryRecvComplete_eq hd.core).symm.trans hc.2))
  · refine .of_cmd (still_setBackend ?_) (.steps (tryWriteReply_steps b hf))
    rw [BackendConn.writeSide_tryReadMoreReply]
    simp only [backend, setBackend, setSubquery, Function.update_self]

end RedisDelCommand
end Yarmproxy
