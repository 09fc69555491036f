import Yarmproxy.Conduct
import Yarmproxy.Commands

/-! # The conduct of commands with at most one backend -/
namespace Yarmproxy

variable {ε : Type}

namespace LocalCommand

def outline : Outline LocalCommand Unit where
  core _ := ()
  members _ := ∅
  side _ _ := ⟨none, false, false⟩
  segments _ _ := []

variable {k : Bool} {x : Ctx LocalCommand}

theorem startWriteReply_steps (hf : x.first = true) : Steps outline k x (startWriteReply x) :=
  .emit hf nofun

theorem onWriteReplyFinished_ends (b : Option ℕ) (hf : x.first = true) (hk : k = true) :
    Ends outline k x (onWriteReplyFinished b x) := by
  unfold onWriteReplyFinished
  split
  · exact .emit_fatal rfl
  split
  · exact .emit_fatal rfl
  · exact .emit_rotate hf hk

end LocalCommand

namespace SingleCommand

def outline : Outline (SingleCommand ε) (SingleKind × ℕ × Bool) where
  core c := (c.kind, c.unparsedBulks, c.queryReceived)
  members _ := {0}
  side c _ := c.backend.writeSide
  segments _ _ := []

variable {k : Bool} {x : Ctx (SingleCommand ε)}

theorem still {c : SingleCommand ε} {backend : BackendConn ε} {reply : ReplyState}
    (h : backend.writeSide = c.backend.writeSide) :
    outline.Still c { c with backend := backend, reply := reply } :=
  ⟨rfl, Finset.Subset.refl _, funext fun _ => h, rfl⟩

theorem tryWriteReply_steps (hf : x.first = true) : Steps outline k x (tryWriteReply x) :=
  .write hf (still (BackendConn.writeSide_tryWriteReply 0 x.cmd.backend x.cmd.reply))
    (BackendConn.effects_tryWriteReply 0 x.cmd.backend x.cmd.reply)

theorem startWriteReply_steps (hf : x.first = true) : Steps outline k x (startWriteReply x) := by
  unfold startWriteReply
  split
  · exact tryWriteReply_steps hf
  · exact .refl ..

theorem onBackendRecoverableError_steps (ec : ErrorCode) (hk : x.cmd.queryRecvComplete = k) :
    Steps outline k x (onBackendRecoverableError ec x) := by
  have hs : outline.Still x.cmd { x.cmd with
      backend := x.cmd.backend.substitute (errorReply x.cmd.kind.protocol ec) } := still rfl
  refine (Steps.of_cmd hs).trans ?_
  unfold onBackendRecoverableError
  dsimp only
  split
  · split
    next hf => exact tryWriteReply_steps hf
    · exact .refl ..
  next hc =>
    split
    · exact .readMore (hk.symm.trans (Bool.not_eq_true _ ▸ hc))
    · exact .refl ..

theorem onReplyError_ends (ec : ErrorCode) (hk : x.cmd.queryRecvComplete = k) :
    Ends outline k x (onReplyError ec x) := by
  unfold onReplyError
  split
  · exact .emit_fatal rfl
  · exact .steps (onBackendRecoverableError_steps ec hk)

theorem forwardReply_steps : Steps outline k x (forwardReply x) := by
  have hw : Steps outline k x (if x.first then tryWriteReply x else x) := by
    split
    next hf => exact tryWriteReply_steps hf
    · exact .refl ..
  exact hw.trans (.of_cmd (still BackendConn.writeSide_tryReadMoreReply))

theorem onBackendReplyReceived_ends (ec : ErrorCode) (hk : x.cmd.queryRecvComplete = k) :
    Ends outline k x (onBackendReplyReceived ec x) := by
  unfold onBackendReplyReceived
  split
  · exact onReplyError_ends ec hk
  split
  · exact .emit_fatal rfl
  next c ok hp =>
    have hs : outline.Still x.cmd { x.cmd with backend := c } :=
      still (BackendConn.writeSide_parseReply hp)
    refine .of_cmd hs ?_
    dsimp only
    split
    · exact .steps forwardReply_steps
    · exact onReplyError_ends .protocol hk

theorem onWriteQueryFinished_sent (b : ℕ) (ec : ErrorCode) (hk : x.cmd.queryRecvComplete = k) :
    Sent outline k b ec x (onWriteQueryFinished ec x) := by
  unfold onWriteQueryFinished
  split
  · split
    · exact .emit_fatal rfl
    · exact .of_unlock ((Outline.Still.refl ..).sheds b)
        (.steps (onBackendRecoverableError_steps ec hk))
  · refine .of_unlock ((Outline.Still.refl ..).sheds b) (.steps ?_)
    dsimp only
    split
    · exact .of_cmd (still rfl)
    next hc =>
      split
      · exact .readMore (hk.symm.trans (Bool.not_eq_true _ ▸ hc))
      · exact .refl ..

theorem onWriteReplyFinished_ends (ec : ErrorCode) (hf : x.first = true)
    (hk : x.cmd.queryRecvComplete = k) : Ends outline k x (onWriteReplyFinished ec x) := by
  have hs : outline.Still x.cmd { x.cmd with
      backend := { x.cmd.backend with buffer := x.cmd.backend.buffer.decRecycleLock }
      reply := { x.cmd.reply with isWriting := false } } := still rfl
  unfold onWriteReplyFinished
  split
  · exact .emit_fatal rfl
  split
  · exact .emit_fatal rfl
  refine .of_cmd hs ?_
  dsimp only
  split
  · split
    · exact .emit_fatal rfl
    next hc =>
      simp only [Bool.or_eq_true, not_or, Bool.not_eq_true', Bool.not_eq_false] at hc
      exact .emit_rotate hf (hk.symm.trans hc.2)
  · refine .steps ((Steps.of_cmd ?_).trans (tryWriteReply_steps hf))
    exact still BackendConn.writeSide_tryReadMoreReply

end SingleCommand
end Yarmproxy
