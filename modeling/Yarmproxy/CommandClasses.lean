import Yarmproxy.ConductBatch
import Yarmproxy.ConductSingle
import Yarmproxy.ConductSplit

/-! # A family of several classes

A command of a family belongs to one of its classes, and a handler of the family runs the handler
of that class. What the classes keep to, the family keeps to. -/
namespace Yarmproxy

variable {ε C D : Type}

/-- The context of a handler of one class, seen by the family. -/
def Ctx.as (wrap : D → C) (x : Ctx D) : Ctx C := ⟨x.buffer, x.first, wrap x.cmd, x.effects⟩

theorem Ctx.exists_as {wrap : D → C} {d : D} {x : Ctx C} (h : x.cmd = wrap d) :
    ∃ y : Ctx D, x = y.as wrap := by
  obtain ⟨buffer, first, cmd, effects⟩ := x
  exact ⟨⟨buffer, first, d, effects⟩, by rw [Ctx.as, show cmd = wrap d from h]⟩

/-- The handlers `h` of a family are, on the commands of one class, those of the class. -/
structure Lifts (h : Handlers ε C) (hd : Handlers ε D) (wrap : D → C) : Prop where
  backend : ∀ d b, h.backend (wrap d) b = hd.backend d b
  setBackend : ∀ d b k, h.setBackend (wrap d) b k = wrap (hd.setBackend d b k)
  startWriteQuery : ∀ x, h.startWriteQuery (x.as wrap) =
    ((hd.startWriteQuery x).1.as wrap, (hd.startWriteQuery x).2)
  continueWriteQuery : ∀ x, h.continueWriteQuery (x.as wrap) =
    ((hd.continueWriteQuery x).1.as wrap, (hd.continueWriteQuery x).2)
  parseUnparsedPart : ∀ x, h.parseUnparsedPart (x.as wrap) =
    ((hd.parseUnparsedPart x).1.as wrap, (hd.parseUnparsedPart x).2)
  processUnparsedPart : ∀ x, h.processUnparsedPart (x.as wrap) =
    ((hd.processUnparsedPart x).1.as wrap, (hd.processUnparsedPart x).2)
  startWriteReply : ∀ x, h.startWriteReply (x.as wrap) = (hd.startWriteReply x).as wrap
  onWriteQueryFinished : ∀ b ec x,
    h.onWriteQueryFinished b ec (x.as wrap) = (hd.onWriteQueryFinished b ec x).as wrap
  onBackendReplyReceived : ∀ b ec x,
    h.onBackendReplyReceived b ec (x.as wrap) = (hd.onBackendReplyReceived b ec x).as wrap
  onWriteReplyFinished : ∀ b ec x,
    h.onWriteReplyFinished b ec (x.as wrap) = (hd.onWriteReplyFinished b ec x).as wrap
  queryParsingComplete : ∀ d, h.queryParsingComplete (wrap d) = hd.queryParsingComplete d
  queryRecvComplete : ∀ d, h.queryRecvComplete (wrap d) = hd.queryRecvComplete d

namespace Lifts
variable {h : Handlers ε C} {hd : Handlers ε D} {wrap : D → C} {I : C → Prop} {recv : C → Bool}
variable {x y : Ctx D}

theorem invoke (hl : Lifts h hd wrap) (b : ℕ) (callback : Option Callback) (x : Ctx D) :
    h.invoke b callback (x.as wrap) = (hd.invoke b callback x).as wrap :=
  match callback with
  | none => rfl
  | some (.querySent ec) => hl.onWriteQueryFinished b ec x
  | some (.replyReceived ec) => hl.onBackendReplyReceived b ec x

theorem onBackend (hl : Lifts h hd wrap) (b : ℕ) (e : BackendEvent) (x : Ctx D) :
    h.onBackend b e (x.as wrap) = (hd.onBackend b e x).as wrap := by
  rw [Handlers.onBackend_invoke, Handlers.onBackend_invoke]
  have hb : h.backend (x.as wrap).cmd b = hd.backend x.cmd b := hl.backend x.cmd b
  rw [hb]
  cases hd.backend x.cmd b with
  | none => rfl
  | some k =>
    have hset : { x.as wrap with cmd := h.setBackend (x.as wrap).cmd b (k.handle e).1 } =
        ({ x with cmd := hd.setBackend x.cmd b (k.handle e).1 } : Ctx D).as wrap := by
      rw [Ctx.as, Ctx.as, hl.setBackend]
    dsimp only
    rw [hset, hl.invoke]
    generalize hd.invoke b (k.handle e).2 { x with cmd := hd.setBackend x.cmd b (k.handle e).1 } = y
    have hb : h.backend (y.as wrap).cmd b = hd.backend y.cmd b := hl.backend y.cmd b
    rw [hb]
    cases hd.backend y.cmd b with
    | none => rfl
    | some k => simp only [Ctx.as, hl.setBackend]

theorem minor (hl : Lifts h hd wrap)
    (hm : Minor hd (fun d => I (wrap d)) (fun d => recv (wrap d)) x y) :
    Minor h I recv (x.as wrap) (y.as wrap) where
  kept := hm.kept
  inv := hm.inv
  parsed := by
    simp only [Ctx.as, hl.queryParsingComplete]
    exact hm.parsed
  received := hm.received
  emits := by
    simp only [Ctx.as, hl.queryRecvComplete]
    exact hm.emits

theorem sends (hl : Lifts h hd wrap)
    (hs : Sends hd (fun d => I (wrap d)) (fun d => recv (wrap d)) x y) :
    Sends h I recv (x.as wrap) (y.as wrap) where
  kept := hs.kept
  inv := hs.inv
  parsed := by
    simp only [Ctx.as, hl.queryParsingComplete]
    exact hs.parsed
  complete := by
    simp only [Ctx.as, hl.queryParsingComplete]
    exact hs.complete
  received := hs.received
  plain := hs.plain

theorem parses (hl : Lifts h hd wrap)
    (hp : Parses hd (fun d => I (wrap d)) (fun d => recv (wrap d)) x y) :
    Parses h I recv (x.as wrap) (y.as wrap) where
  valid := hp.valid
  queued := hp.queued
  bufferSize := hp.bufferSize
  inv := hp.inv
  received := hp.received
  ahead := hp.ahead
  ahead_eq := hp.ahead_eq
  parsed := by
    simp only [Ctx.as, hl.queryParsingComplete]
    exact hp.parsed
  effects := hp.effects

theorem processes (hl : Lifts h hd wrap)
    (hp : Processes hd (fun d => I (wrap d)) (fun d => recv (wrap d)) y) :
    Processes h I recv (y.as wrap) where
  valid := hp.valid
  inv := hp.inv
  received := hp.received
  pending := by
    simp only [Ctx.as, hl.queryParsingComplete]
    exact hp.pending
  effects := by
    simp only [Ctx.as, hl.queryRecvComplete]
    exact hp.effects

end Lifts

/-- The commands of `c`'s class keep to the contract. -/
def InClass (h : Handlers ε C) (I : C → Prop) (recv : C → Bool) (F : C → Prop)
    (R : C → Bytes → Prop) (c : C) : Prop :=
  ∃ (D : Type) (hd : Handlers ε D) (wrap : D → C) (d : D), c = wrap d ∧ Lifts h hd wrap ∧
    Disciplined hd (fun d => I (wrap d)) (fun d => recv (wrap d)) (fun d => F (wrap d))
      fun d => R (wrap d)

theorem Disciplined.of_classes {h : Handlers ε C} {I F : C → Prop} {recv : C → Bool}
    {R : C → Bytes → Prop} (hc : ∀ c, InClass h I recv F R c) : Disciplined h I recv F R where
  complete c hi := by
    obtain ⟨D, hd, wrap, d, rfl, hl, hc⟩ := hc c
    rw [hl.queryRecvComplete, hl.queryParsingComplete]
    exact hc.complete d hi
  start x hi hv hx := by
    obtain ⟨D, hd, wrap, d, hcmd, hl, hc⟩ := hc x.cmd
    obtain ⟨x, rfl⟩ := Ctx.exists_as hcmd
    rw [hl.startWriteQuery]
    exact (hc.start x hi hv hx).imp_right hl.sends
  continue_ x hi hv hx hr := by
    obtain ⟨D, hd, wrap, d, hcmd, hl, hc⟩ := hc x.cmd
    obtain ⟨x, rfl⟩ := Ctx.exists_as hcmd
    rw [hl.continueWriteQuery]
    exact (hc.continue_ x hi hv hx hr).imp_right hl.sends
  parse x hi hv hx hr hR := by
    obtain ⟨D, hd, wrap, d, hcmd, hl, hc⟩ := hc x.cmd
    obtain ⟨x, rfl⟩ := Ctx.exists_as hcmd
    rw [Ctx.as, hl.queryRecvComplete] at hr
    rw [hl.parseUnparsedPart]
    exact (hc.parse x hi hv hx hr hR).imp_right (Or.imp_right (And.imp_right hl.parses))
  process x hi hv hx hp ha hR := by
    obtain ⟨D, hd, wrap, d, hcmd, hl, hc⟩ := hc x.cmd
    obtain ⟨x, rfl⟩ := Ctx.exists_as hcmd
    rw [Ctx.as, hl.queryParsingComplete] at hp
    rw [hl.processUnparsedPart]
    exact (hc.process x hi hv hx hp ha hR).imp_right (Or.imp_right (And.imp_right hl.processes))
  becomeFirst x hi hv hx hf := by
    obtain ⟨D, hd, wrap, d, hcmd, hl, hc⟩ := hc x.cmd
    obtain ⟨x, rfl⟩ := Ctx.exists_as hcmd
    rw [hl.startWriteReply]
    exact (hc.becomeFirst x hi hv hx hf).imp_right hl.minor
  written b ec x hi hv hx hf := by
    obtain ⟨D, hd, wrap, d, hcmd, hl, hc⟩ := hc x.cmd
    obtain ⟨x, rfl⟩ := Ctx.exists_as hcmd
    rw [hl.onWriteReplyFinished]
    exact (hc.written b ec x hi hv hx hf).imp_right hl.minor
  backend b e x hi hv hx := by
    obtain ⟨D, hd, wrap, d, hcmd, hl, hc⟩ := hc x.cmd
    obtain ⟨x, rfl⟩ := Ctx.exists_as hcmd
    rw [hl.onBackend]
    exact (hc.backend b e x hi hv hx).imp_right hl.minor

end Yarmproxy
