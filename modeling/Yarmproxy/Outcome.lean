import Yarmproxy.Command

/-! # Outcomes of handlers

Every handler of every command ends in one of four ways: the connection sees nothing, gets
one reply to write, rotates the command out, or stops. `Tracks` carries a property of the
command's own state through all of them. -/
namespace Yarmproxy

variable {ε C : Type}

/-- The effects that reach the active queue or the client socket's write side. -/
def Effect.visible : Effect → Bool
  | .tryReadMoreQuery | .decRecycleLock => false
  | _ => true

def Ctx.visible (x : Ctx C) : List Effect := x.effects.filter Effect.visible

theorem Ctx.visible_emit (x : Ctx C) (e : Effect) :
    (x.emit e).visible = x.visible ++ if e.visible then [e] else [] := by
  cases h : e.visible <;> simp [Ctx.visible, Ctx.emit, h]

theorem Ctx.visible_emit_of_nil {x : Ctx C} {e : Effect} (hx : x.effects = [])
    (he : e.visible = true) : (x.emit e).visible = [e] := by
  rw [Ctx.visible_emit, if_pos he, Ctx.visible, hx]
  rfl

/-- `S out writing cmd` is the state to go on from and `R out cmd` holds on rotation. -/
inductive Outcome (h : Handlers ε C) (S : Bytes → Option (Option ℕ) → C → Prop)
    (R : Bytes → C → Prop) (out : Bytes) (writing : Option (Option ℕ)) (first : Bool)
    (x : Ctx C) : Prop where
  | quiet : x.visible = [] → S out writing x.cmd → Outcome h S R out writing first x
  | wrote {data b} : x.visible = [.writeReply data b] → writing = none → first = true →
    h.queryRecvComplete x.cmd = true → S (out ++ data) (some b) x.cmd →
    Outcome h S R out writing first x
  | rotated : x.visible = [.rotate] → writing = none → R out x.cmd →
    Outcome h S R out writing first x
  | stopped {e} : x.visible = [e] → e = .abort ∨ e = .assertFailed ∨ e = .crash →
    Outcome h S R out writing first x

def BackendEvent.settled : BackendEvent → Bool
  | .connectTimeout | .writeTimeout | .readTimeout => false
  | _ => true

theorem Handlers.onBackend_eq {h : Handlers ε C} {x : Ctx C} {b : ℕ} {e : BackendEvent}
    {k : BackendConn ε} (hself : ∀ c k, h.backend c b = some k → h.setBackend c b k = c)
    (hk : h.backend x.cmd b = some k) (hs : e.settled = true) :
    h.onBackend b e x =
      let y := { x with cmd := h.setBackend x.cmd b (k.handle e).1 }
      match (k.handle e).2 with
      | none => y
      | some (.querySent ec) => h.onWriteQueryFinished b ec y
      | some (.replyReceived ec) => h.onBackendReplyReceived b ec y := by
  have hsettle : ∀ c : BackendConn ε, c.settle e = c := by
    intro c
    cases e <;> first | rfl | cases hs
  unfold Handlers.onBackend
  simp only [hk]
  split
  next => rfl
  next c hy =>
    rw [hsettle]
    exact congrArg (fun d => Ctx.mk _ _ d _) (hself _ _ hy)

theorem Handlers.effects_onBackend {h : Handlers ε C} {x : Ctx C} {b : ℕ} {e : BackendEvent}
    {k : BackendConn ε} (hk : h.backend x.cmd b = some k) :
    (h.onBackend b e x).effects =
      (let y := { x with cmd := h.setBackend x.cmd b (k.handle e).1 }
       match (k.handle e).2 with
       | none => y
       | some (.querySent ec) => h.onWriteQueryFinished b ec y
       | some (.replyReceived ec) => h.onBackendReplyReceived b ec y).effects := by
  unfold Handlers.onBackend
  simp only [hk]
  split
  next => rfl
  next => rfl

namespace Outcome

variable {h : Handlers ε C} {S T : Bytes → Option (Option ℕ) → C → Prop} {R Q : Bytes → C → Prop}
  {out : Bytes} {writing : Option (Option ℕ)} {first : Bool} {x y : Ctx C}

theorem map (hx : Outcome h S R out writing first x) (hv : y.visible = x.visible)
    (hq : h.queryRecvComplete x.cmd = true → h.queryRecvComplete y.cmd = true)
    (hS : ∀ o w, S o w x.cmd → T o w y.cmd) (hR : ∀ o, R o x.cmd → Q o y.cmd) :
    Outcome h T Q out writing first y := by
  cases hx with
  | quiet he hs => exact .quiet (hv.trans he) (hS _ _ hs)
  | wrote he hw hf hc hs => exact .wrote (hv.trans he) hw hf (hq hc) (hS _ _ hs)
  | rotated he hw hr => exact .rotated (hv.trans he) hw (hR _ hr)
  | stopped he hk => exact .stopped (hv.trans he) hk

theorem emit {e : Effect} (hx : Outcome h S R out writing first x) (he : e.visible = false) :
    Outcome h S R out writing first (x.emit e) :=
  hx.map (by simp [Ctx.visible_emit, he]) id (fun _ _ hs => hs) (fun _ hr => hr)

end Outcome

/-- What holds along a run of `cmd`; `B` of the bytes it wrote also when it is gone. -/
structure Tracks (cmd : C) (B : Bytes → Prop) (S : Bytes → Option (Option ℕ) → Bool → C → Prop)
    (R : Bytes → C → Prop) (w : World C) : Prop where
  bytes : B w.out
  calls : ∀ call ∈ w.calls,
    call.first = true ∧ call.overlapping = false ∧ call.queryReceived = true
  rotatedWriting : w.rotatedWriting = false
  fresh : w.started = false → w.cmd = cmd ∧ w.writing = none ∧ w.calls = []
  whole : w.rotated = true → w.writing = none ∧ R w.out w.cmd
  state : w.live → w.started = true → S w.out w.writing w.first w.cmd

namespace Tracks

variable {h : Handlers ε C} {cmd : C} {B : Bytes → Prop}
  {S : Bytes → Option (Option ℕ) → Bool → C → Prop} {R : Bytes → C → Prop}
  {w : World C} {buf : ReadBuffer} {f : Ctx C → Ctx C}

theorem apply_invisible {e : Effect} (he : e.visible = false) : World.apply h w e = w := by
  cases e <;> first | rfl | cases he

theorem foldl_visible (es : List Effect) : ∀ w : World C,
    es.foldl (World.apply h) w = (es.filter Effect.visible).foldl (World.apply h) w := by
  induction es with
  | nil => exact fun _ => rfl
  | cons e es ih =>
    intro w
    cases he : e.visible with
    | true => simp [he, ih]
    | false => simp [he, ih, apply_invisible he]

theorem begun (ht : Tracks cmd B S R w) (hw : w.writing.isSome = true) : w.started = true := by
  by_contra hs
  simp [(ht.fresh (by simpa using hs)).2.1] at hw

theorem init {first : Bool} (hb : B []) : Tracks cmd B S R (World.init cmd first) :=
  ⟨hb, by simp [World.init], rfl, fun _ => ⟨rfl, rfl, rfl⟩, by simp [World.init],
    by simp [World.init]⟩

theorem run (hb : B w.out)
    (hcalls : ∀ call ∈ w.calls,
      call.first = true ∧ call.overlapping = false ∧ call.queryReceived = true)
    (hrw : w.rotatedWriting = false) (hl : w.live) (hs : w.started = true)
    (hB : ∀ o wr f c, S o wr f c → B o)
    (hx : Outcome h (fun o wr => S o wr w.first) R w.out w.writing w.first
      (f ⟨buf, w.first, w.cmd, []⟩)) : Tracks cmd B S R (w.run h buf f) := by
  obtain ⟨hr, ha, hc⟩ := hl
  unfold World.run
  simp only
  rw [foldl_visible, ← Ctx.visible]
  cases hx with
  | quiet he hst =>
    simp only [he, List.foldl_nil]
    exact ⟨hb, hcalls, hrw, by simp [hs], by simp [hr], fun _ _ => hst⟩
  | @wrote data b he hwr hfirst hq hst =>
    simp only [he, List.foldl_cons, List.foldl_nil, World.apply]
    have hout : ∀ call : ReplyCall, call.data = data →
        (w.calls ++ [call]).flatMap ReplyCall.data = w.out ++ data := by
      rintro call rfl
      simp [World.out]
    refine ⟨?_, ?_, hrw, by simp [hs], by simp [hr], fun _ _ => ?_⟩
    · simp only [World.out, hout]
      exact hB _ _ _ _ hst
    · intro call hcall
      rcases List.mem_append.mp hcall with hcall | hcall
      · exact hcalls call hcall
      · obtain rfl := List.mem_singleton.mp hcall
        exact ⟨hfirst, by simp [hwr], hq⟩
    · simp only [World.out, hout]
      exact hst
  | rotated he hwr hrot =>
    simp only [he, List.foldl_cons, List.foldl_nil, World.apply]
    refine ⟨hb, hcalls, by simp [hrw, hwr], by simp [hs], fun _ => ⟨hwr, hrot⟩, ?_⟩
    simp [World.live]
  | stopped he hk =>
    simp only [he, List.foldl_cons, List.foldl_nil]
    rcases hk with rfl | rfl | rfl
    · exact ⟨hb, hcalls, hrw, by simp [World.apply, hs], by simp [World.apply, hr],
        by simp [World.apply, World.live]⟩
    · exact ⟨hb, hcalls, hrw, by simp [World.apply, hs], by simp [World.apply, hr],
        by simp [World.apply, World.live]⟩
    · exact ⟨hb, hcalls, hrw, by simp [World.apply, hs], by simp [World.apply, hr],
        by simp [World.apply, World.live]⟩

end Tracks

/-- Every handler of a command keeps `S`, once `startWriteQuery` has established it. -/
structure Keeps (h : Handlers ε C) (A : World.Answers C) (P : World C → World.Event → Prop)
    (cmd : C) (S : Bytes → Option (Option ℕ) → Bool → C → Prop) (R : Bytes → C → Prop) : Prop where
  start : ∀ w buf, P w (.start buf) → w.cmd = cmd →
    Outcome h (fun o wr => S o wr w.first) R [] none w.first
      (h.startWriteQuery ⟨buf, w.first, w.cmd, []⟩).1
  parse : ∀ w buf, P w (.parse buf) → h.queryRecvComplete w.cmd = false →
    S w.out w.writing w.first w.cmd →
    Outcome h (fun o wr => S o wr w.first) R w.out w.writing w.first
      (let (x, ok) := h.parseUnparsedPart ⟨buf, w.first, w.cmd, []⟩
       if ok then x else x.emit .abort)
  continue_ : ∀ w buf, P w (.continue_ buf) → h.queryRecvComplete w.cmd = false →
    S w.out w.writing w.first w.cmd →
    Outcome h (fun o wr => S o wr w.first) R w.out w.writing w.first
      (h.continueWriteQuery ⟨buf, w.first, w.cmd, []⟩).1
  process : ∀ w buf, P w (.process buf) → h.queryRecvComplete w.cmd = false →
    S w.out w.writing w.first w.cmd →
    Outcome h (fun o wr => S o wr w.first) R w.out w.writing w.first
      (let (x, ok) := h.processUnparsedPart ⟨buf, w.first, w.cmd, []⟩
       if ok then x else x.emit .abort)
  becomeFirst : ∀ w buf, P w (.becomeFirst buf) → S w.out w.writing false w.cmd →
    Outcome h (fun o wr => S o wr true) R w.out w.writing true
      (h.startWriteReply ⟨buf, true, w.cmd, []⟩)
  backend : ∀ w buf b e k, P w (.backend buf b e) → S w.out w.writing w.first w.cmd →
    h.backend w.cmd b = some k → k.Enabled e →
    (∀ chunk, e = .replyRead chunk → A w.cmd b (k.received ++ chunk)) →
    Outcome h (fun o wr => S o wr w.first) R w.out w.writing w.first
      (h.onBackend b e ⟨buf, w.first, w.cmd, []⟩)
  writeDone : ∀ w buf b, P w (.writeDone buf) → S w.out (some b) w.first w.cmd →
    Outcome h (fun o wr => S o wr w.first) R w.out none w.first
      (h.onWriteReplyFinished b .success ⟨buf, w.first, w.cmd, []⟩)
  writeFailed : ∀ w buf b, P w (.writeFailed buf) → S w.out (some b) w.first w.cmd →
    Outcome h (fun o wr => S o wr w.first) R w.out none w.first
      (h.onWriteReplyFinished b .writeReply ⟨buf, w.first, w.cmd, []⟩)

namespace Keeps

variable {h : Handlers ε C} {A : World.Answers C} {P : World C → World.Event → Prop} {cmd : C}
  {B : Bytes → Prop} {S : Bytes → Option (Option ℕ) → Bool → C → Prop} {R : Bytes → C → Prop}
  {w : World C}

theorem step (hk : Keeps h A P cmd S R) (hB : ∀ o wr f c, S o wr f c → B o)
    (ht : Tracks cmd B S R w) {e : World.Event} (hen : World.Enabled h A w e) (hp : P w e) :
    Tracks cmd B S R (w.next h e) := by
  cases e with
  | start buf =>
    obtain ⟨hw, hs⟩ := hen
    obtain ⟨hcmd, hwr, hcalls⟩ := ht.fresh hs
    have hout : w.out = [] := by simp [World.out, hcalls]
    have hx := hk.start w buf hp hcmd
    rw [← hout, ← hwr] at hx
    rw [World.next]
    refine Tracks.run (w := { w with started := true }) ht.bytes ht.calls ht.rotatedWriting hw rfl
      hB ?_
    exact hx
  | parse buf =>
    obtain ⟨hw, hs, hq⟩ := hen
    rw [World.next]
    refine Tracks.run ht.bytes ht.calls ht.rotatedWriting hw hs hB ?_
    exact hk.parse w buf hp hq (ht.state hw hs)
  | continue_ buf =>
    obtain ⟨hw, hs, hq⟩ := hen
    rw [World.next]
    refine Tracks.run ht.bytes ht.calls ht.rotatedWriting hw hs hB ?_
    exact hk.continue_ w buf hp hq (ht.state hw hs)
  | process buf =>
    obtain ⟨hw, hs, hq⟩ := hen
    rw [World.next]
    refine Tracks.run ht.bytes ht.calls ht.rotatedWriting hw hs hB ?_
    exact hk.process w buf hp hq (ht.state hw hs)
  | becomeFirst buf =>
    obtain ⟨hw, hs, hfirst⟩ := hen
    have hstate := ht.state hw hs
    rw [hfirst] at hstate
    refine Tracks.run (w := { w with first := true }) ht.bytes ht.calls ht.rotatedWriting hw hs hB
      ?_
    exact hk.becomeFirst w buf hp hstate
  | backend buf b ev =>
    obtain ⟨hw, hs, k, hb, hev, hans⟩ := hen
    refine Tracks.run ht.bytes ht.calls ht.rotatedWriting hw hs hB ?_
    exact hk.backend w buf b ev k hp (ht.state hw hs) hb hev hans
  | writeDone buf =>
    obtain ⟨hw, hsome⟩ := hen
    have hs := ht.begun hsome
    obtain ⟨b, hb⟩ := Option.isSome_iff_exists.mp hsome
    simp only [World.next, hb]
    refine Tracks.run (w := { w with writing := none }) ht.bytes ht.calls ht.rotatedWriting hw hs
      hB ?_
    exact hk.writeDone w buf b hp (hb ▸ ht.state hw hs)
  | writeFailed buf =>
    obtain ⟨hw, hsome⟩ := hen
    have hs := ht.begun hsome
    obtain ⟨b, hb⟩ := Option.isSome_iff_exists.mp hsome
    simp only [World.next, hb]
    refine Tracks.run (w := { w with writing := none }) ht.bytes ht.calls ht.rotatedWriting hw hs
      hB ?_
    exact hk.writeFailed w buf b hp (hb ▸ ht.state hw hs)

theorem reachable (hk : Keeps h A P cmd S R) (h0 : B []) (hB : ∀ o wr f c, S o wr f c → B o)
    {first : Bool}
    (hw : Transition.Execution (World.system h A) P (World.init cmd first) w) :
    Tracks cmd B S R w :=
  hw.invariant (Tracks.init h0) fun _ _ ht hen hp => hk.step hB ht hen hp

end Keeps
end Yarmproxy
