import Yarmproxy.Discipline
import Yarmproxy.SimpleReply
import Yarmproxy.MemcGetCommand
import Mathlib.Data.Finset.Basic

/-! # How the handlers on the reply side behave

A class of commands is looked at through an `Outline`: how far its request is, which backends it
holds, and what these have yet to send. The handlers on the reply side leave that alone. The
callback of a query write sheds the piece that has been sent: it sends the next one, or it gives
the lock on the client buffer back. -/
namespace Yarmproxy

variable {ε C K : Type}

/-- The part of a connection that has to do with the query. -/
structure WriteSide where
  query : Option QueryOp
  aborted : Bool
  timerCanceled : Bool

namespace BackendConn
variable {c : BackendConn ε}

def writeSide (c : BackendConn ε) : WriteSide := ⟨c.query, c.aborted, c.writeTimerCanceled⟩

@[simp] theorem writeSide_tryReadMoreReply : c.tryReadMoreReply.writeSide = c.writeSide := by
  unfold tryReadMoreReply
  split <;> rfl

theorem writeSide_tryWriteReply (b : ℕ) (c : BackendConn ε) (r : ReplyState) :
    (tryWriteReply b c r).1.writeSide = c.writeSide := by
  unfold tryWriteReply
  dsimp only
  split <;> rfl

theorem effects_tryWriteReply (b : ℕ) (c : BackendConn ε) (r : ReplyState) :
    ∀ e ∈ (tryWriteReply b c r).2.2, ∃ data b, e = .writeReply data b := by
  unfold tryWriteReply
  dsimp only
  split
  · intro e he
    exact ⟨_, _, List.mem_singleton.mp he⟩
  · nofun

theorem query_writeQuery (c : BackendConn ε) (at_ : Option ℕ) (data : Bytes) :
    (c.writeQuery at_ data).query = some (.writing at_ data) ∨
      (c.writeQuery at_ data).query = some (.connecting at_ data) ∨
      (c.writeQuery at_ data).query = some .refused := by
  unfold writeQuery
  split
  · exact .inr (.inr rfl)
  · split
    · exact .inl rfl
    · exact .inr (.inl rfl)

theorem parseRedisSimpleReply_eq {c' : BackendConn ε} {ok : Bool}
    (h : c.parseRedisSimpleReply = some (c', ok)) :
    ∃ done b, c' = { c with replyRecvComplete := done, buffer := b } := by
  have hsame : ∃ done b, c = { c with replyRecvComplete := done, buffer := b } :=
    ⟨c.replyRecvComplete, c.buffer, rfl⟩
  unfold parseRedisSimpleReply at h
  dsimp only at h
  split at h
  · obtain ⟨rfl, -⟩ := Prod.mk.inj (Option.some.inj h)
    split
    · exact ⟨true, c.buffer, rfl⟩
    · exact hsame
  split at h
  · cases h
    exact hsame
  split at h
  · cases h
    exact hsame
  split at h
  · split at h
    · cases h
      exact hsame
    split at h
    · cases h
      exact hsame
    simp only [Option.bind_eq_bind, Option.bind_eq_some_iff] at h
    obtain ⟨completed, _, total, _, h⟩ := h
    obtain ⟨rfl, -⟩ := Prod.mk.inj (Option.some.inj h)
    cases completed
    · exact ⟨c.replyRecvComplete, _, rfl⟩
    · exact ⟨true, _, rfl⟩
  · cases h
    exact ⟨true, _, rfl⟩

theorem parseReply_eq {p : ProtocolType} {c' : BackendConn ε} {ok : Bool}
    (h : c.parseReply p = some (c', ok)) :
    ∃ done b, c' = { c with replyRecvComplete := done, buffer := b } := by
  have hmemc : ∀ h : c.parseMemcSimpleReply = some (c', ok),
      ∃ done b, c' = { c with replyRecvComplete := done, buffer := b } := by
    intro h
    unfold parseMemcSimpleReply at h
    split at h
    · cases h
      exact ⟨c.replyRecvComplete, c.buffer, rfl⟩
    · cases h
      exact ⟨true, _, rfl⟩
  cases p with
  | redis => exact parseRedisSimpleReply_eq h
  | memcached => exact hmemc h
  | none => exact hmemc h

theorem writeSide_parseReply {p : ProtocolType} {c' : BackendConn ε} {ok : Bool}
    (h : c.parseReply p = some (c', ok)) : c'.writeSide = c.writeSide := by
  obtain ⟨done, b, rfl⟩ := parseReply_eq h
  rfl

end BackendConn

structure Outline (C K : Type) where
  /-- how far the request is -/
  core : C → K
  /-- the backends that the command holds -/
  members : C → Finset ℕ
  side : C → ℕ → WriteSide
  /-- the pieces of the query of a backend that have not been sent -/
  segments : C → ℕ → List Segment

namespace Outline
variable {o : Outline C K} {c c' c'' : C}

structure Still (o : Outline C K) (c c' : C) : Prop where
  core : o.core c' = o.core c
  members : o.members c' ⊆ o.members c
  side : o.side c' = o.side c
  segments : o.segments c' = o.segments c

/-- A piece of backend `b` is done with. -/
structure Sheds (o : Outline C K) (b : ℕ) (c c' : C) : Prop where
  core : o.core c' = o.core c
  members : o.members c' ⊆ o.members c
  side : o.side c' = o.side c
  segments : ∀ b', ∀ s ∈ o.segments c' b', s ∈ o.segments c b'
  others : ∀ b' ≠ b, o.segments c' b' = o.segments c b'

/-- The next piece of backend `b` is sent. -/
structure Sends (o : Outline C K) (b : ℕ) (c c' : C) : Prop where
  core : o.core c' = o.core c
  members : o.members c' = o.members c
  others : ∀ b' ≠ b, o.side c' b' = o.side c b' ∧ o.segments c' b' = o.segments c b'
  segments : ∀ s ∈ o.segments c' b, s ∈ o.segments c b
  sends : ∃ s ∈ o.segments c b, (o.side c' b).query = some (.writing s.at_ s.bytes) ∨
    (o.side c' b).query = some (.connecting s.at_ s.bytes) ∨ (o.side c' b).query = some .refused

theorem Still.refl (o : Outline C K) (c : C) : o.Still c c := ⟨rfl, Finset.Subset.refl _, rfl, rfl⟩

theorem Still.trans (h : o.Still c c') (h' : o.Still c' c'') : o.Still c c'' :=
  ⟨h'.core.trans h.core, h'.members.trans h.members, h'.side.trans h.side,
    h'.segments.trans h.segments⟩

theorem Still.sheds (h : o.Still c c') (b : ℕ) : o.Sheds b c c' :=
  ⟨h.core, h.members, h.side, fun b' s hs => by rwa [h.segments] at hs,
    fun b' _ => by rw [h.segments]⟩

theorem Sheds.still {b : ℕ} (h : o.Sheds b c c') (h' : o.Still c' c'') : o.Sheds b c c'' :=
  ⟨h'.core.trans h.core, h'.members.trans h.members, h'.side.trans h.side,
    fun b' s hs => h.segments b' s (by rwa [h'.segments] at hs),
    fun b' hb => by rw [h'.segments, h.others b' hb]⟩

section Subqueries
variable {S : Type}

/-- The outline of a class whose subqueries are found by their number. -/
abbrev split (core : C → K) (members : C → Finset ℕ) (subquery : C → ℕ → S)
    (backend : S → BackendConn ε) (segments : S → List Segment) : Outline C K where
  core := core
  members := members
  side c b := (backend (subquery c b)).writeSide
  segments c b := segments (subquery c b)

variable {core : C → K} {members : C → Finset ℕ} {subquery : C → ℕ → S}
variable {backend : S → BackendConn ε} {segments : S → List Segment} {b : ℕ} {s : S}

/-- A map over the subqueries does not see a change that it maps to the same. -/
theorem comp_update {α β : Type} {f : ℕ → α} {s : α} {g : α → β} (h : g s = g (f b)) :
    (fun b' => g (Function.update f b s b')) = fun b' => g (f b') := by
  funext b'
  by_cases hb : b' = b
  · rw [hb, Function.update_self, h]
  · rw [Function.update_of_ne hb]

theorem still_of_eq (hc : core c' = core c) (hm : members c' ⊆ members c)
    (hq : subquery c' = subquery c) :
    (split core members subquery backend segments).Still c c' :=
  ⟨hc, hm, by simp only [hq], by simp only [hq]⟩

theorem still_of_update (hc : core c' = core c) (hm : members c' ⊆ members c)
    (hq : subquery c' = Function.update (subquery c) b s)
    (hw : (backend s).writeSide = (backend (subquery c b)).writeSide)
    (hs : segments s = segments (subquery c b)) :
    (split core members subquery backend segments).Still c c' := by
  refine ⟨hc, hm, ?_, ?_⟩
  · simp only [hq]
    exact comp_update (g := fun s => (backend s).writeSide) hw
  · simp only [hq]
    exact comp_update hs

theorem sheds_of_update (hc : core c' = core c) (hm : members c' ⊆ members c)
    (hq : subquery c' = Function.update (subquery c) b s)
    (hw : (backend s).writeSide = (backend (subquery c b)).writeSide)
    (hs : ∀ t ∈ segments s, t ∈ segments (subquery c b)) :
    (split core members subquery backend segments).Sheds b c c' := by
  refine ⟨hc, hm, ?_, fun b' t ht => ?_, fun b' hb => ?_⟩
  · simp only [hq]
    exact comp_update (g := fun s => (backend s).writeSide) hw
  · simp only [hq] at ht
    by_cases hb : b' = b
    · rw [hb, Function.update_self] at ht
      rw [hb]
      exact hs t ht
    · rwa [Function.update_of_ne hb] at ht
  · simp only [hq, Function.update_of_ne hb]

theorem sends_of_update {t : Segment} (hc : core c' = core c) (hm : members c' = members c)
    (hq : subquery c' = Function.update (subquery c) b s)
    (hw : backend s = (backend (subquery c b)).writeQuery t.at_ t.bytes)
    (ht : t ∈ segments (subquery c b)) (hs : ∀ t ∈ segments s, t ∈ segments (subquery c b)) :
    (split core members subquery backend segments).Sends b c c' := by
  refine ⟨hc, hm, fun b' hb => ?_, ?_, t, ht, ?_⟩
  · simp only [hq, Function.update_of_ne hb]
    exact ⟨trivial, trivial⟩
  · simp only [hq, Function.update_self]
    exact hs
  · simp only [hq, Function.update_self, hw]
    exact BackendConn.query_writeQuery ..

end Subqueries
end Outline

/-- A part of a handler that goes on. -/
structure Steps (o : Outline C K) (k : Bool) (x y : Ctx C) : Prop where
  still : o.Still x.cmd y.cmd
  buffer : y.buffer = x.buffer
  first : y.first = x.first
  effects : ∃ es, y.effects = x.effects ++ es ∧
    ∀ e ∈ es, e.plain x.first k = true ∧ e ≠ .decRecycleLock

/-- How a handler on the reply side ends; `k` says whether the request is complete. -/
inductive Ends (o : Outline C K) (k : Bool) (x y : Ctx C) : Prop where
  | fatal {es} : y.effects = x.effects ++ es → Terminal es → Ends o k x y
  | steps : Steps o k x y → Ends o k x y
  | rotated : x.first = true → k = true → o.Still x.cmd y.cmd → y.buffer = x.buffer →
      y.first = x.first → y.effects = x.effects ++ [.rotate] → Ends o k x y

/-- How the callback of a query write of backend `b` with the result `ec` ends. -/
inductive Sent (o : Outline C K) (k : Bool) (b : ℕ) (ec : ErrorCode) (x y : Ctx C) : Prop where
  | fatal {es} : y.effects = x.effects ++ es → Terminal es → Sent o k b ec x y
  | unlocked {es} : o.Sheds b x.cmd y.cmd → y.first = x.first → y.effects = x.effects ++ es →
      Emits x.first k es →
      (y.buffer = x.buffer.decRecycleLock ∧ es.count .decRecycleLock = 0 ∨
        y.buffer = x.buffer ∧ es.count .decRecycleLock = 1) → Sent o k b ec x y
  | writing : ec = .success → o.Sends b x.cmd y.cmd → y.buffer = x.buffer → y.first = x.first →
      y.effects = x.effects → Sent o k b ec x y

namespace Steps
variable {o : Outline C K} {k : Bool} {x y z : Ctx C} {c : C}

theorem of_cmd (hs : o.Still x.cmd c) : Steps o k x { x with cmd := c } :=
  ⟨hs, rfl, rfl, [], by simp, nofun⟩

theorem refl (o : Outline C K) (k : Bool) (x : Ctx C) : Steps o k x x := of_cmd (.refl o x.cmd)

theorem trans (h : Steps o k x y) (h' : Steps o k y z) : Steps o k x z := by
  obtain ⟨es, he, hp⟩ := h.effects
  obtain ⟨es', he', hp'⟩ := h'.effects
  refine ⟨h.still.trans h'.still, h'.buffer.trans h.buffer, h'.first.trans h.first, es ++ es', ?_,
    ?_⟩
  · rw [he', he, List.append_assoc]
  · intro e hm
    rcases List.mem_append.mp hm with hm | hm
    · exact hp e hm
    · exact h.first ▸ hp' e hm

theorem emit {e : Effect} (hp : e.plain x.first k = true) (hd : e ≠ .decRecycleLock) :
    Steps o k x (x.emit e) := by
  refine ⟨.refl o x.cmd, rfl, rfl, [e], rfl, fun e' he => ?_⟩
  obtain rfl := List.mem_singleton.mp he
  exact ⟨hp, hd⟩

theorem readMore (hk : k = false) : Steps o k x (x.emit .tryReadMoreQuery) :=
  emit (by rw [hk]; rfl) nofun

theorem write {es : List Effect} (hf : x.first = true) (hs : o.Still x.cmd c)
    (he : ∀ e ∈ es, ∃ data b, e = .writeReply data b) :
    Steps o k x { x with cmd := c, effects := x.effects ++ es } := by
  refine ⟨hs, rfl, rfl, es, rfl, fun e hm => ?_⟩
  obtain ⟨data, b, rfl⟩ := he e hm
  exact ⟨hf, nofun⟩

end Steps

namespace Ends
variable {o : Outline C K} {k : Bool} {x y z : Ctx C} {c : C}

theorem emit_fatal {e : Effect} (he : e.fatal = true) : Ends o k x (x.emit e) :=
  .fatal rfl (.single he)

theorem emit_rotate (hf : x.first = true) (hk : k = true) : Ends o k x (x.emit .rotate) :=
  .rotated hf hk (.refl o x.cmd) rfl rfl rfl

theorem of_cmd (hs : o.Still x.cmd c) (h : Ends o k { x with cmd := c } y) : Ends o k x y := by
  cases h with
  | fatal he hf => exact .fatal he hf
  | steps h => exact .steps ((Steps.of_cmd hs).trans h)
  | rotated hf hk hs' hb hx he => exact .rotated hf hk (hs.trans hs') hb hx he

theorem cmd (h : Ends o k x y) (hs : o.Still y.cmd c) : Ends o k x { y with cmd := c } := by
  cases h with
  | fatal he hf => exact .fatal he hf
  | steps h => exact .steps (h.trans (.of_cmd hs))
  | rotated hf hk hs' hb hx he => exact .rotated hf hk (hs'.trans hs) hb hx he

end Ends

namespace Sent
variable {o : Outline C K} {k : Bool} {b : ℕ} {ec : ErrorCode} {x y z : Ctx C}

theorem emit_fatal {e : Effect} (he : e.fatal = true) : Sent o k b ec x (x.emit e) :=
  .fatal rfl (.single he)

theorem of_fatal {e : Effect} (he : e.fatal = true) (hy : y.effects = (x.emit e).effects)
    (h : Steps o k y z) : Sent o k b ec x z := by
  obtain ⟨es, hes, -⟩ := h.effects
  have heff : z.effects = x.effects ++ ([e] ++ es) := by
    rw [hes, hy, Ctx.emit, List.append_assoc]
  exact .fatal heff ((Terminal.single he).append_right es)

theorem count_eq_zero {es : List Effect}
    (h : ∀ e ∈ es, e.plain x.first k = true ∧ e ≠ .decRecycleLock) :
    es.count .decRecycleLock = 0 :=
  List.count_eq_zero.mpr fun hm => (h _ hm).2 rfl

theorem of_unlock {c : C} (hs : o.Sheds b x.cmd c)
    (h : Ends o k { x with buffer := x.buffer.decRecycleLock, cmd := c } y) :
    Sent o k b ec x y := by
  cases h with
  | fatal he hf => exact .fatal he hf
  | steps h =>
    obtain ⟨es, he, hp⟩ := h.effects
    exact .unlocked (hs.still h.still) h.first he (.plain fun e hm => (hp e hm).1)
      (.inl ⟨h.buffer, count_eq_zero (x := x) hp⟩)
  | rotated hf hk hs' hb hx he =>
    exact .unlocked (hs.still hs') hx he (.rotating hf hk nofun) (.inl ⟨hb, rfl⟩)

theorem of_emit (h : Ends o k x y) : Sent o k b ec x (y.emit .decRecycleLock) := by
  cases h with
  | @fatal es he hf =>
    have heff : (y.emit .decRecycleLock).effects = x.effects ++ (es ++ [.decRecycleLock]) := by
      rw [Ctx.emit, he, List.append_assoc]
    exact .fatal heff (hf.append_right _)
  | steps h =>
    obtain ⟨es, he, hp⟩ := h.effects
    have heff : (y.emit .decRecycleLock).effects = x.effects ++ (es ++ [.decRecycleLock]) := by
      rw [Ctx.emit, he, List.append_assoc]
    refine .unlocked (h.still.sheds b) h.first heff (.plain fun e hm => ?_) (.inr ⟨h.buffer, ?_⟩)
    · rcases List.mem_append.mp hm with hm | hm
      · exact (hp e hm).1
      · rw [List.mem_singleton.mp hm]
        rfl
    · rw [List.count_append, count_eq_zero (x := x) hp]
      rfl
  | rotated hf hk hs hb hx he =>
    have heff : (y.emit .decRecycleLock).effects = x.effects ++ [.rotate, .decRecycleLock] := by
      rw [Ctx.emit, he, List.append_assoc]
      rfl
    exact .unlocked (hs.sheds b) hx heff (.rotating hf hk fun e hm => List.mem_singleton.mp hm)
      (.inr ⟨hb, rfl⟩)

theorem of_steps (h : Steps o k x y)
    (h' : Steps o k { y with buffer := y.buffer.decRecycleLock } z) : Sent o k b ec x z := by
  obtain ⟨es, he, hp⟩ := h.effects
  obtain ⟨es', he', hp'⟩ := h'.effects
  have hall : ∀ e ∈ es ++ es', e.plain x.first k = true ∧ e ≠ .decRecycleLock := by
    intro e hm
    rcases List.mem_append.mp hm with hm | hm
    · exact hp e hm
    · exact h.first ▸ hp' e hm
  have heff : z.effects = x.effects ++ (es ++ es') := by rw [he', he, List.append_assoc]
  refine .unlocked ((h.still.trans h'.still).sheds b) (h'.first.trans h.first) heff
    (.plain fun e hm => (hall e hm).1) (.inl ⟨?_, count_eq_zero (x := x) hall⟩)
  rw [h'.buffer, h.buffer]

end Sent

/-- What the connection sees of a handler on the reply side. -/
structure Quiet (o : Outline C K) (k : Bool) (x y : Ctx C) : Prop where
  core : o.core y.cmd = o.core x.cmd
  kept : x.buffer.Kept y.buffer
  emits : Emits x.first k y.effects

namespace Quiet
variable {o : Outline C K} {k : Bool} {b : ℕ} {ec : ErrorCode} {x y : Ctx C} {c : C}

theorem of_ends (hv : x.buffer.Valid) (hx : x.effects = []) (h : Ends o k x y) :
    Terminal y.effects ∨ Quiet o k x y := by
  cases h with
  | fatal he hf =>
    rw [hx, List.nil_append] at he
    exact .inl (he ▸ hf)
  | steps h =>
    obtain ⟨es, he, hp⟩ := h.effects
    rw [hx, List.nil_append] at he
    exact .inr ⟨h.still.core, .of_eq hv h.buffer, he ▸ .plain fun e hm => (hp e hm).1⟩
  | rotated hf hk hs hb _ he =>
    rw [hx, List.nil_append] at he
    exact .inr ⟨hs.core, .of_eq hv hb, he ▸ .rotating hf hk nofun⟩

theorem of_sent (hv : x.buffer.Valid) (hx : x.effects = []) (h : Sent o k b ec x y) :
    Terminal y.effects ∨ Quiet o k x y := by
  cases h with
  | fatal he hf =>
    rw [hx, List.nil_append] at he
    exact .inl (he ▸ hf)
  | unlocked hs _ he hem hb =>
    rw [hx, List.nil_append] at he
    refine .inr ⟨hs.core, ?_, he ▸ hem⟩
    rcases hb with ⟨hb, -⟩ | ⟨hb, -⟩
    · rw [hb]
      exact (ReadBuffer.Kept.refl hv).decRecycleLock
    · exact .of_eq hv hb
  | writing _ hs hb _ he =>
    refine .inr ⟨hs.core, .of_eq hv hb, ?_⟩
    rw [he, hx]
    exact .plain nofun

theorem of_cmd (hc : o.core c = o.core x.cmd) (h : Quiet o k { x with cmd := c } y) :
    Quiet o k x y :=
  ⟨h.core.trans hc, h.kept, h.emits⟩

theorem cmd (h : Quiet o k x y) (hc : o.core c = o.core y.cmd) : Quiet o k x { y with cmd := c } :=
  ⟨hc.trans h.core, h.kept, h.emits⟩

theorem refl (hv : x.buffer.Valid) (hx : x.effects = []) : Quiet o k x x :=
  ⟨rfl, .refl hv, hx ▸ .plain nofun⟩

end Quiet

/-- The conduct of a class of commands on the reply side. -/
structure Conduct (h : Handlers ε C) (o : Outline C K) : Prop where
  complete : ∀ c c', o.core c' = o.core c → h.queryRecvComplete c' = h.queryRecvComplete c
  core_setBackend : ∀ c b k, o.core (h.setBackend c b k) = o.core c
  sent : ∀ b ec x, Sent o (h.queryRecvComplete x.cmd) b ec x (h.onWriteQueryFinished b ec x)
  received : ∀ b ec x, Ends o (h.queryRecvComplete x.cmd) x (h.onBackendReplyReceived b ec x)
  becomeFirst : ∀ x, x.first = true → Ends o (h.queryRecvComplete x.cmd) x (h.startWriteReply x)
  written : ∀ b ec x, x.first = true →
    Ends o (h.queryRecvComplete x.cmd) x (h.onWriteReplyFinished b ec x)

/-- The callback of a backend event. -/
def Handlers.invoke (h : Handlers ε C) (b : ℕ) (callback : Option Callback) (x : Ctx C) : Ctx C :=
  match callback with
  | none => x
  | some (.querySent ec) => h.onWriteQueryFinished b ec x
  | some (.replyReceived ec) => h.onBackendReplyReceived b ec x

theorem Handlers.onBackend_invoke (h : Handlers ε C) (b : ℕ) (e : BackendEvent) (x : Ctx C) :
    h.onBackend b e x = match h.backend x.cmd b with
      | none => x
      | some k =>
        let y := h.invoke b (k.handle e).2 { x with cmd := h.setBackend x.cmd b (k.handle e).1 }
        match h.backend y.cmd b with
        | none => y
        | some k => { y with cmd := h.setBackend y.cmd b (k.settle e) } := rfl

namespace Conduct
variable {h : Handlers ε C} {o : Outline C K} {x : Ctx C}

theorem invoke (hc : Conduct h o) (b : ℕ) (callback : Option Callback) (hv : x.buffer.Valid)
    (hx : x.effects = []) : Terminal (h.invoke b callback x).effects ∨
      Quiet o (h.queryRecvComplete x.cmd) x (h.invoke b callback x) :=
  match callback with
  | none => .inr (.refl hv hx)
  | some (.querySent ec) => Quiet.of_sent hv hx (hc.sent b ec x)
  | some (.replyReceived ec) => Quiet.of_ends hv hx (hc.received b ec x)

theorem onBackend (hc : Conduct h o) (b : ℕ) (e : BackendEvent) (hv : x.buffer.Valid)
    (hx : x.effects = []) : Terminal (h.onBackend b e x).effects ∨
      Quiet o (h.queryRecvComplete x.cmd) x (h.onBackend b e x) := by
  rw [Handlers.onBackend_invoke]
  split
  · exact .inr (.refl hv hx)
  next k hk =>
    have hcore := hc.core_setBackend x.cmd b (k.handle e).1
    have hy := hc.invoke (x := { x with cmd := h.setBackend x.cmd b (k.handle e).1 }) b
      (k.handle e).2 hv hx
    rw [hc.complete _ _ hcore] at hy
    have hy := hy.imp_right (Quiet.of_cmd hcore)
    dsimp only
    split
    · exact hy
    · exact hy.imp_right fun hq => hq.cmd (hc.core_setBackend ..)

end Conduct
end Yarmproxy
