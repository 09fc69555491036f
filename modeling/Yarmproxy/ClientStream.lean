import Yarmproxy.SingleHandover

/-! # What a step does with the requests

A connection takes its requests from one stream of bytes. Seen from there a step does one of four
things: it leaves the requests alone, it parses on in the last one, it writes more of the last one,
or it starts the next one. -/
namespace Yarmproxy

variable {ε : Type}

namespace AnyCommand

/-- A handler that leaves the class alone and, of a command with one backend, the request. -/
inductive Keeps : AnyCommand ε → AnyCommand ε → Prop
  | local_ {c c'} : Keeps (.local_ c) (.local_ c')
  | single {c c'} : c.Keeps c' → Keeps (.single c) (.single c')
  | memcGet {c c'} : Keeps (.memcGet c) (.memcGet c')
  | redisMget {c c'} : Keeps (.redisMget c) (.redisMget c')
  | redisMset {pool pool' c c'} : Keeps (.redisMset pool c) (.redisMset pool' c')
  | redisDel {pool pool' c c'} : Keeps (.redisDel pool c) (.redisDel pool' c')

theorem Keeps.refl : ∀ c : AnyCommand ε, c.Keeps c
  | .local_ _ => .local_
  | .single c => .single (.refl c)
  | .memcGet _ => .memcGet
  | .redisMget _ => .redisMget
  | .redisMset .. => .redisMset
  | .redisDel .. => .redisDel

theorem Keeps.trans {c c' c'' : AnyCommand ε} (h : c.Keeps c') (h' : c'.Keeps c'') :
    c.Keeps c'' := by
  cases h with
  | single h =>
    cases h' with
    | single h' => exact .single (h.trans h')
  | local_ =>
    cases h'
    exact .local_
  | memcGet =>
    cases h'
    exact .memcGet
  | redisMget =>
    cases h'
    exact .redisMget
  | redisMset =>
    cases h'
    exact .redisMset
  | redisDel =>
    cases h'
    exact .redisDel

theorem Keeps.of_single {c : AnyCommand ε} {k' : SingleCommand ε} (h : c.Keeps (.single k')) :
    ∃ k, c = .single k ∧ k.Keeps k' := by
  cases h with
  | single h => exact ⟨_, rfl, h⟩

theorem not_keeps_single {c : AnyCommand ε} {k : SingleCommand ε} (hc : ∀ k, c ≠ .single k) :
    ¬ c.Keeps (.single k) := by
  intro h
  obtain ⟨k, hk, -⟩ := h.of_single
  exact hc k hk

/-- What has been handed over of the request that begins with `d`. An answer of the proxy itself
hands over nothing, and the other classes are not made of a request for one backend. -/
def HandedOver (d : Bytes) : AnyCommand ε → Prop
  | .single c => c.HandedOver d
  | .local_ _ => True
  | _ => ∀ r : SingleRequest, r.Fits → ¬ Agrees r.bytes d

theorem HandedOver.mono {c : AnyCommand ε} {d d' : Bytes} (h : c.HandedOver d) (hd : d <+: d') :
    c.HandedOver d' := by
  cases c with
  | single c => exact SingleCommand.HandedOver.mono h hd
  | local_ c => exact trivial
  | _ => exact fun r hf ha => h r hf (ha.mono hd)

theorem HandedOver.keeps {c c' : AnyCommand ε} {d : Bytes} (h : c.HandedOver d) (hk : c.Keeps c') :
    c'.HandedOver d := by
  cases hk with
  | single hk => exact SingleCommand.HandedOver.keeps h hk
  | _ => exact h

/-- More is asked for by a command with one backend only when nothing is being written. -/
def Paused (y : Ctx (AnyCommand ε)) : Prop :=
  .tryReadMoreQuery ∈ y.effects → ∀ c, y.cmd = .single c → c.backend.query = none

theorem Keeps.paused {c : AnyCommand ε} {y : Ctx (AnyCommand ε)} (hk : c.Keeps y.cmd)
    (hc : ∀ c', c ≠ .single c') : c.Keeps y.cmd ∧ Paused y := by
  refine ⟨hk, fun _ c' hy => ?_⟩
  rw [hy] at hk
  exact absurd hk (not_keeps_single hc)

section Handlers
variable [DecidableEq ε] [Inhabited ε] {env : Env ε} {x : Ctx (AnyCommand ε)}

theorem startWriteReply_keeps (ho : ∀ c, x.cmd = .single c → c.Orderly) (hx : x.effects = []) :
    x.cmd.Keeps ((family env).startWriteReply x).cmd ∧ Paused ((family env).startWriteReply x) := by
  obtain ⟨buffer, first, cmd, effects⟩ := x
  cases cmd with
  | single c =>
    exact ⟨.single
      (SingleCommand.startWriteReply_keeps (x := ⟨buffer, first, c, effects⟩) (ho c rfl)),
      fun h => absurd h (SingleCommand.startWriteReply_quiet (x := ⟨buffer, first, c, effects⟩) hx)⟩
  | local_ => exact Keeps.paused .local_ (by simp)
  | memcGet => exact Keeps.paused .memcGet (by simp)
  | redisMget => exact Keeps.paused .redisMget (by simp)
  | redisMset => exact Keeps.paused .redisMset (by simp)
  | redisDel => exact Keeps.paused .redisDel (by simp)

theorem onWriteReplyFinished_keeps (b : Option ℕ) (ec : ErrorCode)
    (ho : ∀ c, x.cmd = .single c → c.Orderly) (hx : x.effects = []) :
    x.cmd.Keeps ((family env).onWriteReplyFinished b ec x).cmd ∧
      Paused ((family env).onWriteReplyFinished b ec x) := by
  obtain ⟨buffer, first, cmd, effects⟩ := x
  cases cmd with
  | single c =>
    exact ⟨.single (SingleCommand.onWriteReplyFinished_keeps (x := ⟨buffer, first, c, effects⟩) ec
        (ho c rfl)),
      fun h => absurd h
        (SingleCommand.onWriteReplyFinished_quiet (x := ⟨buffer, first, c, effects⟩) ec hx)⟩
  | local_ => exact Keeps.paused .local_ (by simp)
  | memcGet => exact Keeps.paused .memcGet (by simp)
  | redisMget => exact Keeps.paused .redisMget (by simp)
  | redisMset => exact Keeps.paused .redisMset (by simp)
  | redisDel => exact Keeps.paused .redisDel (by simp)

theorem onBackend_keeps {b : ℕ} {e : BackendEvent} {k : BackendConn ε}
    (hk : (family env).backend x.cmd b = some k) (he : k.Enabled e) (hs : e.succeeds = true)
    (ho : ∀ c, x.cmd = .single c → c.Orderly) (hx : x.effects = []) :
    x.cmd.Keeps ((family env).onBackend b e x).cmd ∧ Paused ((family env).onBackend b e x) := by
  obtain ⟨buffer, first, cmd, effects⟩ := x
  cases cmd with
  | single c =>
    have hl := (lifts_single env).onBackend b e ⟨buffer, first, c, effects⟩
    obtain ⟨hkeeps, hpaused⟩ := SingleCommand.onBackend_keeps (x := ⟨buffer, first, c, effects⟩)
      hk he hs (ho c rfl) hx
    rw [Ctx.as] at hl
    rw [hl]
    refine ⟨.single hkeeps, fun h c' hc => ?_⟩
    obtain rfl := AnyCommand.single.inj hc
    exact hpaused h
  | local_ c =>
    have hl := (lifts_local env).onBackend b e ⟨buffer, first, c, effects⟩
    rw [Ctx.as] at hl
    rw [hl]
    exact Keeps.paused .local_ (by simp)
  | memcGet c =>
    have hl := (lifts_memcGet env).onBackend b e ⟨buffer, first, c, effects⟩
    rw [Ctx.as] at hl
    rw [hl]
    exact Keeps.paused .memcGet (by simp)
  | redisMget c =>
    have hl := (lifts_redisMget env).onBackend b e ⟨buffer, first, c, effects⟩
    rw [Ctx.as] at hl
    rw [hl]
    exact Keeps.paused .redisMget (by simp)
  | redisMset pool c =>
    have hl := (lifts_redisMset env pool).onBackend b e ⟨buffer, first, c, effects⟩
    rw [Ctx.as] at hl
    rw [hl]
    exact Keeps.paused .redisMset (by simp)
  | redisDel pool c =>
    have hl := (lifts_redisDel env pool).onBackend b e ⟨buffer, first, c, effects⟩
    rw [Ctx.as] at hl
    rw [hl]
    exact Keeps.paused .redisDel (by simp)

variable (env) in
theorem startWriteQuery_keeps (hx : ∀ c, x.cmd ≠ .single c) :
    x.cmd.Keeps ((family env).startWriteQuery x).1.cmd := by
  obtain ⟨buffer, first, cmd, effects⟩ := x
  cases cmd with
  | single c => exact absurd rfl (hx c)
  | local_ => exact .local_
  | memcGet => exact .memcGet
  | redisMget => exact .redisMget
  | redisMset => exact .redisMset
  | redisDel => exact .redisDel

variable (env) in
theorem continueWriteQuery_keeps (hx : ∀ c, x.cmd ≠ .single c) :
    x.cmd.Keeps ((family env).continueWriteQuery x).1.cmd := by
  obtain ⟨buffer, first, cmd, effects⟩ := x
  cases cmd with
  | single c => exact absurd rfl (hx c)
  | redisMset => exact .redisMset
  | _ => exact .refl _

variable (env) in
theorem processUnparsedPart_keeps (hi : x.cmd.Sound) (hv : x.buffer.Valid) (hx : x.effects = [])
    (hp : (family env).queryParsingComplete x.cmd = false) (h0 : x.buffer.ahead = 0)
    (hR : x.cmd.Rest x.buffer.unparsed) :
    x.cmd.Keeps ((family env).processUnparsedPart x).1.cmd ∧
      (Terminal ((family env).processUnparsedPart x).1.effects ∨
        ((family env).processUnparsedPart x).1.buffer.queued <:+ x.buffer.queued) := by
  obtain ⟨buffer, first, cmd, effects⟩ := x
  cases cmd with
  | redisMset pool c =>
    refine ⟨.redisMset, ?_⟩
    have hprocesses := @RedisMsetCommand.processUnparsedPart_processes ε
      ⟨buffer, first, c, effects⟩ _ (env.locate .redis) pool hi hv hx hp h0 hR
    exact hprocesses.imp_right fun h => h.2.2
  | redisDel pool c =>
    refine ⟨.redisDel, ?_⟩
    have hprocesses := @RedisDelCommand.processUnparsedPart_processes ε
      ⟨buffer, first, c, effects⟩ _ (env.locate .redis) pool hi hv hx hp h0 hR
    exact hprocesses.imp_right fun h => h.2.2
  | _ => exact ⟨.refl _, .inr (List.suffix_refl _)⟩

end Handlers
end AnyCommand

/-- The bytes that the last command has sent are not yet taken off the buffer. -/
def Task.sending : Task → Bool
  | .started _ _ | .continued _ _ => true
  | _ => false

/-- More is going to be read, or has just been read, for the last command. -/
def Task.asking : Task → Bool
  | .parsed _ | .effect _ .tryReadMoreQuery | .started _ true | .continued _ true => true
  | _ => false

theorem Task.quiet_of_later {t : Task} (h : t.later = true) :
    t.sending = false ∧ t.asking = false := by
  cases t with
  | rotated => exact ⟨rfl, rfl⟩
  | effect id e =>
    cases e with
    | decRecycleLock => exact ⟨rfl, rfl⟩
    | _ => cases h
  | _ => cases h

namespace ClientConn

/-- The commands so far. -/
def roster {C : Type} (c : ClientConn C) : List (Active C) := c.gone ++ c.activeCmdQueue

def sends {C : Type} (c : ClientConn C) : Bool := c.todo.any Task.sending

/-- The bytes at the front of the buffer that have been sent. -/
def pending {C : Type} (c : ClientConn C) : ℕ :=
  if c.sends then min c.buffer.queued.length c.buffer.ahead else 0

/-- The bytes behind those that have been sent. -/
def left {C : Type} (c : ClientConn C) : Bytes := c.buffer.queued.drop c.pending

/-- How many bytes behind those that have been sent belong to the last request. -/
def beyond {C : Type} (c : ClientConn C) : ℕ := c.buffer.ahead - c.pending

def Asks {C : Type} (c : ClientConn C) : Prop :=
  c.isReadingQuery = true ∨ ∃ t ∈ c.todo, t.asking = true

/-- Nothing is being written of the last request, if more of it is to come. -/
def Rests (c : ClientConn (AnyCommand ε)) : Prop :=
  ∀ a k, c.back = some a → a.cmd = .single k → k.queryRecvComplete = false → k.backend.query = none

/-- Commands leave at the front, and those that stay keep their requests. -/
def Carries (c c' : ClientConn (AnyCommand ε)) : Prop :=
  ∃ (out stay : List (Active (AnyCommand ε))) (g : Active (AnyCommand ε) → Active (AnyCommand ε)),
    c.activeCmdQueue = out ++ stay ∧ c'.gone = c.gone ++ out ∧ c'.activeCmdQueue = stay.map g ∧
      ∀ a ∈ stay, (g a).id = a.id ∧ a.cmd.Keeps (g a).cmd

/-- The commands that leave have complete requests. -/
def Leaves (c c' : ClientConn (AnyCommand ε)) : Prop :=
  ∀ a ∈ c'.gone, a ∈ c.gone ∨ ∀ k, a.cmd = .single k → k.queryRecvComplete = true

/-- The last request is where it was, unless it is for several backends. -/
structure Still (c c' : ClientConn (AnyCommand ε)) : Prop where
  tail : c'.buffer.queued <:+ c.buffer.queued
  same : c'.left = c.left ∧ c'.beyond = c.beyond ∨ ∃ a, c'.back = some a ∧ ∀ k, a.cmd ≠ .single k
  leaves : c.Leaves c'
  asks : c'.Asks → c.Asks ∨ c'.Rests

/-- What a step does with the requests. The state before it still has the task at hand. -/
inductive Move [DecidableEq ε] [Inhabited ε] (env : AnyCommand.Env ε)
    (c c' : ClientConn (AnyCommand ε)) : Prop where
  | keep (carries : c.Carries c') (still : c'.live → c'.Doomed ∨ c.Still c')
  | parse (a : Active (AnyCommand ε)) (k : SingleCommand ε) (m : ℕ) (back : c.back = some a)
      (cmd : a.cmd = .single k) (kind : k.kind = .redisSet)
        (incomplete : k.queryRecvComplete = false)
      (loop : parseUnparsedLoop k.unparsedBulks c.buffer = some (c'.buffer, m, true))
      (parsed : c.buffer.Parsed c'.buffer)
      (queue : c'.activeCmdQueue =
        (c.setCmd a.id (.single { k with unparsedBulks := m })).activeCmdQueue)
      (gone : c'.gone = c.gone) (idle : c.sends = false) (idle' : c'.sends = false)
        (rests : c'.Rests)
  | write (a : Active (AnyCommand ε)) (k : SingleCommand ε) (back : c.back = some a)
      (cmd : a.cmd = .single k) (incomplete : k.queryRecvComplete = false)
      (todo : c.todo = [.parsed (some a.id)]) (reading : c.isReadingQuery = false)
      (eq : c' = run { c with todo := [] } a fun x =>
        (((AnyCommand.family env).continueWriteQuery x).1,
          [.continued (some a.id) ((AnyCommand.family env).continueWriteQuery x).2]))
  | start (n : ℕ) (created : Created) (buffer : ReadBuffer) (cmd : AnyCommand ε) (ts : List Task)
      (create : createCommand c.buffer.bufferSize c.buffer.unprocessedData c.buffer.queued.length =
        some (n, some created))
      (construct : AnyCommand.construct env c.count c.buffer created = some (buffer, cmd))
      (bound : n < 2 ^ 63) (whole : created.whole = true → n ≤ c.buffer.queued.length)
      (complete : ∀ a k, c.back = some a → a.cmd = .single k → k.queryRecvComplete = true)
      (ahead : c.buffer.ahead = 0) (limit : c.activeCmdQueue.length < pipelineActiveLimit)
      (todo : c.todo = .processUnparsedQuery :: ts) (later : ∀ t ∈ ts, t.later = true)
      (reading : c.isReadingQuery = false)
      (eq : c' = startCommand (AnyCommand.family env) { c with todo := ts } n created buffer cmd)

section Carries
variable {c c' d : ClientConn (AnyCommand ε)} {a : Active (AnyCommand ε)}
variable {f : Ctx (AnyCommand ε) → Ctx (AnyCommand ε) × List Task}

theorem Carries.of_eq (hq : c'.activeCmdQueue = c.activeCmdQueue) (hg : c'.gone = c.gone) :
    c.Carries c' :=
  ⟨[], c.activeCmdQueue, id, rfl, by rw [hg, List.append_nil], by rw [hq, List.map_id],
    fun _ _ => ⟨rfl, .refl _⟩⟩

theorem carries_abort (c : ClientConn (AnyCommand ε)) : c.Carries c.abort :=
  ⟨c.activeCmdQueue, [], id, (List.append_nil _).symm, rfl, rfl,
    fun _ ha => absurd ha List.not_mem_nil⟩

theorem Carries.push (h : c.Carries d) (t : Task) : (c.push t).Carries d := h

theorem queue_run : (c.run a f).activeCmdQueue = c.activeCmdQueue.map fun a' =>
    if a'.id = a.id then { a' with cmd := (f (c.ctx a)).1.cmd } else a' := rfl

theorem Carries.run (h : c.Carries d) (ho : d.Ordered) (ha : a ∈ d.activeCmdQueue)
    (hk : a.cmd.Keeps (f (d.ctx a)).1.cmd) : c.Carries (d.run a f) := by
  obtain ⟨out, stay, g, hq, hg, hs, hkeep⟩ := h
  refine ⟨out, stay, _, hq, hg, (queue_run.trans (by rw [hs, List.map_map])), fun a' ha' => ?_⟩
  obtain ⟨hid, hkeep⟩ := hkeep a' ha'
  have hmem : g a' ∈ d.activeCmdQueue := hs ▸ List.mem_map_of_mem ha'
  rw [Function.comp_apply]
  split
  next heq =>
    have heq := ho.eq_of_id hmem ha heq
    refine ⟨hid, hkeep.trans ?_⟩
    rw [heq]
    exact hk
  next => exact ⟨hid, hkeep⟩

theorem Carries.mem (h : c.Carries c') {a' : Active (AnyCommand ε)} (ha : a' ∈ c'.activeCmdQueue) :
    ∃ a ∈ c.activeCmdQueue, a'.id = a.id ∧ a.cmd.Keeps a'.cmd := by
  obtain ⟨out, stay, g, hq, -, hs, hkeep⟩ := h
  rw [hs] at ha
  obtain ⟨a, hstay, rfl⟩ := List.mem_map.mp ha
  exact ⟨a, hq ▸ List.mem_append_right _ hstay, hkeep a hstay⟩

theorem Carries.mem_roster (h : c.Carries c') {a' : Active (AnyCommand ε)} (ha : a' ∈ c'.roster) :
    ∃ a ∈ c.roster, a'.id = a.id ∧ a.cmd.Keeps a'.cmd := by
  rcases List.mem_append.mp ha with hgone | hactive
  · obtain ⟨out, stay, g, hq, hg, -, -⟩ := h
    refine ⟨a', ?_, rfl, .refl _⟩
    rw [hg, List.mem_append] at hgone
    rw [roster, hq, List.mem_append, List.mem_append]
    exact hgone.imp_right .inl
  · obtain ⟨a, ha, hkeep⟩ := h.mem hactive
    exact ⟨a, List.mem_append_right _ ha, hkeep⟩

theorem Carries.back (h : c.Carries c') {a' : Active (AnyCommand ε)} (hb : c'.back = some a') :
    ∃ a, c.back = some a ∧ a'.id = a.id ∧ a.cmd.Keeps a'.cmd := by
  obtain ⟨out, stay, g, hq, -, hs, hkeep⟩ := h
  rw [ClientConn.back, hs, List.getLast?_map] at hb
  obtain ⟨a, ha, rfl⟩ := Option.map_eq_some_iff.mp hb
  refine ⟨a, ?_, hkeep a (List.mem_of_getLast? ha)⟩
  rw [ClientConn.back, hq, List.getLast?_append, ha]
  rfl

theorem run_idle (ho : c.Ordered) (ha : a ∈ c.activeCmdQueue) {ts : List Task}
    (hf : f (c.ctx a) = (c.ctx a, ts)) : c.run a f = { c with todo := ts ++ c.todo } := by
  have hq : (c.run a f).activeCmdQueue = c.activeCmdQueue := by
    rw [queue_run, hf]
    conv_rhs => rw [← List.map_id c.activeCmdQueue]
    refine List.map_congr_left fun a' ha' => ?_
    dsimp only
    split
    next hid => rw [ho.eq_of_id ha' ha hid, id]
    next => rfl
  have heq : c.run a f = { c with
      activeCmdQueue := (c.run a f).activeCmdQueue
      buffer := (f (c.ctx a)).1.buffer
      todo := (f (c.ctx a)).1.effects.map (Task.effect a.id) ++ ((f (c.ctx a)).2 ++ c.todo) } := rfl
  rw [heq, hq, hf]
  rfl

theorem back_run (hb : c.back = some a) :
    (c.run a f).back = some { a with cmd := (f (c.ctx a)).1.cmd } := by
  have hq : (c.run a f).back = c.back.map fun a' =>
      if a'.id = a.id then { a' with cmd := (f (c.ctx a)).1.cmd } else a' := List.getLast?_map ..
  rw [hq, hb, Option.map_some, if_pos rfl]

end Carries

section Tasks
variable {C : Type} {c : ClientConn C} {t : Task}

theorem sends_push : (c.push t).sends = (t.sending || c.sends) := rfl

theorem sends_of_later (hl : ∀ t ∈ c.todo, t.later = true) : c.sends = false := by
  rw [sends, List.any_eq_false]
  intro t ht
  rw [(Task.quiet_of_later (hl t ht)).1]
  nofun

theorem sends_nil (ht : c.todo = []) : c.sends = false := by
  rw [sends, ht]
  rfl

theorem pending_of_idle (hs : c.sends = false) : c.pending = 0 := by
  rw [pending, hs]
  rfl

theorem left_of_idle (hs : c.sends = false) : c.left = c.buffer.queued := by
  rw [left, pending_of_idle hs, List.drop_zero]

theorem beyond_of_idle (hs : c.sends = false) : c.beyond = c.buffer.ahead := by
  rw [beyond, pending_of_idle hs, Nat.sub_zero]

theorem Asks.push (h : c.Asks) (t : Task) : (c.push t).Asks :=
  h.imp_right fun ⟨t', ht, ha⟩ => ⟨t', List.mem_cons_of_mem _ ht, ha⟩

theorem asks_push (ht : t.asking = true) : (c.push t).Asks := .inr ⟨t, List.mem_cons_self .., ht⟩

theorem Asks.of_push (h : (c.push t).Asks) (ht : t.asking = false) : c.Asks := by
  rcases h with hr | ⟨t', hm, ha⟩
  · exact .inl hr
  · rcases List.mem_cons.mp hm with rfl | hm
    · exact absurd (ht.symm.trans ha) nofun
    · exact .inr ⟨t', hm, ha⟩

/-- With nothing but later tasks to do, only the read in flight asks for more. -/
theorem Asks.reading (h : c.Asks) (hl : ∀ t ∈ c.todo, t.later = true) :
    c.isReadingQuery = true := by
  rcases h with hr | ⟨t, ht, ha⟩
  · exact hr
  · exact absurd ((Task.quiet_of_later (hl t ht)).2.symm.trans ha) nofun

theorem clear_push (ht : c.todo = []) : { c.push t with todo := [] } = c := by
  cases c
  cases ht
  rfl

theorem not_live_crash : ¬ c.crash.live := by simp [live, crash]

theorem not_live_abort : ¬ c.abort.live := by simp [live, abort]

end Tasks

theorem Leaves.of_eq {c c' : ClientConn (AnyCommand ε)} (hg : c'.gone = c.gone) : c.Leaves c' :=
  fun _ ha => .inl (hg ▸ ha)

theorem Still.of_kept {c c' : ClientConn (AnyCommand ε)} (hk : c.buffer.Kept c'.buffer)
    (hs : c'.sends = c.sends) (hl : c.Leaves c') (ha : c'.Asks → c.Asks ∨ c'.Rests) :
    c.Still c' := by
  refine ⟨by rw [hk.queued], .inl ?_, hl, ha⟩
  rw [left, left, beyond, beyond, pending, pending, hs, hk.queued, hk.ahead]
  exact ⟨rfl, rfl⟩

section Moves
variable [DecidableEq ε] [Inhabited ε] {env : AnyCommand.Env ε}
variable {c c' d : ClientConn (AnyCommand ε)} {a : Active (AnyCommand ε)} {t : Task}

theorem move_crash : Move env (c.push t) c.crash :=
  .keep (.of_eq rfl rfl) fun hlive => absurd hlive not_live_crash

theorem move_skip (hv : c.buffer.Valid) (ht : t.sending = false) : Move env (c.push t) c :=
  .keep (.of_eq rfl rfl) fun _ => .inr (.of_kept (.refl hv) (by rw [sends_push, ht]; rfl)
    (.of_eq rfl) fun h => .inl (h.push t))

theorem move_push (hv : c.buffer.Valid) (ht : t.sending = false) {t' : Task}
    (ht' : t'.sending = false) (ha : t'.asking = false) : Move env (c.push t) (c.push t') :=
  .keep (.of_eq rfl rfl) fun _ =>
    .inr (.of_kept (.refl hv) (by rw [sends_push, sends_push, ht, ht'])
    (.of_eq rfl) fun h => .inl ((h.of_push ha).push t))

theorem move_tryRead (hv : c.buffer.Valid) (ht : t.sending = false)
    (ha : (c.push t).Asks ∨ c.Rests) :
    Move env (c.push t) c.tryReadMoreQuery := by
  obtain ⟨b, r, hk, he⟩ := tryReadMoreQuery_eq hv
  rw [he]
  refine .keep (.of_eq rfl rfl) fun _ => .inr (.of_kept hk ?_ (.of_eq rfl) fun _ => ha)
  rw [sends_push, ht]
  rfl

/-- Behind a handler that has sent the bytes are taken off, and the rest is what it was. -/
theorem move_taken (hv : c.buffer.Valid) (ht : t.sending = true)
    (hq : c'.activeCmdQueue = c.activeCmdQueue) (hg : c'.gone = c.gone)
    (hk : c.updateProcessed.buffer.Kept c'.buffer) (hs : c'.sends = false)
    (ha : c'.Asks → (c.push t).Asks) : Move env (c.push t) c' := by
  have hpending : (c.push t).pending = min c.buffer.queued.length c.buffer.ahead := by
    rw [pending, sends_push, ht]
    rfl
  have hun := ReadBuffer.unprocessedBytes_eq hv
  have hqueued : c'.buffer.queued = (c.push t).left := by
    rw [hk.queued, left, hpending, updateProcessed, hun]
    exact ReadBuffer.queued_updateProcessedBytes hv (Nat.min_le_left ..) (Nat.min_le_right ..)
  have hahead : c'.buffer.ahead = (c.push t).beyond := by
    rw [hk.ahead, beyond, hpending, updateProcessed, hun]
    exact ReadBuffer.ahead_updateProcessedBytes hv (Nat.min_le_left ..) (Nat.min_le_right ..)
  refine .keep (.of_eq hq hg) fun _ => .inr ⟨?_, .inl ?_, .of_eq hg, fun h => .inl (ha h)⟩
  · rw [hqueued]
    exact List.drop_suffix ..
  · exact ⟨(left_of_idle hs).trans hqueued, (beyond_of_idle hs).trans hahead⟩

theorem move_taken_skip (hv : c.buffer.Valid) (hv' : c.updateProcessed.buffer.Valid)
    (ht : t.sending = true) (hl : c.sends = false) : Move env (c.push t) c.updateProcessed :=
  move_taken hv ht rfl rfl (.refl hv') hl fun h => Asks.push (c := c) h t

theorem move_taken_tryRead (hv : c.buffer.Valid) (hv' : c.updateProcessed.buffer.Valid)
    (ht : t.sending = true) (ha : t.asking = true) (hl : c.sends = false) :
    Move env (c.push t) c.updateProcessed.tryReadMoreQuery := by
  obtain ⟨b, r, hk, he⟩ := tryReadMoreQuery_eq hv'
  rw [he]
  exact move_taken hv ht rfl rfl hk hl fun _ => asks_push ha

theorem move_taken_push (hv : c.buffer.Valid) (hv' : c.updateProcessed.buffer.Valid)
    (ht : t.sending = true) (hl : c.sends = false) {t' : Task} (ht' : t'.sending = false)
    (ha : t'.asking = false) : Move env (c.push t) (c.updateProcessed.push t') := by
  refine move_taken hv ht rfl rfl (.refl hv') ?_ fun h => Asks.push (c := c) (h.of_push ha) t
  rw [sends_push, ht']
  exact hl

theorem finishStarted_moves (hv : c.buffer.Valid) (hv' : c.updateProcessed.buffer.Valid)
    (hl : c.sends = false) (id : ℕ) (noCallback : Bool) :
    Move env (c.push (.started id noCallback))
      (c.finishStarted (AnyCommand.family env) id noCallback) := by
  unfold finishStarted
  dsimp only
  split
  · exact move_taken_skip hv hv' rfl hl
  split
  · split
    next hn =>
      subst hn
      exact move_taken_tryRead hv hv' rfl rfl hl
    next => exact move_taken_skip hv hv' rfl hl
  · exact move_taken_push hv hv' rfl hl rfl rfl

theorem finishContinued_moves (hv : c.buffer.Valid) (hv' : c.updateProcessed.buffer.Valid)
    (hl : c.sends = false) (back : Option ℕ) (noCallback : Bool) :
    Move env (c.push (.continued back noCallback)) (c.finishContinued back noCallback) := by
  unfold finishContinued
  dsimp only
  split
  · split
    next hn =>
      subst hn
      exact move_taken_tryRead hv hv' rfl rfl hl
    next => exact move_taken_skip hv hv' rfl hl
  · exact move_taken_push hv hv' rfl hl rfl rfl

theorem finishHandled_moves (hv : c.buffer.Valid) (back : Option ℕ) :
    Move env (c.push (.handled back)) (c.finishHandled (AnyCommand.family env) back) := by
  unfold finishHandled
  split
  · exact move_push hv rfl rfl rfl
  split
  · exact move_push hv rfl rfl rfl
  · exact move_skip hv rfl

theorem finishRotated_moves (hv : c.buffer.Valid) (hc : c.Covered AnyCommand.locks) :
    Move env (c.push .rotated) (c.finishRotated (AnyCommand.family env)) := by
  unfold finishRotated
  cases hback : c.back with
  | none => exact move_crash
  | some a =>
    dsimp only
    split
    · exact move_push hv rfl rfl rfl
    split
    next hfree =>
      refine move_tryRead hv rfl (.inr fun a' k hb hk _ => ?_)
      have hlocks := locks_le_held AnyCommand.locks (back_mem hb)
      have hcount : c.buffer.recycleLockCount = 0 := by
        simpa [ReadBuffer.recycleLocked] using hfree
      unfold Covered at hc
      have hzero : AnyCommand.locks a'.cmd = 0 := by omega
      rw [hk] at hzero
      by_contra hq
      have := SingleCommand.locks_pos_iff.mpr (Option.isSome_iff_ne_none.mpr hq)
      exact absurd hzero (Nat.ne_of_gt this)
    next => exact move_skip hv rfl

section Run
variable {g : Ctx (AnyCommand ε) → Ctx (AnyCommand ε)} {after : List Task}

theorem run_moves (hcd : c.Carries d) (ho : d.Ordered)
    (hb : d.Base (AnyCommand.family env) AnyCommand.Sound AnyCommand.received)
    (ha : a ∈ d.activeCmdQueue)
    (hk : (d.ctx a).cmd.Keeps (g (d.ctx a)).cmd ∧ AnyCommand.Paused (g (d.ctx a)))
    (hm : Terminal (g (d.ctx a)).effects ∨ Minor (AnyCommand.family env).toHandlers AnyCommand.Sound
      AnyCommand.received (d.ctx a) (g (d.ctx a)))
    (hbuf : d.buffer = c.buffer) (hr : d.isReadingQuery = c.isReadingQuery)
    (hg : c.Leaves d) (hl : ∀ t ∈ after ++ d.todo, t.later = true) (hs : c.sends = false) :
    Move env c (d.run a fun x => (g x, after)) := by
  refine .keep (hcd.run ho ha hk.1) fun _ => ?_
  rcases hm with hm | hm
  · exact .inl (doomed_run hm)
  have hkept : c.buffer.Kept (d.run a fun x => (g x, after)).buffer := hbuf ▸ hm.kept
  have hsends : (d.run a fun x => (g x, after)).sends = false := by
    rw [sends, todo_run, List.any_append, Bool.or_eq_false_iff]
    refine ⟨List.any_eq_false.mpr fun t ht => ?_, List.any_eq_false.mpr fun t ht => ?_⟩
    · obtain ⟨e, -, rfl⟩ := List.mem_map.mp ht
      exact Bool.false_ne_true
    · rw [(Task.quiet_of_later (hl t ht)).1]
      exact Bool.false_ne_true
  refine .inr (.of_kept hkept (hsends.trans hs.symm) hg fun hasks => ?_)
  rcases hasks with hreading | ⟨t, ht, hask⟩
  · exact .inl (.inl (hr ▸ hreading))
  rw [todo_run] at ht
  rcases List.mem_append.mp ht with ht | ht
  · -- the command that asks for more is the last one
    obtain ⟨e, he, rfl⟩ := List.mem_map.mp ht
    obtain rfl : e = .tryReadMoreQuery := by
      cases e with
      | tryReadMoreQuery => rfl
      | _ => cases hask
    have hback :=
      hb.back_of_incomplete (AnyCommand.family_disciplined env) ha (hm.emits.incomplete he)
    refine .inr fun a' k hb' hk' _ => ?_
    rw [back_run hback] at hb'
    obtain rfl := Option.some.inj hb'
    exact hk.2 he k hk'
  · exact absurd ((Task.quiet_of_later (hl t ht)).2.symm.trans hask) Bool.false_ne_true

end Run

theorem rotate_moves (ho : c.Ordered)
    (hb : c.Base (AnyCommand.family env) AnyCommand.Sound AnyCommand.received) {id : ℕ}
    (hm : ∃ m, (c.view (AnyCommand.family env) AnyCommand.received).front = some m ∧ m.id = id ∧
      m.complete = true)
    (hl : ∀ t ∈ c.todo, t.later = true)
    (hord : ∀ a ∈ c.activeCmdQueue, ∀ k, a.cmd = .single k → k.Orderly) :
    Move env (c.push (.effect id .rotate)) (c.rotateReplyingCommand (AnyCommand.family env)) := by
  have hs : (c.push (.effect id .rotate)).sends = false := by
    rw [sends_push, sends_of_later hl]
    rfl
  obtain ⟨m, hfront, -, hcomplete⟩ := hm
  cases hq : c.activeCmdQueue with
  | nil =>
    rw [view_front, hq] at hfront
    cases hfront
  | cons a queue =>
    rw [view_front, hq] at hfront
    obtain rfl := Option.some.inj hfront
    rw [complete_mark (AnyCommand.family_disciplined env) (hb.held a (by rw [hq]; simp))]
      at hcomplete
    have hleaves : ∀ a' ∈ c.gone ++ [a], a' ∈ c.gone ∨ ∀ k, a'.cmd = .single k →
        k.queryRecvComplete = true := by
      intro a' ha'
      refine (List.mem_append.mp ha').imp_right fun ha' k hk => ?_
      rw [← List.mem_singleton.mp ha', hk] at hcomplete
      exact hcomplete
    cases queue with
    | nil =>
      obtain ⟨b, r, hk, he⟩ := rotateReplyingCommand_last (AnyCommand.family env) hb.valid hq
      rw [he]
      refine .keep ⟨[a], [], fun a => a, ?_, rfl, rfl, fun _ ha => absurd ha List.not_mem_nil⟩
        fun _ =>
        .inr (.of_kept hk (Eq.trans ?_ hs.symm) hleaves fun _ => .inr fun a' k hb' _ _ => ?_)
      · rw [List.append_nil]
        exact hq
      · exact sends_of_later hl
      · cases hb'
    | cons front queue =>
      have hfront : front ∈ c.activeCmdQueue := by
        rw [hq]
        exact List.mem_cons_of_mem _ (List.mem_cons_self ..)
      rw [rotateReplyingCommand_next _ hq]
      refine run_moves ⟨[a], front :: queue, fun a => a, hq, rfl, (List.map_id' _).symm,
          fun _ _ => ⟨rfl, .refl _⟩⟩
        (ho.pop hq) (hb.pop ho hq) (List.mem_cons_self ..)
        (AnyCommand.startWriteReply_keeps (hord front hfront) rfl)
        ((AnyCommand.family_disciplined env).becomeFirst _ (hb.held front hfront) hb.valid rfl
          (by simp [isFirst])) rfl rfl hleaves (fun t ht => ?_) hs
      rcases List.mem_cons.mp ht with rfl | ht
      · rfl
      · exact hl t ht

theorem finishParsed_moves (ho : c.Ordered)
    (hb : c.Base (AnyCommand.family env) AnyCommand.Sound AnyCommand.received)
    (hr : c.isReadingQuery = false)
    (ha : (c.view (AnyCommand.family env) AnyCommand.received).Aligned) {back : Option ℕ}
    (hback : back = (c.view (AnyCommand.family env) AnyCommand.received).back.map Mark.id)
    (ht : c.todo = []) :
    Move env (c.push (.parsed back)) (c.finishParsed (AnyCommand.family env) back) := by
  have hnot : ¬ c.buffer.parsedOffset < c.buffer.processedOffset :=
    Nat.not_lt.mpr hb.valid.processed_parsed
  unfold finishParsed
  rw [if_neg hnot, bind_find_back ho hback]
  split
  next hpos =>
    cases hb' : c.back with
    | none => exact move_crash
    | some a =>
      have hmark : (c.view (AnyCommand.family env) AnyCommand.received).back =
          some (mark (AnyCommand.family env) AnyCommand.received a) := by
        rw [view_back, hb']
        rfl
      obtain rfl : back = some a.id := by rw [hback, hmark]; rfl
      have hrecv : a.cmd.received = false := by
        rw [Bool.eq_false_iff]
        intro hrecv
        have h0 : c.buffer.ahead = 0 := ha.received _ hmark hrecv
        rw [ReadBuffer.parsedUnprocessedBytes_eq, h0] at hpos
        exact Nat.lt_irrefl 0 hpos
      by_cases hsingle : ∃ k, a.cmd = .single k
      · obtain ⟨k, hk⟩ := hsingle
        rw [hk] at hrecv
        exact .write a k hb' hk hrecv (congrArg _ ht) hr (by rw [clear_push ht])
      · -- the other classes go on with a backend of their own
        rw [not_exists] at hsingle
        have hkeeps := AnyCommand.continueWriteQuery_keeps env (x := c.ctx a) hsingle
        have hcarry : c.Carries c := .of_eq rfl rfl
        refine .keep ((hcarry.push _).run ho (back_mem hb') hkeeps) fun _ => ?_
        rcases (AnyCommand.family_disciplined env).continue_ (c.ctx a)
          (hb.held a (back_mem hb')) hb.valid
          rfl hrecv with hf | hsends
        · exact .inl (doomed_run hf)
        refine .inr
          ⟨?_, .inr ⟨_, back_run hb', fun k hk => ?_⟩, .of_eq rfl, fun _ => .inl (asks_push rfl)⟩
        · rw [buffer_run]
          dsimp only
          rw [hsends.kept.queued]
          exact List.suffix_refl _
        · rw [show ((AnyCommand.family env).continueWriteQuery (c.ctx a)).1.cmd = .single k from hk]
            at hkeeps
          exact absurd hkeeps (AnyCommand.not_keeps_single hsingle)
  next => exact move_push hb.valid rfl rfl rfl

theorem finishUnparsed_moves (ho : c.Ordered)
    (hb : c.Base (AnyCommand.family env) AnyCommand.Sound AnyCommand.received)
    (h0 : c.buffer.ahead = 0) {back : Option ℕ}
    (hback : back = (c.view (AnyCommand.family env) AnyCommand.received).back.map Mark.id)
    (hrest : ∀ a, c.back = some a → (AnyCommand.family env).queryParsingComplete a.cmd = false →
      a.cmd.Rest c.buffer.unparsed) :
    Move env (c.push (.unparsed back)) (c.finishUnparsed (AnyCommand.family env) back) := by
  unfold finishUnparsed
  rw [bind_find_back ho hback]
  cases hb' : c.back with
  | none => exact move_push hb.valid rfl rfl rfl
  | some a =>
    dsimp only
    split
    · exact move_push hb.valid rfl rfl rfl
    next hp =>
      have hp : (AnyCommand.family env).queryParsingComplete a.cmd = false :=
        Bool.not_eq_true _ ▸ hp
      have hcarry : c.Carries c := .of_eq rfl rfl
      have hinv := hb.held a (back_mem hb')
      obtain ⟨hkeeps, htail⟩ := AnyCommand.processUnparsedPart_keeps env (x := c.ctx a)
        hinv hb.valid rfl hp h0 (hrest a hb' hp)
      by_cases hsingle : ∃ k, a.cmd = .single k
      · -- a command with one backend has nothing to do here
        obtain ⟨k, hk⟩ := hsingle
        have hsame : (AnyCommand.family env).processUnparsedPart (c.ctx a) = (c.ctx a, true) := by
          simp only [ctx, hk]
          rfl
        rw [run_idle ho (back_mem hb') (by simp only [hsame]; rfl)]
        exact move_push hb.valid rfl rfl rfl
      · refine .keep ((hcarry.push _).run ho (back_mem hb') hkeeps) fun _ => ?_
        rw [not_exists] at hsingle
        rcases htail with hf | htail
        · exact .inl (doomed_run hf)
        have hother : ∀ k, ((AnyCommand.family env).processUnparsedPart (c.ctx a)).1.cmd ≠
            .single k := by
          intro k hk
          rw [hk] at hkeeps
          exact AnyCommand.not_keeps_single hsingle hkeeps
        refine .inr
          ⟨htail, .inr ⟨_, back_run hb', hother⟩, .of_eq rfl,
          fun _ => .inr fun a' k hlast hk _ => ?_⟩
        rw [back_run hb'] at hlast
        obtain rfl := Option.some.inj hlast
        exact absurd hk (hother k)

theorem back_complete (hb : c.Base (AnyCommand.family env) AnyCommand.Sound AnyCommand.received)
    (hc : (c.view (AnyCommand.family env) AnyCommand.received).Complete) {k : SingleCommand ε}
    (hback : c.back = some a) (hk : a.cmd = .single k) : k.queryRecvComplete = true := by
  have hmark : (c.view (AnyCommand.family env) AnyCommand.received).back =
      some (mark (AnyCommand.family env) AnyCommand.received a) := by
    rw [view_back, hback]
    rfl
  have hcomplete := hc _ hmark
  rw [complete_mark (AnyCommand.family_disciplined env) (hb.held a (back_mem hback)), hk]
    at hcomplete
  exact hcomplete

theorem processUnparsedQuery_moves
    (hb : c.Base (AnyCommand.family env) AnyCommand.Sound AnyCommand.received)
    (ha : (c.view (AnyCommand.family env) AnyCommand.received).Aligned)
    (hc : (c.view (AnyCommand.family env) AnyCommand.received).Complete ∨
      c.buffer.queued.length ≤ c.buffer.ahead)
    (hl : ∀ t ∈ c.todo, t.later = true)
    (hu : c.activeCmdQueue.length < pipelineActiveLimit → 0 < c.buffer.unparsedReceivedBytes →
      Understood c.buffer.bufferSize c.buffer.unprocessedData c.buffer.receivedBytes) :
    Move env (c.push .processUnparsedQuery) (c.processUnparsedQuery (AnyCommand.family env)) := by
  have hun := ReadBuffer.unparsedReceivedBytes_eq hb.valid
  have hbytes : c.buffer.unprocessedData.bytes c.buffer.queued.length = c.buffer.queued := by
    rw [ReadBuffer.unprocessedData_bytes hb.valid le_rfl, List.take_length]
  unfold processUnparsedQuery
  split
  swap
  · exact move_skip hb.valid rfl
  next hbody =>
    have hpos := hbody.2
    rw [hun] at hpos
    have hc := hc.resolve_right (by omega)
    have hf := framed hb.valid (by omega) (hu hbody.1 hbody.2)
    rw [ReadBuffer.receivedBytes_eq hb.valid]
    cases hcr :
      createCommand c.buffer.bufferSize c.buffer.unprocessedData c.buffer.queued.length with
    | none => exact move_crash
    | some r =>
      obtain ⟨n, _ | created⟩ := r
      · refine move_tryRead hb.valid rfl (.inr fun a k hback hk hinc => ?_)
        exact absurd (hinc.symm.trans (back_complete hb hc hback hk)) Bool.false_ne_true
      · obtain ⟨hn0, hn, hwhole⟩ := hf.takes n created hcr
        -- while a read is outstanding there is nothing to start
        have hr : c.isReadingQuery = false := by
          rw [Bool.eq_false_iff]
          intro hr
          have := hb.reads hr hc _ hbytes
          rw [hcr] at this
          cases this
        dsimp only
        cases hcon : (AnyCommand.family env).construct c.count c.buffer created with
        | none => exact move_crash
        | some r =>
          obtain ⟨buffer, cmd⟩ := r
          dsimp only
          rw [if_neg (by omega)]
          exact .start n created buffer cmd c.todo hcr hcon hn hwhole
            (fun _ _ hback hk => back_complete hb hc hback hk)
              (ha.ahead_eq hc) hbody.1 rfl hl hr rfl

theorem effect_moves (ho : c.Ordered)
    (hb : c.Base (AnyCommand.family env) AnyCommand.Sound AnyCommand.received) {id : ℕ} {e : Effect}
    (hs : Stage (.effect id e :: c.todo) (c.view (AnyCommand.family env) AnyCommand.received))
    (hord : ∀ a ∈ c.activeCmdQueue, ∀ k, a.cmd = .single k → k.Orderly) :
    Move env (c.push (.effect id e)) (c.perform (AnyCommand.family env) (.effect id e)) := by
  cases e with
  | writeReply data b =>
    simp only [perform]
    split
    · exact move_crash
    · exact .keep (.of_eq rfl rfl) fun _ => .inr (.of_kept (.refl hb.valid) rfl
        (.of_eq rfl) fun h => .inl (Asks.push (c := c) h _))
  | rotate =>
    obtain ⟨hm, hi⟩ := hs
    exact rotate_moves ho hb hm hi.2.2 hord
  | tryReadMoreQuery => exact move_tryRead hb.valid rfl (.inl (asks_push rfl))
  | decRecycleLock =>
    exact .keep (.of_eq rfl rfl) fun _ => .inr (.of_kept
      (ReadBuffer.Kept.decRecycleLock (.refl hb.valid)) rfl (.of_eq rfl) fun h =>
        .inl (Asks.push (c := c) h _))
  | abort => exact False.elim hs
  | assertFailed => exact False.elim hs
  | crash => exact False.elim hs

variable (env) in
theorem task_moves (ho : c.Ordered)
    (hb : c.Base (AnyCommand.family env) AnyCommand.Sound AnyCommand.received) {t : Task}
    (hs : Stage (t :: c.todo) (c.view (AnyCommand.family env) AnyCommand.received))
    (hr : ReadableTask (AnyCommand.family env) AnyCommand.Rest c t)
    (hc : (c.push t).Covered AnyCommand.locks)
    (hord : ∀ a ∈ c.activeCmdQueue, ∀ k, a.cmd = .single k → k.Orderly) :
    Move env (c.push t) (c.perform (AnyCommand.family env) t) := by
  cases t with
  | effect id e => exact effect_moves ho hb hs hord
  | rotated =>
    refine finishRotated_moves hb.valid ?_
    unfold Covered held at hc ⊢
    simpa [push, Task.unlocks] using hc
  | processUnparsedQuery => exact processUnparsedQuery_moves hb hs.1 hs.2.1 hs.2.2.2 hr
  | started id noCallback =>
    exact finishStarted_moves hb.valid (hb.updateProcessed hs.1).valid
      (sends_of_later hs.2.2) id noCallback
  | parsed back =>
    obtain ⟨hread, ha, hback, ht⟩ := hs
    exact finishParsed_moves ho hb hread ha hback ht
  | continued back noCallback =>
    obtain ⟨hread, -, ht⟩ := hs
    refine finishContinued_moves hb.valid (hb.updateProcessed hread).valid ?_ back noCallback
    rw [sends, ht]
    rfl
  | unparsed back =>
    obtain ⟨-, -, h0, hback, -⟩ := hs
    refine finishUnparsed_moves ho hb h0 hback fun a ha' hp => hr a ?_ hp
    rw [bind_find_back ho hback, ha']
  | handled back => exact finishHandled_moves hb.valid back

theorem parseUnparsedPart_other {x : Ctx (AnyCommand ε)}
    (hx : ∀ k, x.cmd = .single k → k.kind ≠ .redisSet) :
    (AnyCommand.family env).parseUnparsedPart x = (x, true) := by
  obtain ⟨buffer, first, cmd, effects⟩ := x
  cases cmd with
  | single k =>
    have hk := hx k rfl
    simp only [AnyCommand.family, Ctx.liftFlag, SingleCommand.parseUnparsedPart]
  | _ => rfl

theorem handleRead_moves (ho : c.Ordered)
    (hs : c.Sound (AnyCommand.family env) AnyCommand.Sound AnyCommand.received) (ht : c.todo = [])
    {chunk : Bytes} (hc : chunk.length ≤ c.buffer.freeSpaceSize)
    (hr : ∀ a, c.back = some a → (AnyCommand.family env).queryRecvComplete a.cmd = false →
      a.cmd.Rest ((c.buffer.queued ++ chunk).drop c.buffer.ahead))
    (hrests : c.Rests) :
    Move env (c.received chunk) (c.handleRead (AnyCommand.family env) chunk) := by
  have hv : (c.received chunk).buffer.Valid :=
    ReadBuffer.decRecycleLock_valid (ReadBuffer.receive_valid hs.valid hc)
  have hpush : ∀ back, Move env (c.received chunk) ((c.received chunk).push (.parsed back)) :=
    fun back =>
    .keep (.of_eq rfl rfl) fun _ => .inr (.of_kept (.refl hv) rfl (.of_eq rfl) fun _ => .inr hrests)
  unfold handleRead
  rw [show { c with
    isReadingQuery := false, buffer := (c.buffer.receive chunk).decRecycleLock } =
      c.received chunk from rfl]
  dsimp only
  cases hback : (c.received chunk).back with
  | none => exact hpush _
  | some a =>
    dsimp only
    split
    · exact hpush _
    next hinc =>
      have hinc : (AnyCommand.family env).queryRecvComplete a.cmd = false :=
        Bool.not_eq_true _ ▸ hinc
      have ho' : (c.received chunk).Ordered := ho.of_eq rfl rfl rfl
      by_cases hset : ∃ k, a.cmd = .single k ∧ k.kind = .redisSet
      · obtain ⟨k, hk, hkind⟩ := hset
        have hrest : StartsBulks k.unparsedBulks (c.received chunk).buffer.unparsed := by
          have hview := view_received (AnyCommand.family env) AnyCommand.received hs.valid hc
          have hq : (c.received chunk).buffer.queued = c.buffer.queued ++ chunk :=
            congrArg View.queued hview
          have hah : (c.received chunk).buffer.ahead = c.buffer.ahead := congrArg View.ahead hview
          have hR := hr a hback hinc
          rw [hk] at hR
          rw [ReadBuffer.unparsed, hq, hah]
          exact hR hkind
        obtain ⟨b', m, hloop, hparsed, -⟩ := parseUnparsedLoop_starts hv hrest
        have hy : (AnyCommand.family env).parseUnparsedPart ((c.received chunk).ctx a) =
            (⟨b', (c.received chunk).isFirst a.id, .single { k with unparsedBulks := m }, []⟩,
              true) := by
          simp only [ctx, hk, AnyCommand.family, Ctx.liftFlag, SingleCommand.parseUnparsedPart,
            hkind, hloop]
        rw [hk] at hinc
        refine .parse a k m hback hk hkind hinc ?_ ?_ ?_ rfl (sends_nil ht) ?_
          fun a' k' hb' hk' _ => ?_
        · rw [buffer_run]
          simp only [hy]
          exact hloop
        · rw [buffer_run]
          simp only [hy]
          exact hparsed
        · rw [queue_run]
          simp only [hy]
          rfl
        · rw [sends, todo_run]
          simp only [hy]
          rw [show (c.received chunk).todo = [] from ht]
          rfl
        · rw [back_run hback] at hb'
          obtain rfl := Option.some.inj hb'
          simp only [hy] at hk'
          obtain rfl := AnyCommand.single.inj hk'
          exact hrests a k hback hk hinc
      · have hsame : (AnyCommand.family env).parseUnparsedPart ((c.received chunk).ctx a) =
            ((c.received chunk).ctx a, true) :=
          parseUnparsedPart_other fun k hk hkind => hset ⟨k, hk, hkind⟩
        rw [run_idle ho' (back_mem hback) (by simp only [hsame]; rfl)]
        exact hpush _

theorem handleWrite_moves (ho : c.Ordered)
    (hs : c.Sound (AnyCommand.family env) AnyCommand.Sound AnyCommand.received) (ht : c.todo = [])
    (hord : ∀ a ∈ c.activeCmdQueue, ∀ k, a.cmd = .single k → k.Orderly) (ec : ErrorCode) :
    Move env c (c.handleWrite (AnyCommand.family env) ec) := by
  have hstill : ∀ w, Move env c { c with writing := w } := fun w =>
    .keep (.of_eq rfl rfl) fun _ => .inr (.of_kept (.refl hs.valid) rfl (.of_eq rfl) .inl)
  unfold handleWrite
  cases hw : c.writing with
  | none => exact hstill c.writing
  | some w =>
    obtain ⟨id, b⟩ := w
    dsimp only
    cases hf : find { c with writing := none } id with
    | none => exact hstill none
    | some a =>
      obtain ⟨hmem, hid⟩ := find_some hf
      have hfirst : c.isFirst a.id = true := by
        rw [hid, isFirst_iff]
        exact hs.writes.front id b hw (hid ▸ List.mem_map_of_mem hmem)
      have hb : Base (AnyCommand.family env) AnyCommand.Sound AnyCommand.received
          { c with writing := none } :=
        ⟨hs.valid, hs.held, hs.earlier, hs.reads,
          ⟨fun _ _ h => (by cases h), fun _ _ h => (by cases h)⟩⟩
      exact run_moves (.of_eq rfl rfl) (ho.of_eq rfl rfl rfl) hb hmem
        (AnyCommand.onWriteReplyFinished_keeps b ec (hord a hmem) rfl)
        ((AnyCommand.family_disciplined env).written b ec _ (hs.held a hmem) hs.valid rfl hfirst)
        rfl rfl (.of_eq rfl)
          (by rw [List.nil_append]; exact ht ▸ fun _ h => absurd h List.not_mem_nil) (sends_nil ht)

theorem backend_moves (ho : c.Ordered)
    (hs : c.Sound (AnyCommand.family env) AnyCommand.Sound AnyCommand.received) (ht : c.todo = [])
    (hord : ∀ a ∈ c.activeCmdQueue, ∀ k, a.cmd = .single k → k.Orderly) {A : Answers (AnyCommand ε)}
    {id b : ℕ} {e : BackendEvent} (he : Enabled (AnyCommand.family env) A c (.backend id b e))
    (hsucc : e.succeeds = true) :
    Move env c (c.next (AnyCommand.family env) (.backend id b e)) := by
  obtain ⟨-, a, k, hf, hk, hen, -⟩ := he
  have hmem := (find_some hf).1
  simp only [next, hf]
  exact run_moves (.of_eq rfl rfl) ho hs.toBase hmem
    (AnyCommand.onBackend_keeps (x := c.ctx a) hk hen hsucc (hord a hmem) rfl)
    ((AnyCommand.family_disciplined env).backend b e _ (hs.held a hmem) hs.valid rfl)
    rfl rfl (.of_eq rfl) (by rw [List.nil_append]; exact ht ▸ fun _ h => absurd h List.not_mem_nil)
      (sends_nil ht)

theorem doomed_carries {t : Task} {ts : List Task} (hd : c.Doomed) (ht : c.todo = t :: ts) :
    c.Carries (perform (AnyCommand.family env) { c with todo := ts } t) := by
  have hcrash : c.Carries (crash { c with todo := ts }) := .of_eq rfl rfl
  rcases hd with ⟨id, es, ts', hes, hf⟩ | ⟨hq, -, hl⟩
  · cases es with
    | nil => exact absurd hf Terminal.not_nil
    | cons e es =>
      rw [ht, List.map_cons, List.cons_append, List.cons.injEq] at hes
      obtain ⟨rfl, -⟩ := hes
      cases e with
      | writeReply data b =>
        simp only [perform]
        split
        · exact hcrash
        · exact .of_eq rfl rfl
      | rotate =>
        rcases hf.tail with hf | ⟨hf, -⟩
        · cases hf
        · exact absurd rfl hf
      | abort => exact carries_abort c
      | tryReadMoreQuery =>
        simp only [perform, tryReadMoreQuery]
        split <;> exact .of_eq rfl rfl
      | decRecycleLock => exact .of_eq rfl rfl
      | assertFailed => exact hcrash
      | crash => exact hcrash
  · have hlater := hl t (by rw [ht]; exact List.mem_cons_self ..)
    cases t with
    | rotated =>
      have hnone : back { c with todo := ts } = none := List.getLast?_eq_none_iff.mpr hq
      rw [perform, finishRotated, hnone]
      exact hcrash
    | effect id e =>
      cases e with
      | decRecycleLock => exact .of_eq rfl rfl
      | _ => cases hlater
    | _ => cases hlater

/-- The state that the requests are looked at from: a read brings its bytes first. -/
def seen {C : Type} (c : ClientConn C) : Event → ClientConn C
  | .readDone chunk => c.received chunk
  | _ => c

theorem doomed_next {A : Answers (AnyCommand ε)} {e : Event} (hd : c.Doomed)
    (he : Enabled (AnyCommand.family env) A c e) :
    c.Carries (c.next (AnyCommand.family env) e) ∧
      ((c.next (AnyCommand.family env) e).live → (c.next (AnyCommand.family env) e).Doomed) := by
  cases e with
  | step =>
    cases ht : c.todo with
    | nil => exact absurd ht he.2
    | cons t ts =>
      simp only [next, ht]
      exact ⟨doomed_carries hd ht, doomed_step hd ht⟩
  | timeout => exact absurd he.2 hd.todo_ne_nil
  | _ => exact absurd he.1.2 hd.todo_ne_nil

theorem next_moves {A : Answers (AnyCommand ε)} {e : Event} (ho : c.Ordered)
    (hs : c.Sound (AnyCommand.family env) AnyCommand.Sound AnyCommand.received)
    (hc : c.Covered AnyCommand.locks)
    (hord : ∀ a ∈ c.activeCmdQueue, ∀ k, a.cmd = .single k → k.Orderly) (hquiet : c.Asks → c.Rests)
    (he : Enabled (AnyCommand.family env) A c e)
    (hr : Readable (AnyCommand.family env) AnyCommand.Rest c e) (hsucc : c.Succeeds e) :
    Move env (c.seen e) (c.next (AnyCommand.family env) e) := by
  cases e with
  | step =>
    cases ht : c.todo with
    | nil => exact absurd ht he.2
    | cons t ts =>
      have hpush : push { c with todo := ts } t = c := by
        rw [push, ← ht]
      have hbase : Base (AnyCommand.family env) AnyCommand.Sound AnyCommand.received
          { c with todo := ts } :=
        ⟨hs.valid, hs.held, hs.earlier, hs.reads, hs.writes.of_eq rfl rfl rfl⟩
      have hstage := hs.stage
      rw [ht] at hstage
      have htask := hr t (by rw [ht]; rfl)
      have ho' : Ordered { c with todo := ts } := ho.of_eq rfl rfl rfl
      have hmove := task_moves env ho' hbase hstage (by cases t <;> exact htask)
        (hpush.symm ▸ hc) hord
      rw [hpush] at hmove
      simp only [next, ht]
      exact hmove
  | readDone chunk =>
    exact handleRead_moves ho hs he.1.2 he.2.2.2 hr (hquiet (.inl he.2.1))
  | readEof =>
    refine .keep (.of_eq rfl rfl) fun _ =>
      .inr (.of_kept (.refl hs.valid) rfl (.of_eq rfl) fun h => ?_)
    exact .inl (h.imp_left fun h => absurd h Bool.false_ne_true)
  | readFailed => exact .keep (carries_abort c) fun hlive => absurd hlive not_live_abort
  | writeDone => exact handleWrite_moves ho hs he.1.2 hord _
  | writeFailed => exact handleWrite_moves ho hs he.1.2 hord _
  | backend id b e => exact backend_moves ho hs he.1.2 hord he hsucc
  | timeout => exact .keep (carries_abort c) fun hlive => absurd hlive not_live_abort

end Moves
end ClientConn
end Yarmproxy
