import Yarmproxy.ClientConn
import Yarmproxy.Requests

/-! # What the connection and its commands owe each other

`Disciplined` is the contract of a family of commands: what a handler may do to the client
buffer, what it may ask of the connection, and how it keeps track of the request. The connection
is followed through its tasks on a `View` of it: the marks of the active commands and the queue
view of the buffer. -/
namespace Yarmproxy

variable {ε C : Type}

/-- Only the lock count and the place of the bytes may differ. -/
structure ReadBuffer.Kept (b b' : ReadBuffer) : Prop where
  valid : b'.Valid
  queued : b'.queued = b.queued
  ahead : b'.ahead = b.ahead
  bufferSize : b'.bufferSize = b.bufferSize

def ReadBuffer.unparsed (b : ReadBuffer) : Bytes := b.queued.drop b.ahead

namespace ReadBuffer.Kept
variable {b b' : ReadBuffer}

theorem refl (h : b.Valid) : b.Kept b := ⟨h, rfl, rfl, rfl⟩

theorem of_eq (h : b.Valid) (hb : b' = b) : b.Kept b' := hb ▸ refl (hb ▸ h)

theorem incRecycleLock (h : b.Kept b') : b.Kept b'.incRecycleLock :=
  ⟨incRecycleLock_valid h.valid, h.queued, h.ahead, h.bufferSize⟩

theorem decRecycleLock (h : b.Kept b') : b.Kept b'.decRecycleLock :=
  ⟨decRecycleLock_valid h.valid, (queued_decRecycleLock h.valid).trans h.queued,
    (ahead_decRecycleLock h.valid).trans h.ahead, bufferSize_decRecycleLock.trans h.bufferSize⟩

end ReadBuffer.Kept

namespace Effect

/-- What a handler may ask for and go on: only the first command writes, and more is read only
for an incomplete request. -/
def plain (first complete : Bool) : Effect → Bool
  | .writeReply _ _ => first
  | .tryReadMoreQuery => !complete
  | .decRecycleLock => true
  | _ => false

def fatal : Effect → Bool
  | .abort | .assertFailed | .crash => true
  | _ => false

end Effect

def Terminal (es : List Effect) : Prop :=
  ∃ pre e post, es = pre ++ e :: post ∧ .rotate ∉ pre ∧ e.fatal = true

namespace Terminal
variable {es es' : List Effect} {e : Effect}

theorem not_nil : ¬ Terminal [] := by
  rintro ⟨pre, e, post, he, _⟩
  cases pre <;> cases he

theorem single (he : e.fatal = true) : Terminal [e] := ⟨[], e, [], rfl, nofun, he⟩

theorem append_right (h : Terminal es) (es' : List Effect) : Terminal (es ++ es') := by
  obtain ⟨pre, e, post, rfl, hr, he⟩ := h
  exact ⟨pre, e, post ++ es', by simp, hr, he⟩

theorem tail (h : Terminal (e :: es)) : e.fatal = true ∨ e ≠ .rotate ∧ Terminal es := by
  obtain ⟨pre, e', post, hes, hr, he⟩ := h
  cases pre with
  | nil =>
    obtain ⟨rfl, -⟩ := List.cons.inj hes
    exact .inl he
  | cons e₀ pre =>
    obtain ⟨rfl, rfl⟩ := List.cons.inj hes
    exact .inr ⟨fun h => hr (h ▸ List.mem_cons_self ..),
      pre, e', post, rfl, fun h => hr (List.mem_cons_of_mem _ h), he⟩

end Terminal

/-- The effects of a handler on the reply side. Only the first command is rotated out, once and
with a complete request. -/
inductive Emits (first complete : Bool) : List Effect → Prop where
  | plain {es} : (∀ e ∈ es, e.plain first complete = true) → Emits first complete es
  | rotating {post} : first = true → complete = true → (∀ e ∈ post, e = .decRecycleLock) →
      Emits first complete (.rotate :: post)

theorem Emits.incomplete {first complete : Bool} {es : List Effect} (h : Emits first complete es)
    (he : .tryReadMoreQuery ∈ es) : complete = false := by
  cases h with
  | plain hes => simpa [Effect.plain] using hes _ he
  | rotating _ _ hpost =>
    rcases List.mem_cons.mp he with he | he
    · cases he
    · cases hpost _ he

section Contract
variable (h : Handlers ε C) (I : C → Prop) (recv : C → Bool)

structure Minor (x y : Ctx C) : Prop where
  kept : x.buffer.Kept y.buffer
  inv : I y.cmd
  parsed : h.queryParsingComplete y.cmd = h.queryParsingComplete x.cmd
  received : recv y.cmd = recv x.cmd
  emits : Emits x.first (h.queryRecvComplete x.cmd) y.effects

/-- A handler that sends what has been parsed and received. -/
structure Sends (x y : Ctx C) : Prop where
  kept : x.buffer.Kept y.buffer
  inv : I y.cmd
  parsed : h.queryParsingComplete y.cmd = h.queryParsingComplete x.cmd
  complete : h.queryParsingComplete x.cmd = true → x.buffer.parsedUnreceivedBytes = 0 →
    recv y.cmd = true
  received : recv y.cmd = true →
    recv x.cmd = true ∨ x.buffer.parsedUnreceivedBytes = 0
  plain : ∀ e ∈ y.effects, e.plain x.first true = true

/-- `ParseUnparsedPart` on more bytes of the request. -/
structure Parses (x y : Ctx C) : Prop where
  valid : y.buffer.Valid
  queued : y.buffer.queued = x.buffer.queued
  bufferSize : y.buffer.bufferSize = x.buffer.bufferSize
  inv : I y.cmd
  received : recv y.cmd = recv x.cmd
  ahead : x.buffer.ahead ≤ y.buffer.ahead
  ahead_eq : recv x.cmd = true → y.buffer.ahead = x.buffer.ahead
  parsed : h.queryParsingComplete y.cmd = true →
    h.queryParsingComplete x.cmd = true ∨ x.buffer.ahead < y.buffer.ahead
  effects : y.effects = []

/-- `ProcessUnparsedPart` on the next bulks of the request. -/
structure Processes (y : Ctx C) : Prop where
  valid : y.buffer.Valid
  inv : I y.cmd
  received : recv y.cmd = true → y.buffer.ahead = 0
  pending : h.queryParsingComplete y.cmd = true → recv y.cmd = false →
    0 < y.buffer.ahead ∧ y.buffer.queued.length ≤ y.buffer.ahead
  effects : y.effects = [] ∨ y.effects = [.tryReadMoreQuery] ∧ h.queryRecvComplete y.cmd = false

/-- The contract. `F` holds of a command that has not been started, and `I` from then on; `recv`
says that all that has been parsed of the request has been received, and `R` what the rest of the
request looks like. -/
structure Disciplined (F : C → Prop) (R : C → Bytes → Prop) : Prop where
  complete : ∀ c, I c →
    h.queryRecvComplete c = (recv c && h.queryParsingComplete c)
  start : ∀ x, F x.cmd → x.buffer.Valid → x.effects = [] →
    Terminal (h.startWriteQuery x).1.effects ∨ Sends h I recv x (h.startWriteQuery x).1
  continue_ : ∀ x, I x.cmd → x.buffer.Valid → x.effects = [] → recv x.cmd = false →
    Terminal (h.continueWriteQuery x).1.effects ∨ Sends h I recv x (h.continueWriteQuery x).1
  parse : ∀ x, I x.cmd → x.buffer.Valid → x.effects = [] → h.queryRecvComplete x.cmd = false →
    R x.cmd x.buffer.unparsed →
    Terminal (h.parseUnparsedPart x).1.effects ∨
      (h.parseUnparsedPart x).2 = false ∧ (h.parseUnparsedPart x).1.effects = [] ∨
      (h.parseUnparsedPart x).2 = true ∧ Parses h I recv x (h.parseUnparsedPart x).1
  process : ∀ x, I x.cmd → x.buffer.Valid → x.effects = [] →
    h.queryParsingComplete x.cmd = false → x.buffer.ahead = 0 → R x.cmd x.buffer.unparsed →
    Terminal (h.processUnparsedPart x).1.effects ∨
      (h.processUnparsedPart x).2 = false ∧ (h.processUnparsedPart x).1.effects = [] ∨
      (h.processUnparsedPart x).2 = true ∧ Processes h I recv (h.processUnparsedPart x).1
  becomeFirst : ∀ x, I x.cmd → x.buffer.Valid → x.effects = [] → x.first = true →
    Terminal (h.startWriteReply x).effects ∨ Minor h I recv x (h.startWriteReply x)
  written : ∀ b ec x, I x.cmd → x.buffer.Valid → x.effects = [] → x.first = true →
    Terminal (h.onWriteReplyFinished b ec x).effects ∨
      Minor h I recv x (h.onWriteReplyFinished b ec x)
  backend : ∀ b e x, I x.cmd → x.buffer.Valid → x.effects = [] →
    Terminal (h.onBackend b e x).effects ∨ Minor h I recv x (h.onBackend b e x)

end Contract

structure Family.Disciplined (h : Family ε C) (I : C → Prop) (recv : C → Bool) (F : C → Prop)
    (R : C → Bytes → Prop) : Prop extends Yarmproxy.Disciplined h.toHandlers I recv F R where
  construct : ∀ k b created b' cmd, b.Valid → h.construct k b created = some (b', cmd) →
    b.Kept b' ∧ F cmd ∧ (recv cmd = true → created.whole = true)

/-- What the connection has to know of an active command. -/
structure Mark where
  id : ℕ
  received : Bool
  parsed : Bool

def Mark.complete (m : Mark) : Bool := m.received && m.parsed

structure View where
  marks : List Mark
  queued : Bytes
  ahead : ℕ
  size : ℕ
  reading : Bool

namespace View

def back (v : View) : Option Mark := v.marks.getLast?

def front (v : View) : Option Mark := v.marks.head?

def Complete (v : View) : Prop := ∀ m, v.back = some m → m.complete = true

/-- Bytes are parsed ahead exactly as long as the last command waits for them. -/
structure Aligned (v : View) : Prop where
  received : ∀ m, v.back = some m → m.received = true → v.ahead = 0
  empty : v.back = none → v.ahead = 0
  pending : ∀ m, v.back = some m → m.parsed = true → m.received = false → 0 < v.ahead

def Settled (v : View) : Prop :=
  v.marks.length < pipelineActiveLimit → v.Complete → Waits v.size v.queued

/-- Behind the handler that sends: the bytes sent are not yet taken off. -/
structure Sending (v : View) (id : ℕ) (m : Mark) : Prop where
  back : v.back = some m
  id_eq : m.id = id
  received : m.received = true → v.ahead ≤ v.queued.length
  complete : m.parsed = true → v.ahead ≤ v.queued.length → m.received = true

def processed (v : View) : View :=
  { v with
    queued := v.queued.drop (min v.queued.length v.ahead)
    ahead := v.ahead - min v.queued.length v.ahead }

section
variable {v : View} {id : ℕ} {m : Mark}

theorem not_complete (hb : v.back = some m) (hm : m.complete = false) : ¬ v.Complete := by
  intro hc
  rw [hc m hb] at hm
  cases hm

theorem Settled.of_incomplete (hb : v.back = some m) (hm : m.complete = false) : v.Settled :=
  fun _ hc => absurd hc (not_complete hb hm)

theorem marks_ne_nil (hb : v.back = some m) : v.marks ≠ [] := by
  intro hn
  rw [back, hn] at hb
  cases hb

theorem Aligned.ahead_eq (ha : v.Aligned) (hc : v.Complete) : v.ahead = 0 := by
  cases hb : v.back with
  | none => exact ha.empty hb
  | some m => exact ha.received m hb (Bool.and_eq_true_iff.mp (hc m hb)).1

theorem complete_of_mem (he : ∀ m ∈ v.marks.dropLast, m.complete = true) (hc : v.Complete) :
    ∀ m ∈ v.marks, m.complete = true := by
  intro m hm
  have hne := List.ne_nil_of_mem hm
  rw [← List.dropLast_append_getLast hne, List.mem_append, List.mem_singleton] at hm
  rcases hm with hm | hm
  · exact he m hm
  · exact hc m (hm ▸ List.getLast?_eq_some_getLast hne)

theorem Sending.aligned (hs : v.Sending id m) : v.processed.Aligned := by
  refine ⟨fun m' hb hr => ?_, fun hn => ?_, fun m' hb hp hr => ?_⟩
  · obtain rfl := Option.some.inj (hs.back.symm.trans hb)
    have := hs.received hr
    simp only [processed]
    omega
  · exact absurd (hs.back.symm.trans hn) nofun
  · obtain rfl := Option.some.inj (hs.back.symm.trans hb)
    have : ¬ v.ahead ≤ v.queued.length := fun hle => by
      rw [hs.complete hp hle] at hr
      cases hr
    simp only [processed]
    omega

theorem missing_processed : v.processed.ahead - v.processed.queued.length =
    v.ahead - v.queued.length := by
  simp only [processed, List.length_drop]
  omega

end
end View

def Task.later : Task → Bool
  | .rotated | .effect _ .decRecycleLock => true
  | _ => false

def View.Idle (v : View) (ts : List Task) : Prop :=
  v.Aligned ∧ (v.Settled ∨ .rotated ∈ ts) ∧ ∀ t ∈ ts, t.later = true

def Stage : List Task → View → Prop
  | [], v => v.Aligned ∧ v.Settled
  | .effect id e :: ts, v =>
    match e with
    | .writeReply _ _ => (∃ m, v.front = some m ∧ m.id = id) ∧ Stage ts v
    | .decRecycleLock => Stage ts v
    | .tryReadMoreQuery =>
      (∃ m ∈ v.marks, m.id = id ∧ m.complete = false) ∧ ∀ r, Stage ts { v with reading := r }
    | .rotate => (∃ m, v.front = some m ∧ m.id = id ∧ m.complete = true) ∧ v.Idle ts
    | .abort | .assertFailed | .crash => False
  | .rotated :: ts, v => v.marks ≠ [] ∧ v.Aligned ∧ ∀ t ∈ ts, t.later = true
  | .processUnparsedQuery :: ts, v =>
    v.Aligned ∧ (v.Complete ∨ v.queued.length ≤ v.ahead) ∧ (v.marks = [] → .rotated ∉ ts) ∧
      ∀ t ∈ ts, t.later = true
  | .started id _ :: ts, v =>
    v.reading = false ∧ (∃ m, v.Sending id m) ∧ ∀ t ∈ ts, t.later = true
  | .parsed back :: ts, v =>
    v.reading = false ∧ v.Aligned ∧ back = v.back.map Mark.id ∧ ts = []
  | .continued back _ :: ts, v =>
    v.reading = false ∧ (∃ id m, back = some id ∧ v.Sending id m) ∧ ts = []
  | .unparsed back :: ts, v =>
    v.reading = false ∧ v.Aligned ∧ v.ahead = 0 ∧ back = v.back.map Mark.id ∧ ts = []
  | .handled back :: ts, v =>
    v.Aligned ∧ back = v.back.map Mark.id ∧
      (∀ m, v.back = some m → m.parsed = true → m.complete = true ∨ v.queued.length ≤ v.ahead) ∧
      ts = []


variable {v : View} {ts : List Task} {id : ℕ}

theorem Stage.of_idle (hi : v.Idle ts) (hne : .rotated ∈ ts → v.marks ≠ []) : Stage ts v := by
  induction ts with
  | nil =>
    obtain ⟨ha, hs | hs, _⟩ := hi
    · exact ⟨ha, hs⟩
    · cases hs
  | cons t ts ih =>
    obtain ⟨ha, hs, hl⟩ := hi
    have hlater : ∀ t ∈ ts, t.later = true := fun t ht => hl t (List.mem_cons_of_mem _ ht)
    cases t with
    | rotated => exact ⟨hne (List.mem_cons_self ..), ha, hlater⟩
    | effect id e =>
      have hrest : Stage ts v := by
        refine ih ⟨ha, ?_, hlater⟩ fun hm => hne (List.mem_cons_of_mem _ hm)
        simpa using hs
      have hq := hl _ (List.mem_cons_self ..)
      cases e with
      | decRecycleLock => exact hrest
      | _ => cases hq
    | _ => cases hl _ (List.mem_cons_self ..)

theorem Stage.of_plain {es : List Effect} {first k : Bool} (hes : ∀ e ∈ es, e.plain first k = true)
    (hf : first = true → ∃ m, v.front = some m ∧ m.id = id)
    (hk : k = false → ∃ m ∈ v.marks, m.id = id ∧ m.complete = false)
    (hs : ∀ r, Stage ts { v with reading := r }) : Stage (es.map (.effect id) ++ ts) v := by
  induction es generalizing v with
  | nil => exact hs v.reading
  | cons e es ih =>
    have hrest :=
      fun v hf hk hs => ih (v := v) (fun e he => hes e (List.mem_cons_of_mem _ he)) hf hk hs
    have he := hes e (List.mem_cons_self ..)
    cases e with
    | writeReply data b => exact ⟨hf he, hrest v hf hk hs⟩
    | decRecycleLock => exact hrest v hf hk hs
    | tryReadMoreQuery =>
      have hk' : k = false := by simpa [Effect.plain] using he
      exact ⟨hk hk', fun r => hrest { v with reading := r } hf hk hs⟩
    | _ => cases he

theorem Stage.of_sending {es : List Effect} {first : Bool}
    (hes : ∀ e ∈ es, e.plain first true = true)
    (hf : first = true → ∃ m, v.front = some m ∧ m.id = id) (hs : Stage ts v) :
    Stage (es.map (.effect id) ++ ts) v := by
  induction es with
  | nil => exact hs
  | cons e es ih =>
    have hrest := ih fun e he => hes e (List.mem_cons_of_mem _ he)
    have he := hes e (List.mem_cons_self ..)
    cases e with
    | writeReply data b => exact ⟨hf he, hrest⟩
    | decRecycleLock => exact hrest
    | _ => cases he

theorem Stage.of_emits {first k : Bool} {es : List Effect} (he : Emits first k es) {m : Mark}
    (hm : m ∈ v.marks) (hid : m.id = id) (hk : m.complete = k)
    (hf : first = true → v.front = some m) (hi : v.Idle ts) :
    Stage (es.map (.effect id) ++ ts) v := by
  cases he with
  | plain hes =>
    refine .of_plain hes (fun h => ⟨m, hf h, hid⟩) (fun h => ⟨m, hm, hid, hk.trans h⟩) fun r => ?_
    exact .of_idle ⟨⟨hi.1.received, hi.1.empty, hi.1.pending⟩, hi.2⟩ fun _ => List.ne_nil_of_mem hm
  | rotating hfirst hc hpost =>
    refine ⟨⟨m, hf hfirst, hid, hk.trans hc⟩, hi.1, ?_, ?_⟩
    · exact hi.2.1.imp_right fun hr => List.mem_append_right _ hr
    · intro t ht
      rcases List.mem_append.mp ht with ht | ht
      · obtain ⟨e, he, rfl⟩ := List.mem_map.mp ht
        rw [hpost e he]
        rfl
      · exact hi.2.2 t ht

end Yarmproxy
