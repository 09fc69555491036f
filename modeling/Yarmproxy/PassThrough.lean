import Yarmproxy.ClientPlaces

/-! # Requests pass through

A request for one backend reaches it as it came: byte for byte, nothing of its neighbours, and the
reply is not read before the request has been written. -/
namespace Yarmproxy

variable {ε : Type}

def AnyCommand.sent : AnyCommand ε → Option Bytes
  | .single k => some k.backend.sent
  | _ => none

/-- A connection, the bytes it has read so far, and the places of the requests in them. -/
structure Streamed (ε : Type) where
  conn : ClientConn (AnyCommand ε)
  stream : Bytes
  start : ℕ → ℕ

namespace Streamed

def arrived : ClientConn.Event → Bytes
  | .readDone chunk => chunk
  | _ => []

/-- The bytes `d` begin a request for one backend, or they begin with one. -/
def Single (d : Bytes) : Prop := ∃ r : SingleRequest, r.Fits ∧ Agrees r.bytes d

section System
variable [DecidableEq ε] [Inhabited ε] (env : AnyCommand.Env ε)

def next (s : Streamed ε) (e : ClientConn.Event) : Streamed ε :=
  let conn := s.conn.next (AnyCommand.family env) e
  let stream := s.stream ++ arrived e
  ⟨conn, stream, ClientConn.starts stream s.start (s.conn.seen e) conn⟩

def system (A : ClientConn.Answers (AnyCommand ε)) :
    Transition.System (Streamed ε) ClientConn.Event where
  Enabled s := ClientConn.Enabled (AnyCommand.family env) A s.conn
  next := next env

instance (A : ClientConn.Answers (AnyCommand ε)) [∀ c b bytes, Decidable (A c b bytes)]
    (s : Streamed ε) (e : ClientConn.Event) : Decidable ((system env A).Enabled s e) :=
  inferInstanceAs (Decidable (ClientConn.Enabled (AnyCommand.family env) A s.conn e))

def LegibleTask (s : Streamed ε) : Task → Prop
  | .processUnparsedQuery =>
    s.conn.activeCmdQueue.length < pipelineActiveLimit → 0 < s.conn.buffer.unparsedReceivedBytes →
      Single s.conn.buffer.queued ∨
        Understood s.conn.buffer.bufferSize s.conn.buffer.unprocessedData
        s.conn.buffer.receivedBytes
  | .unparsed back =>
    ∀ a, back.bind s.conn.find = some a → (AnyCommand.family env).queryParsingComplete a.cmd =
      false →
      Single (s.stream.drop (s.start a.id)) ∨ a.cmd.Rest s.conn.buffer.unparsed
  | _ => True

def Legible (s : Streamed ε) : ClientConn.Event → Prop
  | .step => ∀ t, s.conn.todo.head? = some t → LegibleTask env s t
  | .readDone chunk =>
    ∀ a, s.conn.back = some a → (AnyCommand.family env).queryRecvComplete a.cmd = false →
      Single ((s.stream ++ chunk).drop (s.start a.id)) ∨
        a.cmd.Rest ((s.conn.buffer.queued ++ chunk).drop s.conn.buffer.ahead)
  | _ => True

/-- No backend fails, and what the parsers look at is legible. -/
def Regular (s : Streamed ε) (e : ClientConn.Event) : Prop := s.conn.Succeeds e ∧ Legible env s e

end System

theorem seen_same (c : ClientConn (AnyCommand ε)) (e : ClientConn.Event) :
    (c.seen e).activeCmdQueue = c.activeCmdQueue ∧ (c.seen e).gone = c.gone ∧
      (c.seen e).count = c.count := by
  cases e <;> exact ⟨rfl, rfl, rfl⟩

def init (data : Bytes) : Streamed ε := ⟨ClientConn.init data, [], fun _ => 0⟩

section Invariant
variable [DecidableEq ε] [Inhabited ε] {env : AnyCommand.Env ε} {s : Streamed ε}
variable {e : ClientConn.Event}

structure Invariant (env : AnyCommand.Env ε) (s : Streamed ε) : Prop where
  inv : s.conn.Inv (AnyCommand.family env) AnyCommand.Sound AnyCommand.received
  covered : s.conn.live → s.conn.Doomed ∨ s.conn.Covered AnyCommand.locks
  passed : s.conn.Passed s.stream s.start
  adjoins : s.conn.Adjoins s.start
  follows : s.conn.live → s.conn.Doomed ∨ s.conn.Follows s.stream s.start
  intact : s.conn.live → s.conn.Doomed ∨
    ∀ a ∈ s.conn.activeCmdQueue, ∀ k, a.cmd = .single k → k.Intact s.conn.buffer

theorem init_invariant {data : Bytes} (hd : data.length ≤ 2 ^ 20) :
    Invariant env (init data : Streamed ε) := by
  obtain ⟨b, r, hk, he⟩ := ClientConn.tryReadMoreQuery_eq
    (c := (⟨.new data, [], false, none, false, false, 0, [], [], []⟩ : ClientConn (AnyCommand ε)))
    (ReadBuffer.new_valid hd)
  have hconn : (init data : Streamed ε).conn = ⟨b, [], r, none, false, false, 0, [], [], []⟩ := he
  have hqueued : b.queued = [] := by
    rw [hk.queued]
    simp [ReadBuffer.new, ReadBuffer.queued]
  refine ⟨ClientConn.init_inv data hd, fun _ => .inr ?_, ?_, ?_, fun _ => .inr ?_, fun _ => .inr ?_⟩
  · exact ClientConn.Covered.tryReadMoreQuery (Nat.zero_le _)
  · rw [hconn]
    exact fun a ha => absurd ha List.not_mem_nil
  · rw [hconn]
    exact ⟨fun h => absurd h (Nat.lt_irrefl 0), fun a ha => absurd ha List.not_mem_nil⟩
  · rw [hconn]
    refine ⟨?_, fun _ => ?_, fun a ha => absurd ha List.not_mem_nil, fun a k hb => ?_,
      fun a ha => absurd ha List.not_mem_nil, fun _ a k hb => ?_⟩
    · show b.queued <:+ []
      rw [hqueued]
    · rw [ClientConn.left_of_idle rfl]
      exact hqueued
    · cases hb
    · cases hb
  · rw [hconn]
    exact fun a ha => absurd ha List.not_mem_nil

theorem seen_follows (hf : s.conn.Follows s.stream s.start) (hv : s.conn.buffer.Valid)
    {A : ClientConn.Answers (AnyCommand ε)}
    (he : ClientConn.Enabled (AnyCommand.family env) A s.conn e) :
    (s.conn.seen e).buffer.Valid ∧ (s.conn.seen e).Follows (s.stream ++ arrived e) s.start := by
  cases e with
  | readDone chunk =>
    exact ⟨ReadBuffer.decRecycleLock_valid (ReadBuffer.receive_valid hv he.2.2.2),
      hf.received hv he.1.2 he.2.2.2⟩
  | _ => exact ⟨hv, (List.append_nil s.stream).symm ▸ hf⟩

theorem rest_of_single {c : ClientConn (AnyCommand ε)} {stream : Bytes} {start : ℕ → ℕ}
    {a : Active (AnyCommand ε)} (hf : c.Follows stream start) (hp : c.Passed stream start)
    (ho : c.Ordered) (hidle : c.sends = false) (hb : c.back = some a)
    (hinc : (AnyCommand.family env).queryRecvComplete a.cmd = false)
    (hs : Single (stream.drop (start a.id))) :
    a.cmd.Rest (c.buffer.queued.drop c.buffer.ahead) := by
  obtain ⟨r, hfits, hag⟩ := hs
  have hmem := List.mem_append_right c.gone (ClientConn.back_mem hb)
  have hhanded := hp a hmem
  cases hcmd : a.cmd with
  | single k =>
    intro hkind
    rw [hcmd] at hinc
    have hmarks := hf.marks a k hb hcmd hinc r hfits hag
    rw [hkind, ClientConn.beyond_of_idle hidle] at hmarks
    have hbulks := hmarks.startsBulks hfits hag
    rw [(hf.last a hmem k (ho.back_id hb) hcmd).2, ClientConn.left_of_idle hidle, ← List.drop_drop,
      List.drop_left] at hbulks
    exact hbulks
  | redisMset n k | redisDel n k =>
    rw [hcmd] at hhanded
    exact absurd hag (hhanded r hfits)
  | _ => exact trivial

theorem Invariant.readableTask (hi : Invariant env s)
    (hs : s.conn.Sound (AnyCommand.family env) AnyCommand.Sound AnyCommand.received)
    (hf : s.conn.Follows s.stream s.start) {t : Task} (ht : s.conn.todo.head? = some t)
    (hl : LegibleTask env s t) :
    ClientConn.ReadableTask (AnyCommand.family env) AnyCommand.Rest s.conn t := by
  obtain ⟨ts, hts⟩ := List.head?_eq_some_iff.mp ht
  have hstage := hs.stage
  rw [hts] at hstage
  cases t with
  | processUnparsedQuery =>
    intro hlimit hmore
    rcases hl hlimit hmore with ⟨r, hfits, hag⟩ | hunderstood
    · have hbounds := ReadBuffer.unprocessed_bounds hs.valid
      rw [ReadBuffer.receivedBytes_eq hs.valid]
      refine SingleRequest.understood hfits hbounds.1 hbounds.2 ?_
      rw [ReadBuffer.unprocessedData_bytes hs.valid le_rfl, List.take_length]
      exact hag
    · exact hunderstood
  | unparsed back =>
    intro a ha hinc
    obtain ⟨-, -, -, hback, rfl⟩ := hstage
    rcases hl a ha hinc with hsingle | hrest
    · rw [ClientConn.bind_find_back hi.inv.ordered hback] at ha
      have hidle : s.conn.sends = false := by rw [ClientConn.sends, hts]; rfl
      have hrecv : (AnyCommand.family env).queryRecvComplete a.cmd = false := by
        rw [(AnyCommand.family_disciplined env).complete a.cmd (hs.held a (ClientConn.back_mem ha)),
          hinc, Bool.and_false]
      exact rest_of_single hf hi.passed hi.inv.ordered hidle ha hrecv hsingle
    · exact hrest
  | _ => exact trivial

theorem Invariant.readable {A : ClientConn.Answers (AnyCommand ε)} (hi : Invariant env s)
    (he : ClientConn.Enabled (AnyCommand.family env) A s.conn e) (hl : Legible env s e) :
    ClientConn.Readable (AnyCommand.family env) AnyCommand.Rest s.conn e := by
  by_cases hd : s.conn.Doomed
  · exact hd.readable he
  have hlive := ClientConn.Enabled.live he
  have hs := (hi.inv.sound hlive).resolve_left hd
  have hf := (hi.follows hlive).resolve_left hd
  cases e with
  | step => exact fun t ht => hi.readableTask hs hf ht (hl t ht)
  | readDone chunk =>
    intro a hb hinc
    rcases hl a hb hinc with hsingle | hrest
    · have hv' := ReadBuffer.receive_valid hs.valid he.2.2.2
      have hf' := hf.received hs.valid he.1.2 he.2.2.2
      have hrest := rest_of_single hf' (hi.passed.mono chunk) (hi.inv.ordered.of_eq rfl rfl rfl)
        (ClientConn.sends_nil he.1.2) hb hinc hsingle
      rw [ClientConn.received, ReadBuffer.queued_decRecycleLock hv',
        ReadBuffer.queued_receive hs.valid he.2.2.2, ReadBuffer.ahead_decRecycleLock hv',
        ReadBuffer.ahead_receive] at hrest
      exact hrest
    · exact hrest
  | _ => exact trivial

theorem Invariant.next {A : ClientConn.Answers (AnyCommand ε)} (hi : Invariant env s)
    (he : ClientConn.Enabled (AnyCommand.family env) A s.conn e) (hr : Regular env s e) :
    Invariant env (s.next env e) := by
  obtain ⟨hsucc, hlegible⟩ := hr
  have hread := hi.readable he hlegible
  have hinv := hi.inv.next (AnyCommand.family_disciplined env) he hread
  have haccounts :=
    ClientConn.accounts_next (AnyCommand.family_lends env) hi.inv hi.covered he hsucc
  obtain ⟨hqueue, hgone, hcount⟩ := seen_same s.conn e
  have hpassed : (s.conn.seen e).Passed (s.stream ++ arrived e) s.start := by
    intro a ha
    rw [ClientConn.roster, hqueue, hgone] at ha
    exact hi.passed.mono _ a ha
  have hadjoins : (s.conn.seen e).Adjoins s.start := by
    refine ⟨hcount ▸ hi.adjoins.first, ?_⟩
    rw [ClientConn.roster, hqueue, hgone]
    exact hi.adjoins.next
  by_cases hd : s.conn.Doomed
  · obtain ⟨hcarries, hdoomed⟩ := ClientConn.doomed_next hd he
    have hsame : ClientConn.starts (s.stream ++ arrived e) s.start (s.conn.seen e)
        (s.conn.next (AnyCommand.family env) e) = s.start :=
      ClientConn.starts_same ((hcarries.count_eq hi.inv.ordered hinv.ordered).trans hcount.symm)
    refine ⟨hinv, fun hlive => .inl (hdoomed hlive), ?_, ?_, fun hlive => .inl (hdoomed hlive),
      fun hlive => .inl (hdoomed hlive)⟩
    · simp only [Streamed.next, hsame]
      exact hcarries.passed (hi.passed.mono _)
    · simp only [Streamed.next, hsame]
      exact hcarries.adjoins (hcarries.count_eq hi.inv.ordered hinv.ordered) hi.adjoins
  · have hlive := ClientConn.Enabled.live he
    have hsound := (hi.inv.sound hlive).resolve_left hd
    have hcov := (hi.covered hlive).resolve_left hd
    have hfollows := (hi.follows hlive).resolve_left hd
    have hintact := (hi.intact hlive).resolve_left hd
    obtain ⟨hv, hf⟩ := seen_follows hfollows hsound.valid he
    have horder : ∀ a ∈ s.conn.activeCmdQueue, ∀ k, a.cmd = .single k → k.Orderly := by
      intro a ha k hk
      have hold := hi.passed a (List.mem_append_right _ ha)
      rw [hk] at hold
      exact hold.orderly
    have hmove :=
      ClientConn.next_moves hi.inv.ordered hsound hcov horder hfollows.quiet he hread hsucc
    have hadv := hmove.advances (hi.inv.ordered.of_eq hgone hqueue hcount) hinv.ordered hv
      (by rw [hqueue]; exact hsound.held) hpassed hadjoins hf
    refine ⟨hinv, fun hl => (haccounts hl).imp_right fun h => h.covered, hadv.passed, hadv.adjoins,
      hadv.follows, fun hl => (haccounts hl).imp_right fun h => ?_⟩
    have hflies : s.conn.Flies (s.conn.next (AnyCommand.family env) e) := by
      have := hadv.flies
      rw [ClientConn.Flies, hqueue] at this
      exact this
    exact hflies.intact hintact hcov h

theorem reachable_invariant {A : ClientConn.Answers (AnyCommand ε)} {data : Bytes}
    (hd : data.length ≤ 2 ^ 20)
    (hrun : Transition.Execution (system env A) (Regular env) (init data) s) : Invariant env s :=
  hrun.invariant (init_invariant hd) fun _ _ hi he hr => hi.next he hr

end Invariant

/-- The requests of `F` pass through. Such a request is answered by the proxy itself, or what its
backend has been handed is a part of it, all of it once the reply is being read. The request of the
next command begins where it ends, and between two handlers the bytes being written lie in the
buffer as they have been read. -/
structure PassesThrough (F : SingleRequest → Prop) (s : Streamed ε) : Prop where
  own : ∀ a ∈ s.conn.roster, ∀ r, F r → Agrees r.bytes (s.stream.drop (s.start a.id)) →
    (∃ l, a.cmd = .local_ l) ∨ ∃ k, a.cmd = .single k ∧ k.handed <+: r.bytes ∧
      (k.backend.isReadingReply = true ∨ k.backend.received ≠ [] → k.backend.sent = r.bytes)
  first : 0 < s.conn.count → s.start 0 = 0
  behind : ∀ a ∈ s.conn.roster, ∀ b ∈ s.conn.roster, ∀ k, a.cmd = .single k → b.id = a.id + 1 →
    ∀ r, F r → Agrees r.bytes (s.stream.drop (s.start a.id)) →
      s.start b.id = s.start a.id + r.bytes.length
  intact : s.conn.Quiescent → ∀ a ∈ s.conn.activeCmdQueue, ∀ k, a.cmd = .single k →
    k.Intact s.conn.buffer

section Runs
variable [DecidableEq ε] [Inhabited ε] {env : AnyCommand.Env ε} {s : Streamed ε}

theorem Invariant.own (hi : Invariant env s) {a : Active (AnyCommand ε)} (ha : a ∈ s.conn.roster)
    {r : SingleRequest} (hf : r.Fits) (hag : Agrees r.bytes (s.stream.drop (s.start a.id))) :
    (∃ l, a.cmd = .local_ l) ∨ ∃ k, a.cmd = .single k ∧ k.handed <+: r.bytes ∧
      (k.backend.isReadingReply = true ∨ k.backend.received ≠ [] → k.backend.sent = r.bytes) := by
  have hhanded := hi.passed a ha
  cases hcmd : a.cmd with
  | single k =>
    rw [hcmd] at hhanded
    exact .inr ⟨k, rfl, hhanded.within r hf hag, hhanded.sent hf hag⟩
  | local_ l => exact .inl ⟨l, rfl⟩
  | _ =>
    rw [hcmd] at hhanded
    exact absurd hag (hhanded r hf)

theorem requests_pass {A : ClientConn.Answers (AnyCommand ε)} {data : Bytes}
    (hd : data.length ≤ 2 ^ 20)
    (hrun : Transition.Execution (system env A) (Regular env) (init data) s) :
    s.PassesThrough SingleRequest.Fits := by
  have hi := reachable_invariant hd hrun
  refine ⟨fun a ha r => hi.own ha, hi.adjoins.first, fun a ha b hb k hk hid r hf hag => ?_,
    fun hq => ?_⟩
  · obtain ⟨hcomplete, hstart⟩ := hi.adjoins.next a ha b hb k hk hid
    have hhanded := hi.passed a ha
    rw [hk] at hhanded
    rw [hstart, hhanded.whole hcomplete r hf hag]
  · exact (hi.intact hq.1).resolve_left fun hdoomed => hdoomed.todo_ne_nil hq.2

/-- The request `r` is the only one being read. -/
def Reads (r : SingleRequest) (s : Streamed ε) (e : ClientConn.Event) : Prop :=
  s.conn.Succeeds e ∧
    (s.conn.buffer.unparsedReceivedBytes = 0 ∨ Agrees r.bytes s.conn.buffer.queued) ∧
    ∀ a ∈ s.conn.activeCmdQueue, Agrees r.bytes ((s.stream ++ arrived e).drop (s.start a.id))

instance (r : SingleRequest) (s : Streamed ε) (e : ClientConn.Event) : Decidable (Reads r s e) :=
  inferInstanceAs (Decidable (_ ∧ _ ∧ _))

variable (env) in
theorem Reads.regular {r : SingleRequest} (hf : r.Fits) {e : ClientConn.Event} (h : Reads r s e) :
    Regular env s e := by
  obtain ⟨hsucc, hnext, hactive⟩ := h
  refine ⟨hsucc, ?_⟩
  cases e with
  | step =>
    intro t _
    cases t with
    | processUnparsedQuery =>
      intro _ hmore
      exact .inl ⟨r, hf, hnext.resolve_left (Nat.ne_of_gt hmore)⟩
    | unparsed back =>
      intro a ha _
      obtain ⟨id, -, hfind⟩ := Option.bind_eq_some_iff.mp ha
      have hag := hactive a (List.mem_of_find?_eq_some hfind)
      rw [show arrived .step = [] from rfl, List.append_nil] at hag
      exact .inl ⟨r, hf, hag⟩
    | _ => exact trivial
  | readDone chunk => exact fun a ha _ => .inl ⟨r, hf, hactive a (ClientConn.back_mem ha)⟩
  | _ => exact trivial

end Runs

def oneBackend :
    AnyCommand.Env ℕ := ⟨fun _ _ => 0, fun _ _ => (List.replicate 64 0, false), fun _ _ => []⟩

def after (events : List ClientConn.Event) : Streamed ℕ :=
  Transition.runTrace (system oneBackend fun _ _ _ => True) (init (List.replicate 64 0)) events

def setHello : SingleRequest :=
  .memcSet (ascii "set") [ascii "k", ascii "0", ascii "0", ascii "5"] (ascii "hello") (by decide)
    (by decide) ⟨ascii "5", rfl, by decide⟩ (by decide)

/-- The request comes in two parts, and the second one is handed on when the first one has been
written. -/
def twoReads : List ClientConn.Event :=
  .readDone (ascii "set k 0 0 5\r\nhel") :: List.replicate 5 .step ++
    [.backend 0 0 .connected, .backend 0 0 .queryWritten, .step, .readDone (ascii "lo\r\n")] ++
    List.replicate 5 .step ++ [.backend 0 0 .queryWritten]

theorem twoReads_pass :
    (List.replicate 64 0 : Bytes).length ≤ 2 ^ 20 ∧
    Transition.Execution (system oneBackend fun _ _ _ => True) (Regular oneBackend)
      (init (List.replicate 64 0)) (after twoReads) ∧
    (after twoReads).stream = setHello.bytes ∧
    (after twoReads).conn.roster.map (fun a => a.cmd.sent) = [some setHello.bytes] ∧
    (after twoReads).PassesThrough SingleRequest.Fits := by
  have hfits : setHello.Fits := ⟨ascii "5", rfl, .inl (by decide)⟩
  have htrace : Transition.ValidTrace (system oneBackend fun _ _ _ => True) (Reads setHello)
      (init (List.replicate 64 0)) twoReads := by decide +kernel
  have hrun := (Transition.ValidTrace.execution .refl htrace).mono fun _ _ h =>
    h.regular oneBackend hfits
  exact ⟨by decide, hrun, by decide +kernel, by decide +kernel, requests_pass (by decide) hrun⟩

def casLine : SingleRequest :=
  .memcSet (ascii "cas") [ascii "k", ascii "0", ascii "0", ascii "1", ascii "9"] (ascii "x")
    (by decide)
    (by decide) ⟨ascii "1", rfl, by decide⟩ (by decide)

def casAndDelete : List ClientConn.Event :=
  .readDone (casLine.bytes ++ ascii "delete k\r\n") :: List.replicate 8 .step ++
    [.backend 0 0 .connected, .backend 0 0 .queryWritten]

/-- A part of the request behind a `cas` is written to its backend. -/
theorem casLine_takes_neighbour :
    Transition.Execution (system oneBackend fun _ _ _ => True) (fun s => s.conn.Succeeds)
      (init (List.replicate 64 0)) (after casAndDelete) ∧
    (after casAndDelete).conn.roster.map (fun a => a.cmd.sent) =
      [some (casLine.bytes ++ ascii "delete k"), none] ∧
    ¬ (after casAndDelete).PassesThrough fun _ => True := by
  refine ⟨Transition.ValidTrace.execution .refl (by decide +kernel), by decide +kernel, fun h => ?_⟩
  have hsent : ∃ a ∈ (after casAndDelete).conn.roster,
      a.cmd.sent = some (casLine.bytes ++ ascii "delete k") ∧
        Agrees casLine.bytes
          ((after casAndDelete).stream.drop ((after casAndDelete).start a.id)) := by
    decide +kernel
  obtain ⟨a, ha, hsent, hag⟩ := hsent
  rcases h.own a ha casLine trivial hag with ⟨l, hl⟩ | ⟨k, hk, hwithin, -⟩
  · rw [hl] at hsent
    cases hsent
  · rw [hk] at hsent
    have hle : k.backend.sent <+: casLine.bytes := (List.prefix_append ..).trans hwithin
    rw [Option.some.inj hsent] at hle
    exact absurd hle (by decide)

end Streamed
end Yarmproxy
