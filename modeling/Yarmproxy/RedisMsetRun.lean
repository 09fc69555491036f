import Yarmproxy.RedisMsetReply

/-! # Runs of a Redis `MSET`

Every handler keeps the state of `RedisMsetReply`, so a run writes one line at most: that of
the subquery that was left last. -/
namespace Yarmproxy
namespace RedisMsetCommand

variable {ε : Type} [DecidableEq ε] {locate : Bytes → ε} {pool : Pool} {strict : Prop}
  {outcome : ℕ → SubqueryOutcome} {out : Bytes} {writing : Option (Option ℕ)} {first : Bool}
  {x : Ctx (RedisMsetCommand ε)} {b : ℕ}

theorem setBackend_backend (c : RedisMsetCommand ε) (k : BackendConn ε)
    (h : (handlers locate pool).backend c b = some k) :
    (handlers locate pool).setBackend c b k = c := by
  simp only [handlers] at h ⊢
  split at h
  next =>
    cases h
    exact setBackend_self c b
  next => cases h

/-- The events that end the command and its client connection. -/
def Fatal : BackendEvent → Prop
  | .queryWriteFailed | .queryRefused | .replyReadFailed | .connectTimeout | .writeTimeout
  | .readTimeout => True
  | .connected | .connectFailed | .queryWritten | .replyRead _ => False

theorem fatal_acted {e : BackendEvent} (hf : Fatal e) (hb : b ∈ x.cmd.pendingSubqueries)
    (he : x.effects = []) :
    Acted locate pool strict outcome out writing first
      ((handlers locate pool).onBackend b e x) := by
  have hk : (handlers locate pool).backend x.cmd b = some (x.cmd.backend b) := if_pos hb
  refine .stopped (e := .abort) ?_ (Or.inl rfl)
  rw [Ctx.visible, Handlers.effects_onBackend hk]
  cases e with
  | connected | connectFailed | queryWritten | replyRead _ => exact hf.elim
  | _ => exact Ctx.visible_emit_of_nil he rfl

theorem connected_acted {at_ : Option ℕ} {data : Bytes}
    (h : Collecting strict outcome x.first x.cmd)
    (hb : b ∈ x.cmd.pendingSubqueries) (hq : (x.cmd.backend b).query = some (.connecting at_ data))
    (he : x.effects = []) : Acted locate pool strict outcome [] none x.first
      { x with cmd := x.cmd.setBackend b ((x.cmd.backend b).handle .connected).1 } := by
  obtain ⟨_, hs⟩ := h.gathering.pending b hb
  have hf : Fresh (x.cmd.subquery b) :=
    hs.fresh (by rw [show (x.cmd.subquery b).backend.query = _ from hq]; simp)
  simp only [BackendConn.handle, hq]
  refine .quiet (by simp [Ctx.visible, he]) (.collecting rfl rfl
    (h.setSubquery (h.replyingBackend hb hf.not_done) (fun _ => ⟨hs.room, .fresh ?_⟩) id))
  exact ⟨hf.phase, hf.relay, hf.received, hf.reading, hf.incomplete, hf.noError⟩

theorem sent_acted {ec : ErrorCode} {k : BackendConn ε}
    (h : Collecting strict outcome x.first x.cmd)
    (hb : b ∈ x.cmd.pendingSubqueries) (hq : (x.cmd.backend b).query ≠ none)
    (hk : ∃ opened sent, k = { x.cmd.backend b with
      writeTimerCanceled := true, socketOpen := opened, query := none, sent := sent })
    (hec : ec = .success ∨ ec = .connect ∧ outcome b = .connectFailure) (he : x.effects = []) :
    Acted locate pool strict outcome [] none x.first
      (onWriteQueryFinished b ec { x with cmd := x.cmd.setBackend b k }) := by
  obtain ⟨_, hs⟩ := h.gathering.pending b hb
  have hf : Fresh (x.cmd.subquery b) := hs.fresh hq
  have hroom : 1024 ≤ k.buffer.bufferSize := by
    obtain ⟨_, _, rfl⟩ := hk
    exact hs.room
  have hf' : Fresh { x.cmd.subquery b with backend := k } := by
    obtain ⟨_, _, rfl⟩ := hk
    exact ⟨hf.phase, hf.relay, hf.received, hf.reading, hf.incomplete, hf.noError⟩
  have hnone : k.query = none := by
    obtain ⟨_, _, rfl⟩ := hk
    rfl
  have hset : Collecting strict outcome x.first (x.cmd.setBackend b k) :=
    h.setSubquery (h.replyingBackend hb hf.not_done) (fun _ => ⟨hroom, .fresh hf'⟩) id
  have hsub : (x.cmd.setBackend b k).subquery b = { x.cmd.subquery b with backend := k } := by
    simp [setBackend]
  have hback : (x.cmd.setBackend b k).backend b = k := by rw [backend, hsub]
  rcases hec with rfl | ⟨rfl, ho⟩
  · refine queryWritten_acted (x := { x with cmd := x.cmd.setBackend b k }) hset hb (hsub ▸ hf')
      ?_ ?_ he
    · exact hback.symm ▸ hroom
    · exact hback.symm ▸ hnone
  · refine connectFailed_acted (x := { x with cmd := x.cmd.setBackend b k }) hset hb (hsub ▸ hf')
      ?_ ?_ ho he
    · exact hback.symm ▸ hroom
    · exact hback.symm ▸ hnone

theorem onBackend_acted {e : BackendEvent} (h : Stands strict outcome out writing x.first x.cmd)
    (hb : b ∈ x.cmd.pendingSubqueries) (hen : (x.cmd.backend b).Enabled e)
    (hfail : e = .connectFailed → outcome b = .connectFailure)
    (ha : ∀ chunk, e = .replyRead chunk →
      (x.cmd.backend b).received ++ chunk <+: (outcome b).reply) (he : x.effects = []) :
    Acted locate pool strict outcome out writing x.first
      ((handlers locate pool).onBackend b e x) := by
  by_cases hfatal : Fatal e
  · exact fatal_acted hfatal hb he
  have hk : (handlers locate pool).backend x.cmd b = some (x.cmd.backend b) := if_pos hb
  have hset : e.settled = true := by
    cases e <;> first | rfl | exact absurd trivial hfatal
  rw [Handlers.onBackend_eq setBackend_backend hk hset]
  cases h with
  | collecting hout hw hc =>
    subst hout hw
    cases e with
    | connected =>
      obtain ⟨at_, data, hq⟩ := hen
      have hact : Acted locate pool strict outcome _ _ _ _ := connected_acted hc hb hq he
      simp only [BackendConn.handle, hq] at hact ⊢
      exact hact
    | connectFailed =>
      obtain ⟨at_, data, hq⟩ := hen
      exact sent_acted hc hb (by simp [hq]) ⟨_, _, rfl⟩ (Or.inr ⟨rfl, hfail rfl⟩) he
    | queryWritten =>
      obtain ⟨at_, data, hq⟩ := hen
      simp only [BackendConn.handle, hq]
      exact sent_acted hc hb (by simp [hq]) ⟨_, _, rfl⟩ (Or.inl rfl) he
    | replyRead chunk =>
      obtain ⟨hread, hne, hfit⟩ := hen
      obtain ⟨_, hs⟩ := hc.gathering.pending b hb
      exact replyRead_acted hc hb (hs.listening hread) hs.room hfit hne (ha chunk rfl) he
    | _ => exact absurd trivial hfatal
  | @replied i hout hw hfirst hr =>
    -- nothing is outstanding on the backend that replies
    obtain rfl : b = i := by simpa [hr.last] using hb
    cases e with
    | connected | connectFailed | queryWritten => simp [BackendConn.Enabled, hr.query] at hen
    | replyRead chunk => simp [BackendConn.Enabled, hr.reading] at hen
    | _ => exact absurd trivial hfatal

theorem startWriteReply_acted (h : Stands strict outcome out writing false x.cmd)
    (hf : x.first = true) (he : x.effects = []) :
    Acted locate pool strict outcome out writing true (startWriteReply x) := by
  cases h with
  | replied _ _ hfirst _ => cases hfirst
  | collecting hout hw hc =>
    subst hout hw
    unfold startWriteReply
    split
    next b hr =>
      obtain ⟨_, hu, hp, hcomplete, hd⟩ := hc.replying b hr
      rw [if_pos (hc.gathering.queryRecvComplete hc.rest hu hp hcomplete)]
      have hact : Acted locate pool strict outcome _ _ _ _ :=
        tryWriteReply_acted hc.gathering hc.rest hu hp hcomplete hd hf he
      rwa [hf] at hact
    next hr =>
      exact .quiet (by simp [Ctx.visible, he]) (.collecting rfl rfl
        ⟨hc.gathering, hc.rest, fun _ hi => absurd (hr.symm.trans hi) (by simp)⟩)

theorem onWriteReplyFinished_acted (h : Stands strict outcome out (some (some b)) x.first x.cmd)
    (he : x.effects = []) :
    Acted locate pool strict outcome out none x.first (onWriteReplyFinished b .success x) := by
  cases h with
  | collecting _ hw _ => cases hw
  | replied hout hw hfirst hr =>
    cases hw
    have hrelay := hr.relay.decRecycleLock
    have hfin : BackendConn.finished { x.cmd.backend b with
        buffer := (x.cmd.backend b).buffer.decRecycleLock } = true := by
      simp [BackendConn.finished, hr.complete, hrelay.unprocessedBytes]
    unfold onWriteReplyFinished
    simp only [ne_eq, not_true_eq_false, if_false, hr.writing, Bool.not_true, Bool.false_eq_true,
      hfin, if_true]
    split
    next => exact .stopped (Ctx.visible_emit_of_nil he rfl) (Or.inr (Or.inl rfl))
    next =>
      exact .rotated (Ctx.visible_emit_of_nil he rfl) rfl ⟨⟨b, hr.last, hout⟩, hr.accounted⟩

theorem continueWriteQuery_acted (h : Stands strict outcome out writing x.first x.cmd)
    (hq : x.cmd.queryRecvComplete = false) (hstrict : strict → x.cmd.tailComplete = false)
    (he : x.effects = []) :
    Acted locate pool strict outcome out writing x.first (continueWriteQuery x).1 := by
  obtain ⟨rfl, rfl, hc⟩ := h.collecting_of_incomplete hq
  have hn := hc.replyingBackend_of_incomplete hq
  unfold continueWriteQuery
  split
  next => exact .stopped (Ctx.visible_emit_of_nil he rfl) (Or.inr (Or.inl rfl))
  next b ht =>
    have hcheck := hc.checkTail hn x.buffer b
    obtain ⟨hp, hu, hr, _⟩ := checkTail_frame x.cmd x.buffer b
    have hpend : x.cmd.tailComplete = false → b ∈ (x.cmd.checkTail x.buffer b).pendingSubqueries :=
      fun hi => hp ▸ hc.tail_pending ht hi
    rw [← hr] at hn
    have hopen : (x.cmd.checkTail x.buffer b).unparsedBulks = 0 → x.cmd.tailComplete = false := by
      intro hz
      simpa [RedisMsetCommand.queryRecvComplete, queryParsingComplete, ← hu, hz] using hq
    generalize x.cmd.checkTail x.buffer b = d at hcheck hpend hn hopen
    simp only
    split
    next herr =>
      split
      next => exact .quiet (by simp [Ctx.visible, he]) (.collecting rfl rfl hcheck)
      next hcomplete =>
        have hcomplete : (d.subquery b).queryRecvComplete = true := by simpa using hcomplete
        split
        next hl =>
          have hb := hpend (hopen hl.1)
          obtain ⟨i, hi⟩ := List.length_eq_one_iff.mp hl.2.2
          obtain rfl : b = i := by simpa [hi] using hb
          exact replyOrWait_acted (x := { x with cmd := d }) hcheck hl.1 hi hcomplete
            ((hcheck.gathering.pending b hb).2.done herr) he
        next =>
          exact .quiet (by simp [Ctx.visible, he]) (.collecting rfl rfl
            (hcheck.release hn hcomplete fun hs => hpend (hstrict hs)))
    next herr =>
      split
      next => exact .stopped (Ctx.visible_emit_of_nil he rfl) (Or.inr (Or.inl rfl))
      next hphase =>
        have hphase : (d.subquery b).phase = .readingMoreQuery := by simpa using hphase
        have herr : (d.backend b).error = false := by simpa using herr
        refine .quiet (by simp [Ctx.visible, he]) (.collecting rfl rfl
          (hcheck.setSubquery hn (fun hb => ⟨?_, .fresh ?_⟩) id))
        · rw [room_writeQuery]
          exact (hcheck.gathering.pending b hb).2.room
        · have hf := (hcheck.gathering.pending b hb).2.asking herr hphase
          exact hf.writeQuery hf.phase _ _

theorem processUnparsedPart_acted (hpool : ∀ k, AcceptedBufferSize (pool k).1.length)
    (h : Stands strict outcome out writing x.first x.cmd) (hq : x.cmd.queryRecvComplete = false)
    (he : x.effects = []) :
    Acted locate pool strict outcome out writing x.first
      (let (y, ok) := processUnparsedPart locate pool x
       if ok then y else y.emit .abort) := by
  obtain ⟨rfl, rfl, hc⟩ := h.collecting_of_incomplete hq
  have hn := hc.replyingBackend_of_incomplete hq
  have hquiet : Acted locate pool strict outcome [] none x.first x :=
    .quiet (by simp [Ctx.visible, he]) (.collecting rfl rfl hc)
  unfold processUnparsedPart
  cases hp : processUnparsed locate pool x with
  | none =>
    simp only [Option.getD_none, if_true]
    exact .stopped (Ctx.visible_emit_of_nil he rfl) (Or.inr (Or.inr rfl))
  | some res =>
    simp only [Option.getD_some]
    simp only [processUnparsed, Option.bind_eq_bind, Option.bind_eq_some_iff] at hp
    obtain ⟨⟨parsed, bulks⟩, _, hp⟩ := hp
    simp only at hp
    split at hp
    next =>
      cases hp
      simp only [Bool.false_eq_true, if_false]
      exact .stopped (Ctx.visible_emit_of_nil he rfl) (Or.inl rfl)
    next =>
      obtain ⟨⟨parsed', bulks'⟩, _, hp⟩ := Option.bind_eq_some_iff.mp hp
      simp only at hp
      split at hp
      next =>
        cases hp
        simp only [if_true]
        split
        next => exact hquiet
        next => exact hquiet.emit rfl
      next =>
        obtain ⟨y, hy, hp⟩ := Option.bind_eq_some_iff.mp hp
        cases hp
        simp only [if_true]
        simp only [activateUnparsed, Option.bind_eq_bind, Option.bind_eq_some_iff,
          Option.some.injEq] at hy
        obtain ⟨⟨buffer, d⟩, hpush, _, _, _, _, rfl⟩ := hy
        obtain ⟨hg, hr, _, _⟩ := Gathering.pushPairs hpool _ _ hc.gathering hpush
        refine .quiet (by simp [Ctx.visible, he]) (.collecting rfl rfl ?_)
        exact (hg.setUnparsed (subSize d.unparsedBulks bulks'.length)).collecting (hr.trans hn) _

theorem startWriteQuery_acted (h : Gathering strict outcome x.cmd)
    (hn : x.cmd.replyingBackend = none) (he : x.effects = []) :
    Acted locate pool strict outcome [] none x.first (startWriteQuery x).1 := by
  unfold startWriteQuery
  split
  next => exact .stopped (Ctx.visible_emit_of_nil he rfl) (Or.inr (Or.inl rfl))
  next b _ =>
    obtain ⟨_, _, hr, _⟩ := checkTail_frame x.cmd x.buffer b
    exact .quiet (by simp [Ctx.visible, he]) (.collecting rfl rfl
      ((h.checkTail x.buffer b).collecting (hr.trans hn) x.buffer))

section New
variable [Inhabited ε] {buffer buffer' : ReadBuffer} {ba : BulkArray} {cmd : RedisMsetCommand ε}

theorem new_gathering (hpool : ∀ k, AcceptedBufferSize (pool k).1.length)
    (hn : new locate pool buffer ba = some (buffer', cmd)) :
    Gathering strict outcome cmd ∧ cmd.replyingBackend = none := by
  unfold new at hn
  simp only at hn
  refine And.imp_right And.left (Gathering.pushPairs hpool _ _ ?_ hn)
  exact ⟨rfl, by simp, by simp, by simp, by simp, by simp, by simp, by simp⟩

end New

/-- A connection that fails does so before it is made; a backend that can be reached sends its
one line and nothing else. -/
def Follows (outcome : ℕ → SubqueryOutcome) (_ : World (RedisMsetCommand ε)) : World.Event → Prop
  | .backend _ b .connectFailed => (outcome b).refuses = true
  | .backend _ b .connected => (outcome b).refuses = false
  | _ => True

def answers (outcome : ℕ → SubqueryOutcome) : World.Answers (RedisMsetCommand ε) :=
  fun _ b bytes => (outcome b).refuses = false ∧ bytes <+: (outcome b).reply

instance (w : World (RedisMsetCommand ε)) : ∀ e, Decidable (Follows outcome w e)
  | .backend _ _ .connectFailed => inferInstanceAs (Decidable (_ = true))
  | .backend _ _ .connected => inferInstanceAs (Decidable (_ = false))
  | .backend _ _ .queryWritten | .backend _ _ .queryWriteFailed | .backend _ _ .queryRefused
  | .backend _ _ (.replyRead _) | .backend _ _ .replyReadFailed | .backend _ _ .connectTimeout
  | .backend _ _ .writeTimeout | .backend _ _ .readTimeout
  | .start _ | .parse _ | .continue_ _ | .process _ | .becomeFirst _ | .writeDone _
  | .writeFailed _ => .isTrue trivial

instance (c : RedisMsetCommand ε) (b : ℕ) (bytes : Bytes) : Decidable (answers outcome c b bytes) :=
  inferInstanceAs (Decidable (_ ∧ _))

variable {P : World (RedisMsetCommand ε) → World.Event → Prop} {cmd : RedisMsetCommand ε}

theorem handlers_keep (hpool : ∀ k, AcceptedBufferSize (pool k).1.length)
    (hg : Gathering strict outcome cmd) (hn : cmd.replyingBackend = none)
    (hfail : ∀ w buf b, P w (.backend buf b .connectFailed) → (outcome b).refuses = true)
    (hstrict : ∀ w buf, P w (.continue_ buf) → strict → w.cmd.tailComplete = false) :
    Keeps (handlers locate pool) (answers outcome) P cmd (Stands strict outcome)
      (Finished strict outcome) where
  start := by
    rintro w buf - rfl
    exact startWriteQuery_acted (x := ⟨buf, w.first, w.cmd, []⟩) hg hn rfl
  parse w buf _ _ hs := .quiet rfl hs
  continue_ w buf hp hq hs :=
    continueWriteQuery_acted (x := ⟨buf, w.first, w.cmd, []⟩) hs hq (hstrict w buf hp) rfl
  process w buf _ hq hs :=
    processUnparsedPart_acted (x := ⟨buf, w.first, w.cmd, []⟩) hpool hs hq rfl
  becomeFirst w buf _ hs := startWriteReply_acted (x := ⟨buf, true, w.cmd, []⟩) hs rfl rfl
  backend := by
    intro w buf b e k hp hs hk hen hans
    obtain ⟨hb, rfl⟩ : b ∈ w.cmd.pendingSubqueries ∧ w.cmd.backend b = k := by
      simp only [handlers] at hk
      split at hk
      next hb => exact ⟨hb, Option.some.inj hk⟩
      next => cases hk
    refine onBackend_acted (x := ⟨buf, w.first, w.cmd, []⟩) hs hb hen ?_
      (fun chunk hc => (hans chunk hc).2) rfl
    rintro rfl
    exact (SubqueryOutcome.refuses_iff _).mp (hfail w buf b hp)
  writeDone := by
    rintro w buf (_ | b) - hs
    · cases hs with
      | collecting _ hw _ => cases hw
      | replied _ hw _ _ => cases hw
    · exact onWriteReplyFinished_acted (x := ⟨buf, w.first, w.cmd, []⟩) hs rfl
  writeFailed := by
    rintro w buf (_ | b) - hs
    · exact .stopped rfl (Or.inr (Or.inr rfl))
    · exact .stopped rfl (Or.inl rfl)

/-- `w` is reached by an `MSET` whose subqueries end as `outcome` says. -/
structure Run [Inhabited ε] (locate : Bytes → ε) (outcome : ℕ → SubqueryOutcome)
    (w : World (RedisMsetCommand ε)) : Prop where
  intro ::
  started : ∃ pool buffer ba buffer' cmd first, (∀ k, AcceptedBufferSize (pool k).1.length) ∧
    new locate pool buffer ba = some (buffer', cmd) ∧
    Transition.Execution (World.system (handlers locate pool) (answers outcome)) (Follows outcome)
      (World.init cmd first) w

theorem Run.bytes [Inhabited ε] {w : World (RedisMsetCommand ε)} (h : Run locate outcome w) :
    w.out = [] ∨ ∃ b, w.out = (outcome b).reply := by
  obtain ⟨pool, buffer, ba, buffer', cmd, first, hpool, hnew, hw⟩ := h.started
  have ⟨hg, hn⟩ : Gathering False outcome cmd ∧ _ := new_gathering hpool hnew
  exact ((handlers_keep hpool hg hn (fun _ _ _ hp => hp) (fun _ _ _ hs => hs.elim)).reachable
    (B := fun o => o = [] ∨ ∃ b, o = (outcome b).reply) (Or.inl rfl)
    (fun _ _ _ _ hs => hs.bytes) hw).bytes

/-- The subqueries all succeed or all fail. -/
def OneKind (outcome : ℕ → SubqueryOutcome) : Prop :=
  (∀ b, (outcome b).failed = false) ∨ ∀ b, (outcome b).failed = true

/-- The kind of the reply does not depend on the order of completion when the subqueries all end
in the same way, and a failed `MSET` is then never reported as a success. -/
theorem kind_agrees [Inhabited ε] (hone : OneKind outcome) {w₁ w₂ : World (RedisMsetCommand ε)}
    (h₁ : Run locate outcome w₁) (h₂ : Run locate outcome w₂) (ho₁ : w₁.out ≠ [])
    (ho₂ : w₂.out ≠ []) :
    (w₁.out = SubqueryOutcome.okReply ↔ w₂.out = SubqueryOutcome.okReply) ∧
      ((∃ b, (outcome b).failed = true) → w₁.out ≠ SubqueryOutcome.okReply) := by
  obtain ⟨b₁, hb₁⟩ := h₁.bytes.resolve_left ho₁
  obtain ⟨b₂, hb₂⟩ := h₂.bytes.resolve_left ho₂
  rw [hb₁, hb₂, ne_eq, SubqueryOutcome.reply_eq_okReply, SubqueryOutcome.reply_eq_okReply]
  rcases hone with hk | hk
  · simp [hk]
  · simp [hk]

def twoPairs : Bytes := ascii "*5\r\n$4\r\nmset\r\n$1\r\na\r\n$1\r\nx\r\n$1\r\nb\r\n$1\r\ny\r\n"

def twoEndpoints (key : Bytes) : Bool := key == ascii "b"

def twoClosed : Pool := fun _ => (List.replicate 1024 0, false)

def twoReceived : ReadBuffer := (ReadBuffer.new (List.replicate 1024 0)).receive twoPairs

def twoArray : Option BulkArray := BulkArray.parse twoReceived.unprocessedData twoPairs.length

theorem twoArray_isSome : twoArray.isSome = true := by decide +kernel

def twoMset : Option (ReadBuffer × RedisMsetCommand Bool) :=
  new twoEndpoints twoClosed twoReceived (twoArray.get twoArray_isSome)

theorem twoMset_isSome : twoMset.isSome = true := by decide +kernel

def twoInit : World (RedisMsetCommand Bool) := World.init (twoMset.get twoMset_isSome).2 true

theorem twoRun {outcome : ℕ → SubqueryOutcome} {es : List World.Event}
    (h : Transition.ValidTrace (World.system (handlers twoEndpoints twoClosed) (answers outcome))
      (Follows outcome) twoInit es) :
    Run twoEndpoints outcome (Transition.runTrace
      (World.system (handlers twoEndpoints twoClosed) (answers outcome)) twoInit es) := by
  have hsize : ∀ k, AcceptedBufferSize (twoClosed k).1.length :=
    fun _ => ⟨0, by decide, List.length_replicate⟩
  have hnew : twoMset = some ((twoMset.get twoMset_isSome).1, (twoMset.get twoMset_isSome).2) := by
    rw [Prod.eta, Option.some_get]
  exact ⟨twoClosed, twoReceived, _, _, _, true, hsize, hnew, h.execution .refl⟩

/-- Backend `b` is reached and sent its query. -/
def sendQuery (b : ℕ) : List World.Event :=
  let buf := ReadBuffer.new []
  [.backend buf b .connected, .backend buf b .queryWritten, .backend buf b .queryWritten]

def readOk (b : ℕ) : World.Event := .backend (.new []) b (.replyRead SubqueryOutcome.okReply)

/-- The first backend cannot be reached, the second one stores its pair. -/
def halfFailed (b : ℕ) : SubqueryOutcome := if b = 0 then .connectFailure else .ok

def failureFirst : List World.Event :=
  .start (.new []) :: .backend (.new []) 0 .connectFailed :: sendQuery 1 ++
    [readOk 1, .writeDone (.new [])]

def failureLast : List World.Event :=
  .start (.new []) :: sendQuery 1 ++
    [readOk 1, .backend (.new []) 0 .connectFailed, .writeDone (.new [])]

/-- With the same outcomes the client is told `+OK` or an error, whichever subquery ends last. -/
theorem halfFailed_disagrees : ∃ w₁ w₂ : World (RedisMsetCommand Bool),
    Run twoEndpoints halfFailed w₁ ∧ Run twoEndpoints halfFailed w₂ ∧
    w₁.rotated = true ∧ w₂.rotated = true ∧ (halfFailed 0).failed = true ∧
    w₁.out = SubqueryOutcome.okReply ∧ w₂.out = ascii "-Backend Connect Error\r\n" := by
  have h₁ : Transition.ValidTrace
      (World.system (handlers twoEndpoints twoClosed) (answers halfFailed))
      (Follows halfFailed) twoInit failureFirst := by decide +kernel
  have h₂ : Transition.ValidTrace
      (World.system (handlers twoEndpoints twoClosed) (answers halfFailed))
      (Follows halfFailed) twoInit failureLast := by decide +kernel
  exact ⟨_, _, twoRun h₁, twoRun h₂, by decide +kernel, by decide +kernel, rfl, by decide +kernel,
    by decide +kernel⟩

def bothStored (bs : List ℕ) : List World.Event :=
  .start (.new []) :: sendQuery 0 ++ sendQuery 1 ++ bs.map readOk ++ [.writeDone (.new [])]

theorem bothStored_agrees : ∃ w₁ w₂ : World (RedisMsetCommand Bool),
    Run twoEndpoints (fun _ => .ok) w₁ ∧ Run twoEndpoints (fun _ => .ok) w₂ ∧
    w₁.out ≠ [] ∧ w₂.out ≠ [] ∧
    (w₁.out = SubqueryOutcome.okReply ↔ w₂.out = SubqueryOutcome.okReply) ∧
      ((∃ _ : ℕ, SubqueryOutcome.ok.failed = true) → w₁.out ≠ SubqueryOutcome.okReply) := by
  have h₁ : Transition.ValidTrace (World.system (handlers twoEndpoints twoClosed)
      (answers fun _ => .ok)) (Follows fun _ => .ok) twoInit (bothStored [0, 1]) := by
        decide +kernel
  have h₂ : Transition.ValidTrace (World.system (handlers twoEndpoints twoClosed)
      (answers fun _ => .ok)) (Follows fun _ => .ok) twoInit (bothStored [1, 0]) := by
        decide +kernel
  have ho₁ : (Transition.runTrace (World.system (handlers twoEndpoints twoClosed)
      (answers fun _ => .ok)) twoInit (bothStored [0, 1])).out ≠ [] := by decide +kernel
  have ho₂ : (Transition.runTrace (World.system (handlers twoEndpoints twoClosed)
      (answers fun _ => .ok)) twoInit (bothStored [1, 0])).out ≠ [] := by decide +kernel
  exact ⟨_, _, twoRun h₁, twoRun h₂, ho₁, ho₂,
    kind_agrees (Or.inl fun _ => rfl) (twoRun h₁) (twoRun h₂) ho₁ ho₂⟩

end RedisMsetCommand
end Yarmproxy
