import Yarmproxy.ClientLocks
import Yarmproxy.CommandFamily
import Mathlib.Data.Finset.Card

/-! # The locks that the commands hold

A backend that has yet to send what it was given counts for one lock on the client buffer. Simple
commands take it with every write; the others take it with the backend and keep it from piece to
piece. -/
namespace Yarmproxy

variable {ε C D K : Type}

namespace Outline
variable {o : Outline C K} {b : ℕ} {c c' : C}

/-- The backends with a connect or a write in flight. -/
def busy (o : Outline C K) (c : C) : Finset ℕ :=
  (o.members c).filter fun b => (o.side c b).query.isSome = true

def locks (o : Outline C K) (c : C) : ℕ := (o.busy c).card

theorem mem_busy : b ∈ o.busy c ↔ b ∈ o.members c ∧ (o.side c b).query.isSome = true :=
  Finset.mem_filter

/-- What is no longer held or no longer sending does not count. -/
theorem locks_le (hm : o.members c' ⊆ o.members c) (hs : o.side c' = o.side c) :
    o.locks c' ≤ o.locks c := by
  refine Finset.card_le_card fun b hb => ?_
  rw [mem_busy] at hb ⊢
  exact ⟨hm hb.1, hs ▸ hb.2⟩

theorem Still.locks_le (h : o.Still c c') : o.locks c' ≤ o.locks c :=
  Outline.locks_le h.members h.side

theorem Sheds.locks_le (h : o.Sheds b c c') : o.locks c' ≤ o.locks c :=
  Outline.locks_le h.members h.side

theorem locks_le_succ (hm : ∀ b' ∈ o.members c', b' ≠ b → b' ∈ o.members c)
    (hs : ∀ b' ∈ o.members c', b' ≠ b → (o.side c' b').query = (o.side c b').query) :
    o.locks c' ≤ o.locks c + 1 := by
  have hsub : o.busy c' ⊆ insert b (o.busy c) := by
    intro b' hb
    rw [mem_busy] at hb
    rw [Finset.mem_insert, mem_busy]
    by_cases he : b' = b
    · exact .inl he
    · exact .inr ⟨hm b' hb.1 he, hs b' hb.1 he ▸ hb.2⟩
  exact (Finset.card_le_card hsub).trans (Finset.card_insert_le _ _)

theorem Sends.locks_le (h : o.Sends b c c') : o.locks c' ≤ o.locks c + 1 :=
  locks_le_succ (fun _ hb _ => h.members ▸ hb) fun b' _ hb => by rw [(h.others b' hb).1]

theorem locks_foldl {f : C → ℕ → C} (hf : ∀ c b, o.locks (f c b) ≤ o.locks c + 1) (bs : List ℕ)
    (c : C) :
    o.locks (bs.foldl f c) ≤ o.locks c + bs.length := by
  induction bs generalizing c with
  | nil => exact le_rfl
  | cons b bs ih =>
    have h₁ := ih (f c b)
    have h₂ := hf c b
    rw [List.foldl_cons, List.length_cons]
    omega

theorem locks_le_card (o : Outline C K) (c : C) : o.locks c ≤ (o.members c).card :=
  Finset.card_filter_le _ _

/-- The outline shows the backends as the handlers hold them. -/
structure Shows (o : Outline C K) (h : Handlers ε C) : Prop where
  backend : ∀ c b k, h.backend c b = some k → b ∈ o.members c ∧ o.side c b = k.writeSide
  setBackend : ∀ c b k, b ∈ o.members c → o.members (h.setBackend c b k) = o.members c ∧
    o.side (h.setBackend c b k) b = k.writeSide ∧
    ∀ b' ∈ o.members c, b' ≠ b → o.side (h.setBackend c b k) b' = o.side c b'

namespace Shows
variable {h : Handlers ε C} {k : BackendConn ε}

/-- A backend that has finished its write gives its lock free. -/
theorem locks_finished (hs : o.Shows h) (hk : h.backend c b = some k) (k' : BackendConn ε)
    (hq : k.query.isSome = true) (hq' : k'.query = none) :
    o.locks (h.setBackend c b k') + 1 ≤ o.locks c := by
  obtain ⟨hmem, hside⟩ := hs.backend c b k hk
  obtain ⟨hmembers, hself, hothers⟩ := hs.setBackend c b k' hmem
  have hbusy : b ∈ o.busy c := mem_busy.mpr ⟨hmem, hside ▸ hq⟩
  have hsub : o.busy (h.setBackend c b k') ⊆ (o.busy c).erase b := by
    intro b' hb
    rw [mem_busy, hmembers] at hb
    have hne : b' ≠ b := by
      rintro rfl
      rw [hself, BackendConn.writeSide, hq'] at hb
      exact absurd hb.2 nofun
    rw [Finset.mem_erase, mem_busy]
    exact ⟨hne, hb.1, hothers b' hb.1 hne ▸ hb.2⟩
  have hle := Finset.card_le_card hsub
  rw [Finset.card_erase_of_mem hbusy] at hle
  have hpos := Finset.card_pos.mpr ⟨b, hbusy⟩
  simp only [locks]
  omega

theorem locks_kept (hs : o.Shows h) (hk : h.backend c b = some k) (k' : BackendConn ε)
    (hq : k'.query.isSome = k.query.isSome) : o.locks (h.setBackend c b k') ≤ o.locks c := by
  obtain ⟨hmem, hside⟩ := hs.backend c b k hk
  obtain ⟨hmembers, hself, hothers⟩ := hs.setBackend c b k' hmem
  refine Finset.card_le_card fun b' hb => ?_
  rw [mem_busy, hmembers] at hb
  rw [mem_busy]
  refine ⟨hb.1, ?_⟩
  by_cases hne : b' = b
  · subst hne
    rw [hside, BackendConn.writeSide, ← hq]
    rw [hself] at hb
    exact hb.2
  · exact hothers b' hb.1 hne ▸ hb.2

end Shows
end Outline

section Conduct
variable {h : Handlers ε C} {o : Outline C K} {k : Bool} {x y : Ctx C} {b : ℕ}

theorem Steps.lent (hs : Steps o k x y) (hx : x.effects = []) :
    Lent o.locks (o.locks x.cmd) x y := by
  obtain ⟨es, he, hp⟩ := hs.effects
  rw [hx, List.nil_append] at he
  have hle := hs.still.locks_le
  refine ⟨?_, fun _ _ => .of_eq (by rw [hs.buffer]) (by rw [hs.buffer])⟩
  rw [he, Sent.count_eq_zero (x := x) hp, hs.buffer]
  omega

theorem Ends.lent (he : Ends o k x y) (hx : x.effects = []) :
    Terminal y.effects ∨ Lent o.locks (o.locks x.cmd) x y := by
  cases he with
  | fatal he hf =>
    rw [hx, List.nil_append] at he
    exact .inl (he ▸ hf)
  | steps hs => exact .inr (hs.lent hx)
  | rotated _ _ hs hb _ he =>
    have hle := hs.locks_le
    rw [hx, List.nil_append] at he
    refine .inr ⟨?_, fun _ _ => .of_eq (by rw [hb]) (by rw [hb])⟩
    rw [he, hb, show List.count Effect.decRecycleLock [.rotate] = 0 from rfl]
    omega

/-- The callback of a write that was still counted in `n`. -/
theorem Sent.lent {ec : ErrorCode} {n : ℕ} (hs : Sent o k b ec x y) (hx : x.effects = [])
    (hn : o.locks x.cmd + 1 ≤ n) (hl : 0 < x.buffer.recycleLockCount) :
    Terminal y.effects ∨ Lent o.locks n x y := by
  cases hs with
  | fatal he hf =>
    rw [hx, List.nil_append] at he
    exact .inl (he ▸ hf)
  | unlocked hs _ he _ hb =>
    have hle := hs.locks_le
    rw [hx, List.nil_append] at he
    rcases hb with ⟨hb, hcount⟩ | ⟨hb, hcount⟩
    · refine .inr ⟨?_, fun _ h₁ => ?_⟩
      · rw [he, hcount, hb, ReadBuffer.recycleLockCount_decRecycleLock]
        omega
      · rw [hb] at h₁ ⊢
        exact ReadBuffer.inPlace_decRecycleLock h₁
    · refine .inr ⟨?_, fun _ _ => .of_eq (by rw [hb]) (by rw [hb])⟩
      rw [he, hcount, hb]
      omega
  | writing _ hs hb _ he =>
    have hle := hs.locks_le
    rw [hx] at he
    refine .inr ⟨?_, fun _ _ => .of_eq (by rw [hb]) (by rw [hb])⟩
    rw [he, hb, List.count_nil]
    omega

theorem Lent.cmd {locks : C → ℕ} {n : ℕ} {c : C} (hl : Lent locks n x y)
    (hc : locks c ≤ locks y.cmd) :
    Lent locks n x { y with cmd := c } := by
  have := hl.balance
  refine ⟨?_, hl.inPlace⟩
  dsimp only
  omega

theorem Lent.of_cmd {locks : C → ℕ} {n : ℕ} {c : C} (hl : Lent locks n { x with cmd := c } y) :
    Lent locks n x y := ⟨hl.balance, hl.inPlace⟩

theorem Lent.mono {locks : C → ℕ} {m n : ℕ} (hl : Lent locks m x y) (hmn : m ≤ n) :
    Lent locks n x y := by
  have := hl.balance
  exact ⟨by omega, hl.inPlace⟩

/-- A handler that does nothing but emit something else than an unlock. -/
theorem Lent.emit (locks : C → ℕ) {e : Effect} (hx : x.effects = []) (he : e ≠ .decRecycleLock) :
    Lent locks (locks x.cmd) x (x.emit e) := by
  refine ⟨?_, fun _ _ => .refl _⟩
  rw [Ctx.emit, hx, List.nil_append, List.count_singleton]
  simp only [beq_iff_eq, he, if_false]
  omega

theorem Lent.refl (locks : C → ℕ) (hx : x.effects = []) : Lent locks (locks x.cmd) x x := by
  refine ⟨?_, fun _ _ => .refl _⟩
  rw [hx, List.count_nil]
  omega

namespace Conduct

theorem backend_lent (hc : Conduct h o) (hs : o.Shows h) {e : BackendEvent} {k : BackendConn ε}
    (hx : x.effects = []) (hk : h.backend x.cmd b = some k) (he : k.Enabled e)
    (hsucc : e.succeeds = true) (hl : o.locks x.cmd ≤ x.buffer.recycleLockCount) :
    Terminal (h.onBackend b e x).effects ∨ Lent o.locks (o.locks x.cmd) x (h.onBackend b e x) := by
  rw [Handlers.onBackend_invoke, hk]
  dsimp only
  have hinvoke : Terminal (h.invoke b (k.handle e).2
        { x with cmd := h.setBackend x.cmd b (k.handle e).1 }).effects ∨
      Lent o.locks (o.locks x.cmd) x (h.invoke b (k.handle e).2
        { x with cmd := h.setBackend x.cmd b (k.handle e).1 }) := by
    cases e with
    | connected =>
      obtain ⟨at_, data, hq⟩ := he
      have hle := hs.locks_kept hk (k.handle .connected).1 (by
        simp only [BackendConn.handle, hq, Option.isSome_some])
      have hnone : (k.handle .connected).2 = none := by simp only [BackendConn.handle, hq]
      rw [hnone]
      exact .inr ((Lent.refl _ hx).cmd hle)
    | queryWritten =>
      obtain ⟨at_, data, hq⟩ := he
      have hle := hs.locks_finished hk (k.handle .queryWritten).1 (by rw [hq]; rfl)
        (by simp only [BackendConn.handle, hq])
      have hsent : (k.handle .queryWritten).2 = some (.querySent .success) := by
        simp only [BackendConn.handle, hq]
      rw [hsent]
      exact ((hc.sent b .success _).lent (x := { x with
        cmd := h.setBackend x.cmd b (k.handle .queryWritten).1 }) hx hle
          (by dsimp only; omega)).imp_right
          Lent.of_cmd
    | replyRead chunk =>
      have hle := hs.locks_kept hk (k.handle (.replyRead chunk)).1 rfl
      exact ((hc.received b .success _).lent (x := { x with
        cmd := h.setBackend x.cmd b (k.handle (.replyRead chunk)).1 }) hx).imp_right fun hr =>
          (Lent.of_cmd hr).mono hle
    | _ => cases hsucc
  generalize h.invoke b (k.handle e).2 { x with cmd := h.setBackend x.cmd b (k.handle e).1 } = y
    at hinvoke
  split
  · exact hinvoke
  next k' hk' =>
    refine hinvoke.imp_right fun hr => hr.cmd (hs.locks_kept hk' _ ?_)
    cases e with
    | connected | queryWritten | replyRead _ => rfl
    | _ => cases hsucc

/-- A class that sends only what its constructor and its first handler have made ready. -/
theorem lends_of_start (hc : Conduct h o) (hs : o.Shows h) {taken : C → ℕ} {I : C → Prop}
    (hstart : ∀ x, x.effects = [] → Lent o.locks (taken x.cmd) x (h.startWriteQuery x).1)
    (hcontinue : ∀ x, h.continueWriteQuery x = (x.emit .assertFailed, false))
    (hparse : ∀ x, h.parseUnparsedPart x = (x, true))
    (hprocess : ∀ x, h.processUnparsedPart x = (x, true)) : Lends h I o.locks taken where
  start x hx := .inr (hstart x hx)
  continue_ x hx := by
    refine .inl ?_
    rw [hcontinue, Ctx.emit, hx]
    exact .single rfl
  parse x hx := by
    rw [hparse]
    exact ⟨rfl, by rw [hx]; rfl, _, rfl⟩
  process x _ hx := by
    rw [hprocess]
    exact .inr (.refl _ hx)
  becomeFirst x hx hf := (hc.becomeFirst x hf).lent hx
  written b ec x hx hf := (hc.written b ec x hf).lent hx
  backend _ _ _ _ hx hk he hsucc hl := hc.backend_lent hs hx hk he hsucc hl

end Conduct
end Conduct

namespace LocalCommand

theorem shows_ : outline.Shows (handlers (ε := ε)) :=
  ⟨fun _ _ _ h => (nomatch h), fun _ _ _ h => absurd h (Finset.notMem_empty _)⟩

theorem lends {I : LocalCommand → Prop} :
    Lends (handlers (ε := ε)) I outline.locks fun _ => 0 := by
  refine conduct.lends_of_start shows_ (fun x hx => ?_) (fun _ => rfl) (fun _ => rfl) fun _ => rfl
  dsimp only [handlers, startWriteQuery]
  split
  · exact Lent.emit outline.locks hx nofun
  · exact Lent.refl outline.locks hx

end LocalCommand

/-- The locks that a constructor takes. -/
def ReadBuffer.locked (b : ReadBuffer) (n : ℕ) : ReadBuffer :=
  { b with recycleLockCount := b.recycleLockCount + n }

theorem ReadBuffer.inPlace_locked {b : ReadBuffer} {n : ℕ} :
    b.InPlace (b.locked n) := .of_eq rfl rfl

theorem parseUnparsedLoop_buffer {n m : ℕ} {b b' : ReadBuffer} {ok : Bool}
    (h : parseUnparsedLoop n b = some (b', m, ok)) : ∃ p, b' = { b with parsedOffset := p } := by
  induction n generalizing b with
  | zero =>
    obtain ⟨rfl, -⟩ := Prod.mk.inj (Option.some.inj h)
    exact ⟨_, rfl⟩
  | succ n ih =>
    rw [parseUnparsedLoop] at h
    dsimp only at h
    split at h
    · split at h
      · obtain ⟨rfl, -⟩ := Prod.mk.inj (Option.some.inj h)
        exact ⟨_, rfl⟩
      split at h
      · obtain ⟨rfl, -⟩ := Prod.mk.inj (Option.some.inj h)
        exact ⟨_, rfl⟩
      obtain ⟨total, -, h⟩ := Option.bind_eq_some_iff.mp h
      obtain ⟨p, rfl⟩ := ih h
      exact ⟨p, rfl⟩
    · obtain ⟨rfl, -⟩ := Prod.mk.inj (Option.some.inj h)
      exact ⟨_, rfl⟩

namespace SingleCommand
variable {x : Ctx (SingleCommand ε)}

theorem shows_ : outline.Shows (handlers (ε := ε)) := by
  refine ⟨fun c b k hk => ?_, fun c b k hb => ⟨rfl, rfl, fun b' hb' hne => ?_⟩⟩
  · simp only [handlers] at hk
    split at hk
    next hb => exact ⟨Finset.mem_singleton.mpr hb, by rw [← Option.some.inj hk]; rfl⟩
    · cases hk
  · exact absurd ((Finset.mem_singleton.mp hb').trans (Finset.mem_singleton.mp hb).symm) hne

theorem locks_le_one (c : SingleCommand ε) : outline.locks c ≤ 1 := outline.locks_le_card c

/-- A command counts for a lock exactly while its write is in flight. -/
theorem locks_pos_iff {c : SingleCommand ε} :
    0 < outline.locks c ↔ c.backend.query.isSome = true := by
  rw [Outline.locks, Finset.card_pos]
  constructor
  · rintro ⟨b, hb⟩
    exact (Outline.mem_busy.mp hb).2
  · exact fun h => ⟨0, Outline.mem_busy.mpr ⟨Finset.mem_singleton_self 0, h⟩⟩

theorem writeUnprocessed_lent (hx : x.effects = []) :
    Lent outline.locks 0 x (writeUnprocessed x) := by
  have hle := locks_le_one (writeUnprocessed x).cmd
  have he : (writeUnprocessed x).effects = [] := hx
  refine ⟨?_, fun _ _ => .of_eq rfl rfl⟩
  rw [he, List.count_nil, show (writeUnprocessed x).buffer.recycleLockCount =
    x.buffer.recycleLockCount + 1 from rfl]
  omega

theorem still_checkQueryRecvComplete (c : SingleCommand ε) (buffer : ReadBuffer) :
    (c.checkQueryRecvComplete buffer).backend = c.backend ∧
      (c.checkQueryRecvComplete buffer).reply = c.reply := by
  unfold checkQueryRecvComplete
  split
  · exact ⟨rfl, rfl⟩
  · exact ⟨rfl, rfl⟩
  · split <;> exact ⟨rfl, rfl⟩
  · split <;> exact ⟨rfl, rfl⟩

theorem locks_of_backend {c c' : SingleCommand ε} (h : c'.backend = c.backend) :
    outline.locks c' = outline.locks c := by
  have hs : outline.side c' = outline.side c := by simp only [outline, h]
  exact Nat.le_antisymm (Outline.locks_le (Finset.Subset.refl _) hs)
    (Outline.locks_le (Finset.Subset.refl _) hs.symm)

theorem continueWriteQuery_lent (hx : x.effects = []) :
    Terminal (continueWriteQuery x).1.effects ∨
      Lent outline.locks (outline.locks x.cmd) x (continueWriteQuery x).1 := by
  obtain ⟨hb, -⟩ := still_checkQueryRecvComplete x.cmd x.buffer
  have hchecked : Lent outline.locks (outline.locks x.cmd) x
      { x with cmd := x.cmd.checkQueryRecvComplete x.buffer } :=
    (Lent.refl _ hx).cmd (locks_of_backend hb).le
  cases hk : x.cmd.kind with
  | redisBasic | memcBasic =>
    refine .inl ?_
    simp only [continueWriteQuery, hk, Ctx.emit, hx]
    exact .single rfl
  | redisSet | memcSet =>
    refine .inr ?_
    simp only [continueWriteQuery, hk]
    split
    · split
      · exact hchecked
      split
      next hf =>
        have hs := tryWriteReply_steps (k := true)
          (x := { x with cmd := x.cmd.checkQueryRecvComplete x.buffer }) hf
        exact (Lent.of_cmd (hs.lent hx)).mono (locks_of_backend hb).le
      · exact hchecked
    · exact (Lent.of_cmd (writeUnprocessed_lent (x := { x with
        cmd := x.cmd.checkQueryRecvComplete x.buffer }) hx)).mono (Nat.zero_le _)

theorem parseUnparsedPart_buffer (hx : x.effects = []) :
    (parseUnparsedPart x).1.cmd.backend = x.cmd.backend ∧
      (parseUnparsedPart x).1.effects.count .decRecycleLock = 0 ∧
      ∃ p, (parseUnparsedPart x).1.buffer = { x.buffer with parsedOffset := p } := by
  have hsame : x.cmd.backend = x.cmd.backend ∧ x.effects.count .decRecycleLock = 0 ∧
      ∃ p, x.buffer = { x.buffer with parsedOffset := p } := ⟨rfl, by rw [hx]; rfl, _, rfl⟩
  unfold parseUnparsedPart
  split
  · split
    · exact ⟨rfl, by rw [Ctx.emit, hx]; rfl, _, rfl⟩
    next buffer n ok hloop => exact ⟨rfl, by rw [hx]; rfl, parseUnparsedLoop_buffer hloop⟩
  · exact hsame

theorem lends {I : SingleCommand ε → Prop} :
    Lends (handlers (ε := ε)) I outline.locks fun _ => 0 where
  start x hx := .inr (Lent.of_cmd (writeUnprocessed_lent (x := { x with
    cmd := x.cmd.checkQueryRecvComplete x.buffer }) hx))
  continue_ x hx := continueWriteQuery_lent hx
  parse x hx := by
    obtain ⟨hb, he, hp⟩ := parseUnparsedPart_buffer hx
    exact ⟨locks_of_backend hb, he, hp⟩
  process x _ hx := .inr (.refl _ hx)
  becomeFirst x hx hf := (conduct.becomeFirst x hf).lent hx
  written b ec x hx hf := (conduct.written b ec x hf).lent hx
  backend _ _ _ _ hx hk he hsucc hl := conduct.backend_lent shows_ hx hk he hsucc hl

end SingleCommand

/-- The outline of subqueries shows the backends of the subqueries. -/
theorem Outline.shows_split {S : Type} {core : C → K} {members : C → Finset ℕ}
    {subquery : C → ℕ → S}
    {backend : S → BackendConn ε} {segments : S → List Segment} {h : Handlers ε C}
    (hb : ∀ c b k, h.backend c b = some k → b ∈ members c ∧ backend (subquery c b) = k)
    (hm : ∀ c b k, members (h.setBackend c b k) = members c)
    (hs : ∀ c b k, ∃ s, subquery (h.setBackend c b k) = Function.update (subquery c) b s ∧
      backend s = k) :
    (Outline.split core members subquery backend segments).Shows h := by
  refine ⟨fun c b k hk => ?_, fun c b k _ => ⟨hm c b k, ?_, fun b' _ hne => ?_⟩⟩
  · obtain ⟨hmem, hk⟩ := hb c b k hk
    exact ⟨hmem, by rw [← hk]⟩
  · obtain ⟨s, hs, rfl⟩ := hs c b k
    simp only [hs, Function.update_self]
  · obtain ⟨s, hs, -⟩ := hs c b k
    simp only [hs, Function.update_of_ne hne]

namespace MemcGetCommand
variable {x : Ctx (MemcGetCommand ε)} {c : MemcGetCommand ε}

theorem shows_ : outline.Shows (handlers (ε := ε)) := by
  refine Outline.shows_split (fun c b k hk => ?_) (fun _ _ _ => rfl) fun c b k => ⟨_, rfl, rfl⟩
  simp only [handlers] at hk
  split at hk
  next hb => exact ⟨Finset.mem_range.mpr hb, Option.some.inj hk⟩
  · cases hk

theorem count_front (b : ℕ) : (c.writeFront b).count = c.count := by
  unfold writeFront
  split <;> rfl

theorem count_writeFronts (bs : List ℕ) : (bs.foldl writeFront c).count = c.count := by
  induction bs generalizing c with
  | nil => rfl
  | cons b bs ih => exact ih.trans (count_front b)

theorem lends {I : MemcGetCommand ε → Prop} : Lends (handlers (ε := ε)) I outline.locks count := by
  refine conduct.lends_of_start shows_ (fun x hx => ?_) (fun _ => rfl) (fun _ => rfl) fun _ => rfl
  have hle : outline.locks (startWriteQuery x).1.cmd ≤ x.cmd.count := by
    refine (outline.locks_le_card _).trans ?_
    simp only [startWriteQuery, outline, Finset.card_range, count_writeFronts, le_refl]
  have he : (startWriteQuery x).1.effects = [] := hx
  refine ⟨?_, fun _ _ => .refl _⟩
  dsimp only [handlers]
  rw [he, List.count_nil, show (startWriteQuery x).1.buffer = x.buffer from rfl]
  omega

theorem new_locked [DecidableEq ε] [Inhabited ε] {locate : Bytes → ε} {pool : Pool}
    {b b' : ReadBuffer} {data : Ptr} {size : ℕ} (h : new locate pool b data size = some (b', c)) :
    b' = b.locked c.count := by
  obtain ⟨keys, -, h⟩ := Option.bind_eq_some_iff.mp h
  obtain ⟨rfl, rfl⟩ := Prod.mk.inj (Option.some.inj h)
  refine List.foldlRecOn
    (motive := fun s : ReadBuffer × MemcGetCommand ε => s.1 = b.locked s.2.count)
    keys _ rfl fun s hs key _ => ?_
  unfold pushKey
  dsimp only
  split
  · exact hs
  · rw [hs]
    rfl

end MemcGetCommand

namespace RedisMgetCommand
variable {x : Ctx (RedisMgetCommand ε)} {c : RedisMgetCommand ε}

theorem shows_ : outline.Shows (handlers (ε := ε)) := by
  refine Outline.shows_split (fun c b k hk => ?_) (fun _ _ _ => rfl) fun c b k => ⟨_, rfl, rfl⟩
  simp only [handlers] at hk
  split at hk
  next hb => exact ⟨Finset.mem_range.mpr hb, Option.some.inj hk⟩
  · cases hk

theorem count_foldl_writePrefix (bs : List ℕ) : (bs.foldl writePrefix c).count = c.count := by
  induction bs generalizing c with
  | nil => rfl
  | cons b bs ih => exact ih

theorem lends {I : RedisMgetCommand ε → Prop} :
    Lends (handlers (ε := ε)) I outline.locks count := by
  refine conduct.lends_of_start shows_ (fun x hx => ?_) (fun _ => rfl) (fun _ => rfl) fun _ => rfl
  have hle : outline.locks ((List.range x.cmd.count).foldl writePrefix x.cmd) ≤ x.cmd.count := by
    refine (outline.locks_le_card _).trans ?_
    simp only [outline, Finset.card_range, count_foldl_writePrefix, le_refl]
  have hwritten : Lent outline.locks x.cmd.count x
      { x with cmd := (List.range x.cmd.count).foldl writePrefix x.cmd } := by
    refine ⟨?_, fun _ _ => .refl _⟩
    dsimp only
    rw [hx, List.count_nil]
    omega
  dsimp only [handlers, startWriteQuery]
  split
  · exact (Lent.of_cmd (Lent.emit outline.locks (x := { x with
      cmd := (List.range x.cmd.count).foldl writePrefix x.cmd })
        (e := .writeReply _ none) hx nofun)).mono hle
  · exact hwritten

theorem new_locked [DecidableEq ε] [Inhabited ε] {locate : Bytes → ε} {pool : Pool}
    {b b' : ReadBuffer}
    {ba : BulkArray} (h : new locate pool b ba = some (b', c)) : b' = b.locked c.count := by
  obtain ⟨bulks, -, h⟩ := Option.bind_eq_some_iff.mp h
  obtain ⟨s, hs, h⟩ := Option.bind_eq_some_iff.mp h
  obtain ⟨rfl, rfl⟩ := Prod.mk.inj (Option.some.inj h)
  refine Lists.foldlM_preserves (P := fun s => s.buffer = b.locked s.cmd.count)
    (fun s bulk s' hk hp => ?_)
    bulks rfl hs
  obtain ⟨key, -, hp⟩ := Option.bind_eq_some_iff.mp hp
  obtain ⟨total, -, hp⟩ := Option.bind_eq_some_iff.mp hp
  obtain ⟨segments, -, hp⟩ := Option.bind_eq_some_iff.mp hp
  obtain rfl := Option.some.inj hp
  dsimp only
  split
  · exact hk
  · rw [hk]
    rfl

end RedisMgetCommand

section Batch
variable {S : Type} {core : C → K} {pending : C → List ℕ} {subquery : C → ℕ → S}
variable {backend : S → BackendConn ε} {segments : S → List Segment} {c c' : C} {b : ℕ}

/-- The outline of a command with a list of pending subqueries. -/
abbrev Outline.batch (core : C → K) (pending : C → List ℕ) (subquery : C → ℕ → S)
    (backend : S → BackendConn ε) (segments : S → List Segment) : Outline C K :=
  .split core (fun c => (pending c).toFinset) subquery backend segments

theorem Outline.locks_le_of_query (hp : pending c' = pending c)
    (hq : ∀ b, (backend (subquery c' b)).query = none ∨
      (backend (subquery c' b)).query = (backend (subquery c b)).query) :
    (Outline.batch core pending subquery backend segments).locks c' ≤
      (Outline.batch core pending subquery backend segments).locks c := by
  refine Finset.card_le_card fun b hb => ?_
  rw [Outline.mem_busy] at hb ⊢
  have hb' : b ∈ (pending c').toFinset ∧ (backend (subquery c' b)).query.isSome = true := hb
  show b ∈ (pending c).toFinset ∧ (backend (subquery c b)).query.isSome = true
  rw [hp] at hb'
  rcases hq b with hn | he
  · rw [hn] at hb'
    exact absurd hb'.2 nofun
  · exact he ▸ hb'

theorem Outline.locks_le_of_activate (hp : pending c' = pending c ++ [b])
    (hq : ∀ b' ≠ b, (backend (subquery c' b')).query = (backend (subquery c b')).query) :
    (Outline.batch core pending subquery backend segments).locks c' ≤
      (Outline.batch core pending subquery backend segments).locks c + 1 := by
  refine Outline.locks_le_succ (b := b) (fun b' hb hne => ?_) fun b' _ hne => hq b' hne
  have hb : b' ∈ pending c' := List.mem_toFinset.mp hb
  rw [hp, List.mem_append, List.mem_singleton] at hb
  exact List.mem_toFinset.mpr (hb.resolve_right hne)

theorem Outline.locks_eq_zero (hp : pending c = []) :
    (Outline.batch core pending subquery backend segments).locks c = 0 := by
  refine Finset.card_eq_zero.mpr (Finset.eq_empty_of_forall_notMem fun b hb => ?_)
  have hb : b ∈ (pending c).toFinset := (Outline.mem_busy.mp hb).1
  rw [hp] at hb
  exact absurd hb (Finset.notMem_empty b)

end Batch

theorem Lent.of_batch {locks : C → ℕ} {x y : Ctx C} {buffer : ReadBuffer} {n p q : ℕ}
    (hbuffer : buffer = x.buffer.locked n)
    (hy : y.buffer = (buffer.updateProcessedBytes p).updateParsedBytes q)
    (hlocks : locks y.cmd ≤ locks x.cmd + n) (he : y.effects = []) :
    Lent locks (locks x.cmd) x y := by
  have hcount : y.buffer.recycleLockCount = x.buffer.recycleLockCount + n := by
    rw [hy, show ((buffer.updateProcessedBytes p).updateParsedBytes q).recycleLockCount =
      (buffer.updateProcessedBytes p).recycleLockCount from rfl,
      ReadBuffer.recycleLockCount_updateProcessedBytes, hbuffer]
    rfl
  refine ⟨?_, fun h₀ _ => ?_⟩
  · rw [he, List.count_nil, hcount]
    omega
  · have hlocked : 0 < buffer.recycleLockCount := by
      rw [hbuffer]
      exact Nat.lt_of_lt_of_le h₀ (Nat.le_add_right ..)
    have hplace : x.buffer.InPlace buffer := hbuffer ▸ ReadBuffer.inPlace_locked
    rw [hy]
    exact (hplace.trans (ReadBuffer.inPlace_updateProcessedBytes hlocked)).trans (.of_eq rfl rfl)

namespace RedisMsetCommand
variable {x : Ctx (RedisMsetCommand ε)} {c c' : RedisMsetCommand ε} {b : ℕ}

theorem shows_ [DecidableEq ε] (locate : Bytes → ε) (pool : Pool) :
    outline.Shows (handlers locate pool) := by
  refine Outline.shows_split (fun c b k hk => ?_) (fun _ _ _ => rfl) fun c b k => ⟨_, rfl, rfl⟩
  simp only [handlers] at hk
  split at hk
  next hb => exact ⟨List.mem_toFinset.mpr hb, Option.some.inj hk⟩
  · cases hk

theorem query_setComplete (b b' : ℕ) :
    ((c.setComplete b).backend b').query = (c.backend b').query := by
  simp only [setComplete, setSubquery, backend]
  by_cases h : b' = b
  · rw [h, Function.update_self]
  · rw [Function.update_of_ne h]

theorem locks_checkTail (buffer : ReadBuffer) (b : ℕ) :
    outline.locks (c.checkTail buffer b) ≤ outline.locks c := by
  unfold checkTail
  split
  · exact Outline.locks_le_of_query rfl fun b' => .inr (query_setComplete b b')
  · exact le_rfl

theorem query_setBackend {k : BackendConn ε} {b' : ℕ} (h : b' ≠ b) :
    ((c.setBackend b k).backend b').query = (c.backend b').query := by
  simp only [setBackend, setSubquery, backend, Function.update_of_ne h]

theorem locks_activate (buffer : ReadBuffer) (c : RedisMsetCommand ε) (b : ℕ) :
    outline.locks (activate buffer c b) ≤ outline.locks c + 1 := by
  refine Outline.locks_le_of_activate (b := b) ?_ fun b' hne => ?_
  · unfold activate
    dsimp only
    split <;> rfl
  · show ((activate buffer c b).backend b').query = (c.backend b').query
    unfold activate
    dsimp only
    rw [query_setBackend hne]
    split
    · exact query_setComplete b b'
    · rfl

theorem locks_activateWaitingSubquery (buffer : ReadBuffer) (c : RedisMsetCommand ε) :
    outline.locks (activateWaitingSubquery buffer c) ≤
      outline.locks c + c.waitingSubqueries.length :=
  Outline.locks_foldl (locks_activate buffer) c.waitingSubqueries c

theorem startWriteQuery_lent (hx : x.effects = []) : Terminal (startWriteQuery x).1.effects ∨
    Lent outline.locks (outline.locks x.cmd + x.cmd.waitingSubqueries.length) x
      (startWriteQuery x).1 := by
  unfold startWriteQuery
  split
  · refine .inl ?_
    rw [Ctx.emit, hx]
    exact .single rfl
  next i _ =>
    have hactive := locks_activateWaitingSubquery x.buffer (x.cmd.checkTail x.buffer i)
    have hchecked := locks_checkTail (c := x.cmd) x.buffer i
    rw [(checkTail_request x.cmd x.buffer i).2.2] at hactive
    refine .inr ⟨?_, fun _ _ => .refl _⟩
    dsimp only
    rw [hx, List.count_nil]
    omega

theorem continueWriteQuery_lent (hx : x.effects = []) : Terminal (continueWriteQuery x).1.effects ∨
    Lent outline.locks (outline.locks x.cmd) x (continueWriteQuery x).1 := by
  unfold continueWriteQuery
  split
  · refine .inl ?_
    rw [Ctx.emit, hx]
    exact .single rfl
  next i _ =>
    have hlocks := locks_checkTail (c := x.cmd) x.buffer i
    have hchecked : Lent outline.locks (outline.locks x.cmd) x
        { x with cmd := x.cmd.checkTail x.buffer i } := (Lent.refl _ hx).cmd hlocks
    dsimp only
    split
    · split
      · exact .inr hchecked
      split
      · have hs : Steps outline true { x with cmd := x.cmd.checkTail x.buffer i }
            (replyOrWait i { x with cmd := x.cmd.checkTail x.buffer i }) := replyOrWait_steps i
        exact .inr ((Lent.of_cmd (hs.lent hx)).mono hlocks)
      · exact .inr (hchecked.cmd (still_release _ i).locks_le)
    split
    · refine .inl ?_
      rw [Ctx.emit, hx]
      exact .single rfl
    · refine .inr ⟨?_, fun _ _ => .of_eq rfl rfl⟩
      have hle : outline.locks ((x.cmd.checkTail x.buffer i).setBackend i
          (((x.cmd.checkTail x.buffer i).backend i).writeQuery
            (some x.buffer.incRecycleLock.processedOffset)
            (x.buffer.incRecycleLock.unprocessedData.bytes
              x.buffer.incRecycleLock.unprocessedBytes))) ≤
          outline.locks (x.cmd.checkTail x.buffer i) + 1 :=
        Outline.locks_le_succ (b := i) (fun _ hb _ => hb) fun b' _ hne => query_setBackend hne
      dsimp only
      rw [hx, List.count_nil, show x.buffer.incRecycleLock.recycleLockCount =
        x.buffer.recycleLockCount + 1 from rfl]
      omega

section Batch
variable [DecidableEq ε] {locate : Bytes → ε} {pool : Pool}

/-- The state of the loop over the pairs: one lock for each new subquery. -/
structure Taking (b : ReadBuffer) (n : ℕ) (s : ReadBuffer × RedisMsetCommand ε) : Prop where
  buffer : s.1 = b.locked s.2.waitingSubqueries.length
  locks : outline.locks s.2 ≤ n

theorem Taking.pushPairs {b : ReadBuffer} {n : ℕ} {pairs : List (Bulk × Bulk)}
    {s s' : ReadBuffer × RedisMsetCommand ε} (h : Taking b n s)
    (hp : pairs.foldlM (pushPair locate pool) s = some s') : Taking b n s' := by
  refine Lists.foldlM_preserves (P := Taking b n) (fun s pair s' hs hp => ?_) pairs h hp
  obtain ⟨key, -, hp⟩ := Option.bind_eq_some_iff.mp hp
  obtain rfl := Option.some.inj hp
  obtain ⟨buffer, c⟩ := s
  have hb : buffer = b.locked c.waitingSubqueries.length := hs.buffer
  unfold pushSubquery
  dsimp only
  split
  · refine ⟨?_, le_trans (Outline.locks_le_of_query (c := c) rfl fun b' => ?_) hs.locks⟩
    · rw [hb, List.length_append]
      rfl
    · by_cases he : b' = c.count
      · left
        simp only [setSubquery, he, Function.update_self]
        rfl
      · right
        simp only [setSubquery, Function.update_of_ne he]
  next i _ =>
    refine ⟨hb, le_trans (Outline.locks_le_of_query (c := c) rfl fun b' => .inr ?_) hs.locks⟩
    by_cases he : b' = i
    · simp only [setSubquery, he, Function.update_self]
    · simp only [setSubquery, Function.update_of_ne he]

theorem activateUnparsed_lent {parsed : ℤ} {bulks : List Bulk} {y : Ctx (RedisMsetCommand ε)}
    (hi : Started x.cmd) (hx : x.effects = [])
    (hy : activateUnparsed locate pool parsed bulks x = some y) :
    Lent outline.locks (outline.locks x.cmd) x y := by
  obtain ⟨⟨buffer, c⟩, hpush, hy⟩ := Option.bind_eq_some_iff.mp hy
  obtain ⟨back, -, hy⟩ := Option.bind_eq_some_iff.mp hy
  obtain ⟨total, -, hy⟩ := Option.bind_eq_some_iff.mp hy
  have hstart : Taking x.buffer (outline.locks x.cmd) (x.buffer, x.cmd) :=
    ⟨by rw [hi]; rfl, le_rfl⟩
  have htaking := hstart.pushPairs hpush
  have hbuffer : buffer = x.buffer.locked c.waitingSubqueries.length := htaking.buffer
  have hlocks : outline.locks c ≤ outline.locks x.cmd := htaking.locks
  obtain rfl := Option.some.inj hy
  refine .of_batch hbuffer rfl ?_ hx
  refine (locks_activateWaitingSubquery _ _).trans ?_
  dsimp only
  exact Nat.add_le_add_right hlocks _

theorem processUnparsedPart_lent (hi : Started x.cmd) (hx : x.effects = []) :
    Terminal (processUnparsedPart locate pool x).1.effects ∨
      Lent outline.locks (outline.locks x.cmd) x (processUnparsedPart locate pool x).1 := by
  unfold processUnparsedPart
  cases hp : processUnparsed locate pool x with
  | none =>
    refine .inl ?_
    rw [Option.getD_none, Ctx.emit, hx]
    exact .single rfl
  | some r =>
    refine .inr ?_
    rw [Option.getD_some]
    obtain ⟨⟨parsed, bulks⟩, -, hp⟩ := Option.bind_eq_some_iff.mp hp
    dsimp only at hp
    split at hp
    · obtain rfl := Option.some.inj hp
      exact .refl _ hx
    obtain ⟨⟨parsed, bulks⟩, -, hp⟩ := Option.bind_eq_some_iff.mp hp
    dsimp only at hp
    split at hp
    · obtain rfl := Option.some.inj hp
      dsimp only
      split
      · exact .refl _ hx
      · exact .emit _ hx (by rintro ⟨⟩)
    · obtain ⟨y, hy, hp⟩ := Option.bind_eq_some_iff.mp hp
      obtain rfl := Option.some.inj hp
      exact activateUnparsed_lent hi hx hy

end Batch

theorem lends [DecidableEq ε] (locate : Bytes → ε) (pool : Pool) :
    Lends (handlers locate pool) Started outline.locks fun c =>
      outline.locks c + c.waitingSubqueries.length where
  start x hx := startWriteQuery_lent hx
  continue_ x hx := continueWriteQuery_lent hx
  parse x hx :=
    ⟨rfl, by rw [show ((handlers locate pool).parseUnparsedPart x).1 = x from rfl, hx]; rfl, _, rfl⟩
  process x hi hx := processUnparsedPart_lent hi hx
  becomeFirst x hx hf := ((conduct locate pool).becomeFirst x hf).lent hx
  written b ec x hx hf := ((conduct locate pool).written b ec x hf).lent hx
  backend _ _ _ _ hx hk he hsucc hl :=
    (conduct locate pool).backend_lent (shows_ locate pool) hx hk he hsucc hl

theorem new_locked [DecidableEq ε] [Inhabited ε] {locate : Bytes → ε} {pool : Pool}
    {b b' : ReadBuffer} {ba : BulkArray} (h : new locate pool b ba = some (b', c)) :
    b' = b.locked (outline.locks c + c.waitingSubqueries.length) := by
  have htaking : Taking b 0 (b', c) := by
    unfold new at h
    exact Taking.pushPairs (s := (b, _)) ⟨rfl, (Outline.locks_eq_zero rfl).le⟩ h
  have hbuffer := htaking.buffer
  have hlocks := htaking.locks
  dsimp only at hbuffer hlocks
  rw [Nat.le_zero.mp hlocks, Nat.zero_add]
  exact hbuffer

end RedisMsetCommand

namespace RedisDelCommand
variable {x : Ctx (RedisDelCommand ε)} {c : RedisDelCommand ε}

theorem shows_ [DecidableEq ε] (locate : Bytes → ε) (pool : Pool) :
    outline.Shows (handlers locate pool) := by
  refine Outline.shows_split (fun c b k hk => ?_) (fun _ _ _ => rfl) fun c b k => ⟨_, rfl, rfl⟩
  simp only [handlers] at hk
  split at hk
  next hb => exact ⟨List.mem_toFinset.mpr hb, Option.some.inj hk⟩
  · cases hk

theorem locks_activate (c : RedisDelCommand ε) (b : ℕ) :
    outline.locks (activate c b) ≤ outline.locks c + 1 := by
  refine Outline.locks_le_of_activate (b := b) rfl fun b' hne => ?_
  simp only [activate, setBackend, setSubquery, Function.update_of_ne hne]

theorem locks_activateWaitingSubquery (c : RedisDelCommand ε) :
    outline.locks (activateWaitingSubquery c) ≤ outline.locks c + c.waitingSubqueries.length :=
  Outline.locks_foldl locks_activate c.waitingSubqueries c

theorem startWriteQuery_lent (hx : x.effects = []) :
    Lent outline.locks (outline.locks x.cmd + x.cmd.waitingSubqueries.length) x
      (startWriteQuery x).1 := by
  have hactive := locks_activateWaitingSubquery x.cmd
  have he : (startWriteQuery x).1.effects = [] := hx
  refine ⟨?_, fun _ _ => .refl _⟩
  rw [he, List.count_nil]
  dsimp only [startWriteQuery]
  omega

section Batch
variable [DecidableEq ε] {locate : Bytes → ε} {pool : Pool}

/-- The state of the loop over the keys: one lock for each new subquery. -/
structure Taking (b : ReadBuffer) (n : ℕ) (s : ReadBuffer × RedisDelCommand ε) : Prop where
  buffer : s.1 = b.locked s.2.waitingSubqueries.length
  locks : outline.locks s.2 ≤ n

theorem Taking.pushKeys {b : ReadBuffer} {n : ℕ} {bulks : List Bulk}
    {s s' : ReadBuffer × RedisDelCommand ε} (h : Taking b n s)
    (hp : bulks.foldlM (pushKey locate pool) s = some s') : Taking b n s' := by
  refine Lists.foldlM_preserves (P := Taking b n) (fun s bulk s' hs hp => ?_) bulks h hp
  obtain ⟨key, -, hp⟩ := Option.bind_eq_some_iff.mp hp
  obtain rfl := Option.some.inj hp
  obtain ⟨buffer, c⟩ := s
  have hb : buffer = b.locked c.waitingSubqueries.length := hs.buffer
  unfold pushSubquery
  dsimp only
  split
  · refine ⟨?_, le_trans (Outline.locks_le_of_query (c := c) rfl fun b' => ?_) hs.locks⟩
    · rw [hb, List.length_append]
      rfl
    · by_cases he : b' = c.count
      · left
        simp only [setSubquery, he, Function.update_self]
        rfl
      · right
        simp only [setSubquery, Function.update_of_ne he]
  next i _ =>
    refine ⟨hb, le_trans (Outline.locks_le_of_query (c := c) rfl fun b' => .inr ?_) hs.locks⟩
    by_cases he : b' = i
    · simp only [setSubquery, he, Function.update_self]
    · simp only [setSubquery, Function.update_of_ne he]

theorem processUnparsedPart_lent (hi : Started x.cmd) (hx : x.effects = []) :
    Terminal (processUnparsedPart locate pool x).1.effects ∨
      Lent outline.locks (outline.locks x.cmd) x (processUnparsedPart locate pool x).1 := by
  unfold processUnparsedPart
  cases hp : processUnparsed locate pool x with
  | none =>
    refine .inl ?_
    rw [Option.getD_none, Ctx.emit, hx]
    exact .single rfl
  | some r =>
    refine .inr ?_
    rw [Option.getD_some]
    obtain ⟨⟨parsed, bulks⟩, -, hp⟩ := Option.bind_eq_some_iff.mp hp
    dsimp only at hp
    split at hp
    · obtain rfl := Option.some.inj hp
      exact .refl _ hx
    obtain ⟨⟨parsed, bulks⟩, -, hp⟩ := Option.bind_eq_some_iff.mp hp
    dsimp only at hp
    split at hp
    · obtain rfl := Option.some.inj hp
      dsimp only
      split
      · exact .refl _ hx
      · exact .emit _ hx (by rintro ⟨⟩)
    · obtain ⟨y, hy, hp⟩ := Option.bind_eq_some_iff.mp hp
      obtain rfl := Option.some.inj hp
      obtain ⟨⟨buffer, c⟩, hpush, hy⟩ := Option.bind_eq_some_iff.mp hy
      have hstart : ∀ u, Taking x.buffer (outline.locks x.cmd)
          (x.buffer, { x.cmd with unparsedBulks := u }) := fun u => ⟨by rw [hi]; rfl, le_rfl⟩
      have htaking := (hstart _).pushKeys hpush
      obtain rfl := Option.some.inj hy
      refine .of_batch htaking.buffer rfl ?_ hx
      exact (locks_activateWaitingSubquery c).trans (Nat.add_le_add_right htaking.locks _)

theorem new_locked [Inhabited ε] {b b' : ReadBuffer} {ba : BulkArray}
    (h : new locate pool b ba = some (b', c)) :
    b' = b.locked (outline.locks c + c.waitingSubqueries.length) := by
  have htaking : Taking b 0 (b', c) := by
    obtain ⟨verb, -, h⟩ := Option.bind_eq_some_iff.mp h
    obtain ⟨name, -, h⟩ := Option.bind_eq_some_iff.mp h
    have hempty : ∀ empty : RedisDelCommand ε, empty.waitingSubqueries = [] →
        empty.pendingSubqueries = [] → Taking b 0 (b, empty) := fun empty hw hp =>
      ⟨by rw [hw]; rfl, (Outline.locks_eq_zero hp).le⟩
    dsimp only at h
    split at h
    · exact (hempty _ rfl rfl).pushKeys h
    · obtain ⟨cut, -, h⟩ := Option.bind_eq_some_iff.mp h
      exact (hempty _ rfl rfl).pushKeys h
  have hbuffer := htaking.buffer
  have hlocks := htaking.locks
  dsimp only at hbuffer hlocks
  rw [Nat.le_zero.mp hlocks, Nat.zero_add]
  exact hbuffer

end Batch

theorem lends [DecidableEq ε] (locate : Bytes → ε) (pool : Pool) :
    Lends (handlers locate pool) Started outline.locks fun c =>
      outline.locks c + c.waitingSubqueries.length where
  start x hx := .inr (startWriteQuery_lent hx)
  continue_ x hx := by
    refine .inl ?_
    have hc : ((handlers locate pool).continueWriteQuery x).1 = x.emit .assertFailed := rfl
    rw [hc, Ctx.emit, hx]
    exact .single rfl
  parse x hx :=
    ⟨rfl, by rw [show ((handlers locate pool).parseUnparsedPart x).1 = x from rfl, hx]; rfl, _, rfl⟩
  process x hi hx := processUnparsedPart_lent hi hx
  becomeFirst x hx hf := ((conduct locate pool).becomeFirst x hf).lent hx
  written b ec x hx hf := ((conduct locate pool).written b ec x hf).lent hx
  backend _ _ _ _ hx hk he hsucc hl :=
    (conduct locate pool).backend_lent (shows_ locate pool) hx hk he hsucc hl

end RedisDelCommand

theorem Lent.lift {locks : C → ℕ} {n : ℕ} {wrap : D → C} {x y : Ctx D}
    (h : Lent (fun d => locks (wrap d)) n x y) : Lent locks n (x.as wrap) (y.as wrap) :=
  ⟨h.balance, h.inPlace⟩

/-- The commands of `c`'s class keep to the contract. -/
def LendsInClass (h : Handlers ε C) (I : C → Prop) (locks taken : C → ℕ) (c : C) : Prop :=
  ∃ (D : Type) (hd : Handlers ε D) (wrap : D → C) (d : D), c = wrap d ∧ Lifts h hd wrap ∧
    Lends hd (fun d => I (wrap d)) (fun d => locks (wrap d)) fun d => taken (wrap d)

theorem Lends.of_classes {h : Handlers ε C} {I : C → Prop} {locks taken : C → ℕ}
    (hc : ∀ c, LendsInClass h I locks taken c) : Lends h I locks taken where
  start x hx := by
    obtain ⟨D, hd, wrap, d, hcmd, hl, hc⟩ := hc x.cmd
    obtain ⟨x, rfl⟩ := Ctx.exists_as hcmd
    rw [hl.startWriteQuery]
    exact (hc.start x hx).imp_right Lent.lift
  continue_ x hx := by
    obtain ⟨D, hd, wrap, d, hcmd, hl, hc⟩ := hc x.cmd
    obtain ⟨x, rfl⟩ := Ctx.exists_as hcmd
    rw [hl.continueWriteQuery]
    exact (hc.continue_ x hx).imp_right Lent.lift
  parse x hx := by
    obtain ⟨D, hd, wrap, d, hcmd, hl, hc⟩ := hc x.cmd
    obtain ⟨x, rfl⟩ := Ctx.exists_as hcmd
    rw [hl.parseUnparsedPart]
    exact hc.parse x hx
  process x hi hx := by
    obtain ⟨D, hd, wrap, d, hcmd, hl, hc⟩ := hc x.cmd
    obtain ⟨x, rfl⟩ := Ctx.exists_as hcmd
    rw [hl.processUnparsedPart]
    exact (hc.process x hi hx).imp_right Lent.lift
  becomeFirst x hx hf := by
    obtain ⟨D, hd, wrap, d, hcmd, hl, hc⟩ := hc x.cmd
    obtain ⟨x, rfl⟩ := Ctx.exists_as hcmd
    rw [hl.startWriteReply]
    exact (hc.becomeFirst x hx hf).imp_right Lent.lift
  written b ec x hx hf := by
    obtain ⟨D, hd, wrap, d, hcmd, hl, hc⟩ := hc x.cmd
    obtain ⟨x, rfl⟩ := Ctx.exists_as hcmd
    rw [hl.onWriteReplyFinished]
    exact (hc.written b ec x hx hf).imp_right Lent.lift
  backend b e x k hx hk he hsucc hle := by
    obtain ⟨D, hd, wrap, d, hcmd, hl, hc⟩ := hc x.cmd
    obtain ⟨x, rfl⟩ := Ctx.exists_as hcmd
    rw [hl.onBackend]
    exact (hc.backend b e x k hx ((hl.backend x.cmd b).symm.trans hk) he hsucc hle).imp_right
      Lent.lift

namespace AnyCommand

/-- The locks on the client buffer that a started command holds. -/
def locks : AnyCommand ε → ℕ
  | .local_ c => LocalCommand.outline.locks c
  | .single c => SingleCommand.outline.locks c
  | .memcGet c => MemcGetCommand.outline.locks c
  | .redisMget c => RedisMgetCommand.outline.locks c
  | .redisMset _ c => RedisMsetCommand.outline.locks c
  | .redisDel _ c => RedisDelCommand.outline.locks c

/-- The locks that its constructor has taken for a command. -/
def taken : AnyCommand ε → ℕ
  | .local_ _ | .single _ => 0
  | .memcGet c => c.count
  | .redisMget c => c.count
  | .redisMset _ c => RedisMsetCommand.outline.locks c + c.waitingSubqueries.length
  | .redisDel _ c => RedisDelCommand.outline.locks c + c.waitingSubqueries.length

section Family
variable [DecidableEq ε] [Inhabited ε] (env : Env ε)

theorem lendsInClass (c : AnyCommand ε) :
    LendsInClass (family env).toHandlers Sound locks taken c := by
  cases c with
  | local_ c => exact ⟨_, _, _, c, rfl, lifts_local env, LocalCommand.lends⟩
  | single c => exact ⟨_, _, _, c, rfl, lifts_single env, SingleCommand.lends⟩
  | memcGet c => exact ⟨_, _, _, c, rfl, lifts_memcGet env, MemcGetCommand.lends⟩
  | redisMget c => exact ⟨_, _, _, c, rfl, lifts_redisMget env, RedisMgetCommand.lends⟩
  | redisMset pool c =>
    exact ⟨_, _, _, c, rfl, lifts_redisMset env pool, RedisMsetCommand.lends _ pool⟩
  | redisDel pool c =>
    exact ⟨_, _, _, c, rfl, lifts_redisDel env pool, RedisDelCommand.lends _ pool⟩

/-- A constructor does nothing to the client buffer but lock it. -/
theorem construct_locked {k : ℕ} {b b' : ReadBuffer} {created : Created} {c : AnyCommand ε}
    (h : construct env k b created = some (b', c)) : b' = b.locked (taken c) := by
  cases created with
  | redisBasic ba | redisSet ba =>
    obtain ⟨item, -, h⟩ := Option.bind_eq_some_iff.mp h
    obtain ⟨key, -, h⟩ := Option.bind_eq_some_iff.mp h
    obtain ⟨rfl, rfl⟩ := Prod.mk.inj (Option.some.inj h)
    rfl
  | redisMset ba =>
    obtain ⟨⟨buffer, cmd⟩, hn, h⟩ := Option.bind_eq_some_iff.mp h
    obtain ⟨rfl, rfl⟩ := Prod.mk.inj (Option.some.inj h)
    exact RedisMsetCommand.new_locked hn
  | redisMget ba =>
    obtain ⟨⟨buffer, cmd⟩, hn, h⟩ := Option.bind_eq_some_iff.mp h
    obtain ⟨rfl, rfl⟩ := Prod.mk.inj (Option.some.inj h)
    exact RedisMgetCommand.new_locked hn
  | redisDel ba =>
    obtain ⟨⟨buffer, cmd⟩, hn, h⟩ := Option.bind_eq_some_iff.mp h
    obtain ⟨rfl, rfl⟩ := Prod.mk.inj (Option.some.inj h)
    exact RedisDelCommand.new_locked hn
  | memcGet data size =>
    obtain ⟨⟨buffer, cmd⟩, hn, h⟩ := Option.bind_eq_some_iff.mp h
    obtain ⟨rfl, rfl⟩ := Prod.mk.inj (Option.some.inj h)
    exact MemcGetCommand.new_locked hn
  | memcBasic data =>
    obtain ⟨key, -, h⟩ := Option.bind_eq_some_iff.mp h
    obtain ⟨rfl, rfl⟩ := Prod.mk.inj (Option.some.inj h)
    rfl
  | memcSet key | stats protocol | error reply =>
    obtain ⟨rfl, rfl⟩ := Prod.mk.inj (Option.some.inj h)
    rfl

theorem family_lends : (family env).Lends Sound locks taken where
  toLends := .of_classes (lendsInClass env)
  construct _ b _ b' c h := by
    have hb : b' = b.locked (taken c) := construct_locked env h
    rw [hb]
    exact ⟨le_rfl, ReadBuffer.inPlace_locked⟩

end Family
end AnyCommand
end Yarmproxy
