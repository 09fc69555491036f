import Yarmproxy.CommandClasses

/-! # The contract of commands that are constructed whole

Local commands, commands with one backend, and the two `get`s. Only a Redis storage command looks
at more bytes of its request once it has been started. -/
namespace Yarmproxy

variable {ε C K : Type}

/-- The outline tells all that the contract asks about. -/
structure Tells (h : Handlers ε C) (o : Outline C K) (I : C → Prop) (recv : C → Bool) : Prop where
  inv : ∀ c c', o.core c' = o.core c → I c → I c'
  parsed : ∀ c c', o.core c' = o.core c → h.queryParsingComplete c' = h.queryParsingComplete c
  received : ∀ c c', o.core c' = o.core c → recv c' = recv c

section Tells
variable {h : Handlers ε C} {o : Outline C K} {I : C → Prop} {recv : C → Bool} {x y : Ctx C}

theorem Quiet.minor (ht : Tells h o I recv) (hi : I x.cmd)
    (hq : Quiet o (h.queryRecvComplete x.cmd) x y) : Minor h I recv x y :=
  ⟨hq.kept, ht.inv _ _ hq.core hi, ht.parsed _ _ hq.core, ht.received _ _ hq.core, hq.emits⟩

theorem Conduct.becomeFirst_minor (hc : Conduct h o) (ht : Tells h o I recv) (hi : I x.cmd)
    (hv : x.buffer.Valid) (hx : x.effects = []) (hf : x.first = true) :
    Terminal (h.startWriteReply x).effects ∨ Minor h I recv x (h.startWriteReply x) :=
  (Quiet.of_ends hv hx (hc.becomeFirst x hf)).imp_right (Quiet.minor ht hi)

theorem Conduct.written_minor (hc : Conduct h o) (ht : Tells h o I recv) (b : Option ℕ)
    (ec : ErrorCode) (hi : I x.cmd) (hv : x.buffer.Valid) (hx : x.effects = [])
    (hf : x.first = true) : Terminal (h.onWriteReplyFinished b ec x).effects ∨
      Minor h I recv x (h.onWriteReplyFinished b ec x) :=
  (Quiet.of_ends hv hx (hc.written b ec x hf)).imp_right (Quiet.minor ht hi)

theorem Conduct.backend_minor (hc : Conduct h o) (ht : Tells h o I recv) (b : ℕ) (e : BackendEvent)
    (hi : I x.cmd) (hv : x.buffer.Valid) (hx : x.effects = []) :
    Terminal (h.onBackend b e x).effects ∨ Minor h I recv x (h.onBackend b e x) :=
  (hc.onBackend b e hv hx).imp_right (Quiet.minor ht hi)

end Tells

namespace ReadBuffer
variable {b b' : ReadBuffer} {n m : ℕ}

theorem length_unparsed (hv : b.Valid) : b.unparsed.length = b.unparsedReceivedBytes := by
  rw [unparsed, List.length_drop, unparsedReceivedBytes_eq hv]

theorem bytes_unparsedData (hv : b.Valid) :
    b.unparsedData.bytes b.unparsed.length = b.unparsed := by
  rw [unparsed, List.length_drop]
  by_cases ha : b.ahead ≤ b.queued.length
  · rw [unparsedData_bytes hv (by omega), ← List.length_drop, List.take_length]
  · rw [Nat.sub_eq_zero_of_le (by omega), List.drop_of_length_le (by omega)]
    rfl

theorem length_unparsed_le (hv : b.Valid) : b.unparsed.length ≤ b.unparsedData.rest.length := by
  rw [unparsed, List.length_drop]
  exact unparsedData_rest_length hv

/-- Only the parsed offset has moved on. -/
structure Parsed (b b' : ReadBuffer) : Prop where
  valid : b'.Valid
  queued : b'.queued = b.queued
  bufferSize : b'.bufferSize = b.bufferSize
  ahead : b.ahead ≤ b'.ahead

theorem Parsed.refl (hv : b.Valid) : b.Parsed b := ⟨hv, rfl, rfl, le_rfl⟩

/-- What is received and not parsed is parsed `n` bytes further. -/
theorem parsed_updateParsedBytes (hv : b.Valid) (h0 : 0 < b.unparsedReceivedBytes)
    (hn : n < 2 ^ 63) :
    b.Parsed (b.updateParsedBytes n) ∧ (b.updateParsedBytes n).ahead = b.ahead + n := by
  have hr := hv.received_size
  have hs := hv.size_bound
  rw [unparsedReceivedBytes] at h0
  have hsum : b.parsedOffset + n < 2 ^ 64 := by omega
  have ha := ahead_updateParsedBytes hv hsum
  exact ⟨⟨updateParsedBytes_valid hv hsum, rfl, rfl, by omega⟩, ha⟩

end ReadBuffer

/-- The loop on well-formed bulks: it takes those whose header has arrived. -/
theorem parseUnparsedLoop_items {its : List Item} {rest : Bytes} {b : ReadBuffer} (hv : b.Valid)
    (hsmall : (encodeItems its).length < 2 ^ 31)
    (hbs : b.unparsed = (encodeItems its ++ rest).take b.unparsed.length) :
    ∃ b' m, parseUnparsedLoop its.length b = some (b', m, true) ∧ b.Parsed b' ∧ m ≤ its.length ∧
      (m ≠ its.length → b.ahead < b'.ahead) ∧
        b'.ahead = b.ahead + itemStart its (its.length - m) := by
  induction its generalizing b with
  | nil => exact ⟨b, 0, rfl, .refl hv, le_rfl, absurd rfl, rfl⟩
  | cons it its ih =>
    rw [List.length_cons, parseUnparsedLoop]
    have hwait : ∃ b' m, some (b, its.length + 1, true) = some (b', m, true) ∧ b.Parsed b' ∧
        m ≤ its.length + 1 ∧ (m ≠ its.length + 1 → b.ahead < b'.ahead) ∧
        b'.ahead = b.ahead + itemStart (it :: its) (its.length + 1 - m) :=
      ⟨b, _, rfl, .refl hv, le_rfl, absurd rfl, by rw [Nat.sub_self]; rfl⟩
    split
    next h0 =>
      rw [length_encodeItems_cons] at hsmall
      have hsplit : encodeItems (it :: its) ++ rest = encodeItem it ++
          (encodeItems its ++ rest) := by
        rw [encodeItems, List.flatMap_cons, List.append_assoc]
        rfl
      rw [hsplit] at hbs
      have hlen := ReadBuffer.length_unparsed hv
      have hm : b.unparsedData.rest.take b.unparsedReceivedBytes =
          (encodeItem it ++ (encodeItems its ++ rest)).take b.unparsedReceivedBytes := by
        rw [← hlen]
        exact (ReadBuffer.bytes_unparsedData hv).trans hbs
      have hl : b.unparsedReceivedBytes ≤ b.unparsedData.rest.length :=
        hlen ▸ ReadBuffer.length_unparsed_le hv
      have hp : (Bulk.parse b.unparsedData b.unparsedReceivedBytes).presentSize =
          if b.unparsedReceivedBytes < headerSize it then 0
          else ((min b.unparsedReceivedBytes (itemSize it) : ℕ) : ℤ) :=
        parseSize_item hm hl (by omega) (by omega)
      have h4 := four_le_headerSize it
      have hle := headerSize_le it
      dsimp only
      by_cases hh : b.unparsedReceivedBytes < headerSize it
      · rw [hp, if_pos hh, if_neg (by omega), if_pos rfl]
        exact hwait
      · rw [hp, if_neg hh, if_neg (by omega), if_neg (by omega)]
        have htotal : (Bulk.parse b.unparsedData b.unparsedReceivedBytes).totalSize =
            some (itemSize it) := totalOf_item hm (by omega) (by omega)
        rw [htotal, Option.bind_eq_bind, Option.bind_some]
        obtain ⟨hparsed, hahead⟩ := ReadBuffer.parsed_updateParsedBytes hv h0
          (n := itemSize it) (by omega)
        have hrest : (b.updateParsedBytes (itemSize it)).unparsed =
            b.unparsed.drop (itemSize it) := by
          rw [ReadBuffer.unparsed, ReadBuffer.unparsed, hahead, List.drop_drop]
          rfl
        have htail : b.unparsed.drop (itemSize it) =
            (encodeItems its ++ rest).take (b.unparsed.drop (itemSize it)).length := by
          have hdrop := congrArg (List.drop (itemSize it)) hbs
          rw [List.drop_take] at hdrop
          rw [List.length_drop]
          exact hdrop.trans (by rw [itemSize, List.drop_left])
        obtain ⟨b', m, hloop, hp', hle', -, ha'⟩ := ih hparsed.valid (by omega) (hrest ▸ htail)
        have hstart := itemStart_cons it its (its.length - m)
        rw [← Nat.sub_add_comm hle'] at hstart
        rw [hahead] at ha'
        exact ⟨b', m, hloop, ⟨hp'.valid, hp'.queued, hp'.bufferSize, by omega⟩, by omega,
          fun _ => by omega, by omega⟩
    · exact hwait

theorem parseUnparsedLoop_starts {n : ℕ} {b : ReadBuffer} (hv : b.Valid)
    (hs : StartsBulks n b.unparsed) : ∃ b' m, parseUnparsedLoop n b = some (b', m, true) ∧
      b.Parsed b' ∧ (m ≠ n → b.ahead < b'.ahead) := by
  obtain ⟨its, rest, rfl, hsmall, hbs⟩ := hs
  obtain ⟨b', m, hloop, hp, -, hm, -⟩ := parseUnparsedLoop_items hv hsmall hbs
  exact ⟨b', m, hloop, hp, hm⟩

theorem Conduct.disciplined_of_complete {h : Handlers ε C} {o : Outline C K} (hc : Conduct h o)
    (hr : ∀ c, h.queryRecvComplete c = true) (hp : ∀ c, h.queryParsingComplete c = true)
    (hb : ∀ x, (h.startWriteQuery x).1.buffer = x.buffer)
    (he : ∀ x, x.effects = [] → ∀ e ∈ (h.startWriteQuery x).1.effects,
      e.plain x.first true = true) :
    Disciplined h (fun _ => True) (fun _ => true) (fun _ => True) fun _ _ => True := by
  have ht : Tells h o (fun _ => True) fun _ => true :=
    ⟨fun _ _ _ _ => trivial, fun c c' _ => (hp c').trans (hp c).symm, fun _ _ _ => rfl⟩
  exact {
    complete := fun c _ => by rw [hr, hp]; rfl
    start := fun x _ hv hx => .inr ⟨.of_eq hv (hb x), trivial, (hp _).trans (hp _).symm,
      fun _ _ => rfl, fun _ => .inl rfl, he x hx⟩
    continue_ := fun _ _ _ _ hr => nomatch hr
    parse := fun _ _ _ _ hr' => absurd ((hr _).symm.trans hr') nofun
    process := fun _ _ _ _ hp' => absurd ((hp _).symm.trans hp') nofun
    becomeFirst := fun _ hi hv hx hf => hc.becomeFirst_minor ht hi hv hx hf
    written := fun b ec _ hi hv hx hf => hc.written_minor ht b ec hi hv hx hf
    backend := fun b e _ hi hv hx => hc.backend_minor ht b e hi hv hx }

theorem plain_of_first {data : Bytes} {first : Bool} {es : List Effect}
    (he : es = if first then [.writeReply data none] else []) :
    ∀ e ∈ es, e.plain first true = true := by
  intro e hm
  rw [he] at hm
  split at hm
  next hf =>
    rw [List.mem_singleton.mp hm]
    exact hf
  · cases hm

namespace LocalCommand

theorem conduct : Conduct (handlers (ε := ε)) outline where
  complete _ _ _ := rfl
  core_setBackend _ _ _ := rfl
  sent _ _ _ := .emit_fatal rfl
  received _ _ _ := .emit_fatal rfl
  becomeFirst _ hf := .steps (startWriteReply_steps hf)
  written b _ _ hf := onWriteReplyFinished_ends b hf rfl

theorem disciplined : Disciplined (handlers (ε := ε)) (fun _ => True) (fun _ => true)
    (fun _ => True) fun _ _ => True := by
  refine conduct.disciplined_of_complete (fun _ => rfl) (fun _ => rfl) (fun x => ?_) fun x hx => ?_
  · dsimp only [handlers, startWriteQuery]
    split <;> rfl
  · apply plain_of_first
    dsimp only [handlers, startWriteQuery, startWriteReply, Ctx.emit]
    split <;> rw [hx]
    rfl

end LocalCommand

namespace SingleCommand

theorem conduct : Conduct (handlers (ε := ε)) outline where
  complete c c' hc := by
    obtain ⟨hk, -, hr⟩ : c'.kind = c.kind ∧ c'.unparsedBulks = c.unparsedBulks ∧
      c'.queryReceived = c.queryReceived := by simpa [outline] using hc
    simp only [handlers, queryRecvComplete, hk, hr]
  core_setBackend _ _ _ := rfl
  sent b ec _ := onWriteQueryFinished_sent b ec rfl
  received _ ec _ := onBackendReplyReceived_ends ec rfl
  becomeFirst _ hf := .steps (startWriteReply_steps hf)
  written _ ec _ hf := onWriteReplyFinished_ends ec hf rfl

variable {x : Ctx (SingleCommand ε)} {c : SingleCommand ε}

/-- A storage command is complete only when all its bulks have been parsed. -/
def Consistent (c : SingleCommand ε) : Prop :=
  c.kind = .redisSet → c.queryReceived = true → c.unparsedBulks = 0

/-- The rest of the request. -/
def Rest (c : SingleCommand ε) (bs : Bytes) : Prop :=
  c.kind = .redisSet → StartsBulks c.unparsedBulks bs

theorem of_core {c c' : SingleCommand ε} (h : outline.core c' = outline.core c) :
    c'.kind = c.kind ∧ c'.unparsedBulks = c.unparsedBulks ∧ c'.queryReceived = c.queryReceived := by
  simpa [outline] using h

theorem tells : Tells (handlers (ε := ε)) outline Consistent queryRecvComplete := by
  refine ⟨fun c c' hc hi => ?_, fun c c' hc => ?_, fun c c' hc => conduct.complete c c' hc⟩
  · obtain ⟨hk, hu, hr⟩ := of_core hc
    rwa [Consistent, hk, hu, hr]
  · obtain ⟨hk, hu, -⟩ := of_core hc
    simp only [handlers, queryParsingComplete, hk, hu]

/-- What `CheckQueryRecvComplete` makes of a command. -/
structure Checked (buffer : ReadBuffer) (c c' : SingleCommand ε) : Prop where
  inv : Consistent c'
  parsed : c'.queryParsingComplete = c.queryParsingComplete
  complete : c.queryParsingComplete = true → buffer.parsedUnreceivedBytes = 0 →
    c'.queryRecvComplete = true
  received : c'.queryRecvComplete = true →
    c.queryRecvComplete = true ∨ buffer.parsedUnreceivedBytes = 0

theorem checkQueryRecvComplete_checked (hi : Consistent c) (buffer : ReadBuffer) :
    Checked buffer c (c.checkQueryRecvComplete buffer) := by
  cases hk : c.kind with
  | redisBasic | memcBasic =>
    simp only [checkQueryRecvComplete, hk]
    exact ⟨hi, rfl, fun _ _ => by rw [queryRecvComplete, hk], .inl⟩
  | redisSet =>
    simp only [checkQueryRecvComplete, hk]
    split
    next hc =>
      exact ⟨fun _ _ => hc.2,
        by simp only [queryParsingComplete, hk], fun _ _ => rfl, fun _ => .inr hc.1⟩
    next hc =>
      refine ⟨hi, rfl, fun hp h0 => ?_, .inl⟩
      simp only [queryParsingComplete, hk] at hp
      exact absurd ⟨h0, beq_iff_eq.mp hp⟩ hc
  | memcSet =>
    simp only [checkQueryRecvComplete, hk]
    split
    next h0 =>
      exact ⟨nofun, by simp only [queryParsingComplete, hk], fun _ _ => rfl, fun _ => .inr h0⟩
    next h0 => exact ⟨hi, rfl, fun _ h => absurd h h0, .inl⟩

theorem Checked.sends {c : SingleCommand ε} {y : Ctx (SingleCommand ε)}
    (hc : Checked x.buffer x.cmd c) (hcore : outline.core y.cmd = outline.core c)
    (hk : x.buffer.Kept y.buffer) (he : ∀ e ∈ y.effects, e.plain x.first true = true) :
    Sends handlers Consistent queryRecvComplete x y where
  kept := hk
  inv := tells.inv _ _ hcore hc.inv
  parsed := (tells.parsed _ _ hcore).trans hc.parsed
  complete hp h0 := (tells.received _ _ hcore).trans (hc.complete hp h0)
  received hr := hc.received ((tells.received _ _ hcore).symm.trans hr)
  plain := he

theorem startWriteQuery_sends (hi : Consistent x.cmd) (hv : x.buffer.Valid) (hx : x.effects = []) :
    Sends handlers Consistent queryRecvComplete x (startWriteQuery x).1 :=
  (checkQueryRecvComplete_checked hi x.buffer).sends rfl (ReadBuffer.Kept.refl hv).incRecycleLock
    (by rw [show (startWriteQuery x).1.effects = x.effects from rfl, hx]; rintro _ ⟨⟩)

theorem continueWriteQuery_sends (hi : Consistent x.cmd) (hv : x.buffer.Valid)
    (hx : x.effects = []) :
    Terminal (continueWriteQuery x).1.effects ∨
      Sends handlers Consistent queryRecvComplete x (continueWriteQuery x).1 := by
  have hc := checkQueryRecvComplete_checked hi x.buffer
  have hkept := ReadBuffer.Kept.refl hv
  cases hk : x.cmd.kind with
  | redisBasic | memcBasic =>
    refine .inl ?_
    simp only [continueWriteQuery, hk, Ctx.emit, hx]
    exact .single rfl
  | redisSet | memcSet =>
    refine .inr ?_
    simp only [continueWriteQuery, hk]
    split
    · split
      · exact hc.sends rfl hkept (by rw [hx]; rintro _ ⟨⟩)
      split
      next hf =>
        have hs := tryWriteReply_steps (k := true)
          (x := { x with cmd := x.cmd.checkQueryRecvComplete x.buffer }) hf
        obtain ⟨es, he, hp⟩ := hs.effects
        refine hc.sends hs.still.core (.of_eq hv hs.buffer) fun e hm => ?_
        rw [he, hx] at hm
        exact (hp e hm).1
      · exact hc.sends rfl hkept (by rw [hx]; rintro _ ⟨⟩)
    · exact hc.sends rfl hkept.incRecycleLock (by rw [writeUnprocessed, hx]; rintro _ ⟨⟩)

theorem parseUnparsedPart_parses (hi : Consistent x.cmd) (hv : x.buffer.Valid) (hx : x.effects = [])
    (hr : x.cmd.queryRecvComplete = false) (hR : x.cmd.Rest x.buffer.unparsed) :
    (parseUnparsedPart x).2 = true ∧
      Parses handlers Consistent queryRecvComplete x (parseUnparsedPart x).1 := by
  cases hk : x.cmd.kind with
  | redisSet =>
    obtain ⟨b, m, hloop, hp, hm⟩ := parseUnparsedLoop_starts hv (hR hk)
    have hreceived : x.cmd.queryReceived = false := by simpa only [queryRecvComplete, hk] using hr
    simp only [parseUnparsedPart, hk, hloop]
    refine ⟨trivial, hp.valid, hp.queued, hp.bufferSize, fun _ h => ?_, ?_, hp.ahead, fun h => ?_,
      fun h => ?_, hx⟩
    · exact absurd (hreceived.symm.trans h) nofun
    · simp only [queryRecvComplete, hk]
    · exact absurd (hr.symm.trans h) nofun
    · simp only [handlers, queryParsingComplete, hk, beq_iff_eq] at h ⊢
      by_cases h0 : m = x.cmd.unparsedBulks
      · exact .inl (h0.symm.trans h)
      · exact .inr (hm h0)
  | _ =>
    simp only [parseUnparsedPart, hk]
    exact ⟨trivial, hv, rfl, rfl, hi, rfl, le_rfl, fun _ => rfl, .inl, hx⟩

theorem disciplined :
    Disciplined (handlers (ε := ε)) Consistent queryRecvComplete Consistent Rest where
  complete c hi := by
    cases hk : c.kind with
    | redisSet =>
      simp only [handlers, queryRecvComplete, queryParsingComplete, hk]
      cases hr : c.queryReceived with
      | true => rw [hi hk hr]; rfl
      | false => rfl
    | _ => simp only [handlers, queryRecvComplete, queryParsingComplete, hk, Bool.and_true]
  start x hi hv hx := .inr (startWriteQuery_sends hi hv hx)
  continue_ x hi hv hx _ := continueWriteQuery_sends hi hv hx
  parse x hi hv hx hr hR := .inr (.inr (parseUnparsedPart_parses hi hv hx hr hR))
  process x hi hv hx hp h0 _ := by
    refine .inr (.inr ⟨rfl, hv, hi, fun _ => h0, fun h => ?_, .inl hx⟩)
    exact absurd (hp.symm.trans h) nofun
  becomeFirst x hi hv hx hf := conduct.becomeFirst_minor tells hi hv hx hf
  written b ec x hi hv hx hf := conduct.written_minor tells b ec hi hv hx hf
  backend b e x hi hv hx := conduct.backend_minor tells b e hi hv hx

end SingleCommand

namespace MemcGetCommand

theorem conduct : Conduct (handlers (ε := ε)) outline where
  complete _ _ _ := rfl
  core_setBackend _ _ _ := rfl
  sent b ec _ := onWriteQueryFinished_sent b ec
  received b ec _ := onBackendReplyReceived_ends b ec
  becomeFirst _ hf := startWriteReply_ends hf
  written b ec _ hf := onWriteReplyFinished_ends b ec hf

theorem disciplined : Disciplined (handlers (ε := ε)) (fun _ => True) (fun _ => true)
    (fun _ => True) fun _ _ => True :=
  conduct.disciplined_of_complete (fun _ => rfl) (fun _ => rfl) (fun _ => rfl) fun x hx e he => by
    rw [show (handlers.startWriteQuery x).1.effects = x.effects from rfl, hx] at he
    cases he

end MemcGetCommand

namespace RedisMgetCommand

theorem conduct : Conduct (handlers (ε := ε)) outline where
  complete _ _ _ := rfl
  core_setBackend _ _ _ := rfl
  sent b ec _ := onWriteQueryFinished_sent b ec
  received b ec _ := onBackendReplyReceived_ends b ec
  becomeFirst _ hf := startWriteReply_ends hf
  written b ec _ hf := onWriteReplyFinished_ends b ec hf

theorem disciplined : Disciplined (handlers (ε := ε)) (fun _ => True) (fun _ => true)
    (fun _ => True) fun _ _ => True := by
  refine conduct.disciplined_of_complete (fun _ => rfl) (fun _ => rfl) (fun x => ?_) fun x hx => ?_
  · dsimp only [handlers, startWriteQuery]
    split <;> rfl
  · apply plain_of_first
    dsimp only [handlers, startWriteQuery, startWriteReply, Ctx.emit]
    split <;> rw [hx]
    rfl

end RedisMgetCommand

end Yarmproxy
