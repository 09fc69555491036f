import Yarmproxy.BackendConn
import Yarmproxy.Transition
import Mathlib.Logic.Function.Basic

/-! # The backend pool

The connection objects are numbered in the order of their creation; a `shared_ptr` is the
number of its object. Between the calls of the pool the commands and the handlers may change
every connection that is not idle. -/
namespace Yarmproxy

structure BackendConnPool (ε : Type) where
  connMap : ε → Option (List ℕ)
  activeConns : ℕ → Option ε
  /-- the connection objects, of which the first `created` exist -/
  conns : ℕ → BackendConn ε
  created : ℕ

namespace BackendConnPool
variable {ε : Type}

def empty (conns : ℕ → BackendConn ε) :
    BackendConnPool ε := ⟨fun _ => none, fun _ => none, conns, 0⟩

def idle (p : BackendConnPool ε) (ep : ε) : List ℕ := (p.connMap ep).getD []

def modify (p : BackendConnPool ε) (c : ℕ) (f : BackendConn ε → BackendConn ε) :
    BackendConnPool ε :=
  { p with conns := Function.update p.conns c (f (p.conns c)) }

/-- `active_conns_.insert`: an entry that exists stays. -/
def activate (p : BackendConnPool ε) (c : ℕ) (ep : ε) : BackendConnPool ε :=
  if (p.activeConns c).isSome then p
  else { p with activeConns := Function.update p.activeConns c (some ep) }

/-- `Allocate`, with the buffer memory of a new connection. -/
def allocate [DecidableEq ε] (p : BackendConnPool ε) (ep : ε) (data : Bytes) :
    BackendConnPool ε × ℕ :=
  match p.connMap ep with
  | some (c :: queue) =>
    ({ p with connMap := Function.update p.connMap ep (some queue) }.activate c ep, c)
  | _ =>
    ({ p with
      conns := Function.update p.conns p.created (.allocated ep data false)
      created := p.created + 1 }.activate p.created ep, p.created)

/-- `Release` reads `ep` through a reference into the map node that it has erased: these are the
endpoints that `find` and `operator[]` read out of the freed memory. -/
structure FreedNode (ε : Type) where
  found : ε
  stored : ε
  deriving DecidableEq, Repr

def release [DecidableEq ε] (maxIdle : ℕ) (p : BackendConnPool ε) (c : ℕ) (node : FreedNode ε) :
    BackendConnPool ε :=
  match p.activeConns c with
  | none => p
  | some _ =>
    let p := { p with activeConns := Function.update p.activeConns c none }
    if !(p.conns c).recyclable then p.modify c .close
    else
      match p.connMap node.found with
      | none =>
        { p.modify c .reset with
          connMap := Function.update p.connMap node.stored (some (p.idle node.stored ++ [c])) }
      | some queue =>
        if queue.length ≥ maxIdle then p.modify c .close
        else { p.modify c .reset with
          connMap := Function.update p.connMap node.found (some (queue ++ [c])) }

/-- What may happen to a connection between two calls: its endpoint stays, and what is
aborted (by `Abort`, that is) is not recyclable any more. -/
def Used (c c' : BackendConn ε) : Prop :=
  c'.remoteEndpoint = c.remoteEndpoint ∧ (c.noRecycle → c'.noRecycle) ∧ (c.aborted → c'.aborted) ∧
    (c'.aborted → c.aborted ∨ c'.noRecycle)

instance [DecidableEq ε] (c c' : BackendConn ε) :
    Decidable (Used c c') := inferInstanceAs (Decidable (_ ∧ _))

/-- What commands and handlers call on a connection; the buffer is theirs to change. -/
inductive Method where
  | writeQuery (at_ : Option ℕ) (data : Bytes)
  | readReply
  | tryReadMoreReply
  | setReplyData (data : Bytes) (parsed : Bool)
  | setReplyRecvComplete
  | setNoRecycle
  | abort
  | handle (e : BackendEvent)
  | settle (e : BackendEvent)
  | setBuffer (b : ReadBuffer)

def Method.apply (c : BackendConn ε) : Method → BackendConn ε
  | .writeQuery at_ data => c.writeQuery at_ data
  | .readReply => c.readReply
  | .tryReadMoreReply => c.tryReadMoreReply
  | .setReplyData data parsed => c.setReplyData data parsed
  | .setReplyRecvComplete => c.setReplyRecvComplete
  | .setNoRecycle => c.setNoRecycle
  | .abort => c.abort
  | .handle e => (c.handle e).1
  | .settle e => c.settle e
  | .setBuffer b => { c with buffer := b }

theorem Used.of_same {c c' : BackendConn ε} (hep : c'.remoteEndpoint = c.remoteEndpoint)
    (hno : c'.noRecycle = c.noRecycle) (hab : c'.aborted = c.aborted) : Used c c' :=
  ⟨hep, fun h => hno ▸ h, fun h => hab ▸ h, fun h => .inl (hab ▸ h)⟩

theorem used_abort (c : BackendConn ε) : Used c c.abort := by
  rw [BackendConn.abort]
  split
  · exact .of_same rfl rfl rfl
  · exact ⟨rfl, fun _ => rfl, fun _ => rfl, fun _ => .inr rfl⟩

/-- Every method of a connection, `Close` and `Reset` apart, is a use of it. -/
theorem used_method (c : BackendConn ε) (m : Method) : Used c (m.apply c) := by
  cases m with
  | writeQuery at_ data =>
    obtain ⟨op, opened, timer, heq⟩ := c.writeQuery_eq at_ data
    rw [Method.apply, heq]
    exact .of_same rfl rfl rfl
  | readReply => exact .of_same rfl rfl rfl
  | tryReadMoreReply =>
    rw [Method.apply, BackendConn.tryReadMoreReply]
    split <;> exact .of_same rfl rfl rfl
  | setReplyData => exact .of_same rfl rfl rfl
  | setReplyRecvComplete => exact .of_same rfl rfl rfl
  | setNoRecycle => exact ⟨rfl, fun _ => rfl, id, .inl⟩
  | abort => exact used_abort c
  | handle e =>
    cases e with
    | connected | queryWritten =>
      rw [Method.apply, BackendConn.handle]
      split <;> exact .of_same rfl rfl rfl
    | _ => exact .of_same rfl rfl rfl
  | settle e =>
    cases e with
    | connectTimeout | writeTimeout | readTimeout => exact used_abort c
    | _ => exact .of_same rfl rfl rfl
  | setBuffer => exact .of_same rfl rfl rfl

inductive Event (ε : Type) where
  | allocate (ep : ε) (data : Bytes)
  | release (c : ℕ) (node : FreedNode ε)
  | use (c : ℕ) (after : BackendConn ε)

def Enabled (p : BackendConnPool ε) : Event ε → Prop
  | .allocate _ _ => True
  | .release c _ => c < p.created
  | .use c after => c < p.created ∧ c ∉ p.idle (p.conns c).remoteEndpoint ∧ Used (p.conns c) after

instance [DecidableEq ε] (p : BackendConnPool ε) (e : Event ε) : Decidable (p.Enabled e) := by
  cases e <;> simp only [Enabled] <;> infer_instance

def next [DecidableEq ε] (maxIdle : ℕ) (p : BackendConnPool ε) : Event ε → BackendConnPool ε
  | .allocate ep data => (p.allocate ep data).1
  | .release c node => p.release maxIdle c node
  | .use c after => p.modify c fun _ => after

def system [DecidableEq ε] (maxIdle : ℕ) : Transition.System (BackendConnPool ε) (Event ε) :=
  ⟨Enabled, next maxIdle⟩

instance [DecidableEq ε] (maxIdle : ℕ) (p : BackendConnPool ε) (e : Event ε) :
    Decidable ((system maxIdle).Enabled p e) :=
  inferInstanceAs (Decidable (p.Enabled e))

/-- The erased node of a connection that goes back to its queue still holds the endpoint. -/
def NodeIntact (p : BackendConnPool ε) : Event ε → Prop
  | .release c node => (p.conns c).recyclable = true → ∀ ep ∈ p.activeConns c, node = ⟨ep, ep⟩
  | _ => True

instance [DecidableEq ε] (p : BackendConnPool ε) : ∀ e, Decidable (p.NodeIntact e)
  | .release _ _ => inferInstanceAs (Decidable (_ → _))
  | .allocate _ _ | .use _ _ => .isTrue trivial

/-- The reply flags and the buffer as `Reset` leaves them, on a connection that is neither
closed nor excluded from reuse. -/
structure Rested (c : BackendConn ε) : Prop where
  isReadingReply : c.isReadingReply = false
  hasReadSomeReply : c.hasReadSomeReply = false
  replyRecvComplete : c.replyRecvComplete = false
  buffer : c.buffer = c.buffer.reset
  aborted : c.aborted = false
  noRecycle : c.noRecycle = false

structure Invariant (maxIdle : ℕ) (p : BackendConnPool ε) : Prop where
  active : ∀ c ep, p.activeConns c = some ep → c < p.created ∧ (p.conns c).remoteEndpoint = ep ∧
    ((p.conns c).aborted → (p.conns c).noRecycle)
  idle : ∀ c ep, c ∈ p.idle ep → c < p.created ∧ p.activeConns c = none ∧
    (p.conns c).remoteEndpoint = ep ∧ Rested (p.conns c)
  nodup : ∀ ep, (p.idle ep).Nodup
  bound : ∀ ep, (p.idle ep).length ≤ max 1 maxIdle

/-- Every connection in one place at most, and what `Allocate` and `Release` promise. -/
structure Exclusive [DecidableEq ε] (maxIdle : ℕ) (p : BackendConnPool ε) : Prop where
  idle_once : ∀ ep, (p.idle ep).Nodup
  idle_apart : ∀ c ep ep', c ∈ p.idle ep → c ∈ p.idle ep' → ep = ep'
  active_apart : ∀ c ep ep', p.activeConns c = some ep → c ∉ p.idle ep'
  rested : ∀ c ep, c ∈ p.idle ep → (p.conns c).remoteEndpoint = ep ∧ Rested (p.conns c)
  bound : ∀ ep, (p.idle ep).length ≤ max 1 maxIdle
  /-- the connection was not active, so that it is inserted with its endpoint -/
  allocated : ∀ ep data, p.activeConns (p.allocate ep data).2 = none ∧
    (p.allocate ep data).1.activeConns (p.allocate ep data).2 = some ep ∧
    ((p.allocate ep data).1.conns (p.allocate ep data).2).remoteEndpoint = ep
  /-- what `Release` has closed is never handed out again -/
  closed : ∀ c < p.created, ∀ node, p.NodeIntact (.release c node) →
    ((p.release maxIdle c node).conns c).aborted = true →
    ∀ p', Transition.Execution (system maxIdle) NodeIntact (p.release maxIdle c node) p' →
      ∀ ep data, (p'.allocate ep data).2 ≠ c

variable {maxIdle : ℕ} {p : BackendConnPool ε} {ep : ε} {c : ℕ} {data : Bytes} {node : FreedNode ε}

theorem empty_invariant (conns : ℕ → BackendConn ε) : (empty conns).Invariant maxIdle :=
  ⟨nofun, nofun, fun _ => List.nodup_nil, fun _ => Nat.zero_le _⟩

theorem rested_reset {c : BackendConn ε} (hrec : c.recyclable = true)
    (hab : c.aborted → c.noRecycle) :
    Rested c.reset := by
  have hno : c.noRecycle = false := by
    rw [BackendConn.recyclable, Bool.and_eq_true, Bool.not_eq_true'] at hrec
    exact hrec.1
  have haborted : c.aborted = false := by
    cases ha : c.aborted with
    | false => rfl
    | true => exact absurd (hab ha) (by simp [hno])
  exact ⟨rfl, rfl, rfl, rfl, haborted, hno⟩

theorem use_invariant {after : BackendConn ε} (h : p.Invariant maxIdle)
    (he : p.Enabled (.use c after)) : (p.modify c fun _ => after).Invariant maxIdle := by
  obtain ⟨_, hnot, hend, hno, hab, hab'⟩ := he
  refine ⟨fun d ep' hd => ?_, fun d ep' hd => ?_, h.nodup, h.bound⟩
  · obtain ⟨hlt, hep, hact⟩ := h.active d ep' hd
    by_cases hdc : d = c
    · subst hdc
      simp only [modify, Function.update_self]
      refine ⟨hlt, hend.trans hep, fun haft => ?_⟩
      rcases hab' haft with hbefore | hafter
      · exact hno (hact hbefore)
      · exact hafter
    · simp only [modify, Function.update_of_ne hdc]
      exact ⟨hlt, hep, hact⟩
  · have hidle := h.idle d ep' hd
    have hdc : d ≠ c := by
      rintro rfl
      exact hnot (hidle.2.2.1 ▸ hd)
    simp only [modify, Function.update_of_ne hdc]
    exact hidle

theorem ne_of_active {c d : ℕ} (hc : p.activeConns c = none) (hd : p.activeConns d = some ep) :
    c ≠ d := by
  rintro rfl
  rw [hc] at hd
  cases hd

theorem active_released {d : ℕ} (h : Function.update p.activeConns c none d = some ep) :
    d ≠ c ∧ p.activeConns d = some ep := by
  by_cases hdc : d = c
  · subst hdc
    rw [Function.update_self] at h
    cases h
  · rw [Function.update_of_ne hdc] at h
    exact ⟨hdc, h⟩

section Steps
variable [DecidableEq ε]

theorem idle_update (m : ε → Option (List ℕ)) (active : ℕ → Option ε) (conns : ℕ → BackendConn ε)
    (n : ℕ) (ep ep' : ε) (queue : List ℕ) :
    idle ⟨Function.update m ep (some queue), active, conns, n⟩ ep' =
      if ep' = ep then queue else idle ⟨m, active, conns, n⟩ ep' := by
  by_cases h : ep' = ep
  · subst h
    simp [idle]
  · simp [idle, h]

/-- The two ways of `Allocate`; neither finds its connection among the active ones. -/
theorem allocate_cases (h : p.Invariant maxIdle) (ep : ε) (data : Bytes) :
    (∃ c queue, p.idle ep = c :: queue ∧ p.activeConns c = none ∧ p.allocate ep data =
      (⟨Function.update p.connMap ep (some queue), Function.update p.activeConns c (some ep),
        p.conns, p.created⟩, c)) ∨
    (p.activeConns p.created = none ∧ p.allocate ep data =
      (⟨p.connMap, Function.update p.activeConns p.created (some ep),
        Function.update p.conns p.created (.allocated ep data false), p.created + 1⟩,
        p.created)) := by
  rw [allocate]
  split
  next c queue hq =>
    have hidle : p.idle ep = c :: queue := by rw [idle, hq, Option.getD_some]
    have hnone : p.activeConns c = none := (h.idle c ep (hidle ▸ List.mem_cons_self)).2.1
    refine .inl ⟨c, queue, hidle, hnone, ?_⟩
    rw [activate, if_neg (by simp [hnone])]
  next =>
    have hnone : p.activeConns p.created = none := by
      cases ha : p.activeConns p.created with
      | none => rfl
      | some ep => exact absurd (h.active _ _ ha).1 (Nat.lt_irrefl _)
    refine .inr ⟨hnone, ?_⟩
    rw [activate, if_neg (by simp [hnone])]

theorem release_cases (maxIdle : ℕ) (hn : p.NodeIntact (.release c node)) :
    (p.activeConns c = none ∧ p.release maxIdle c node = p) ∨
    ∃ ep, p.activeConns c = some ep ∧
      (p.release maxIdle c node = ⟨p.connMap, Function.update p.activeConns c none,
          Function.update p.conns c (p.conns c).close, p.created⟩ ∨
        (p.conns c).recyclable = true ∧ (p.idle ep).length < max 1 maxIdle ∧
        p.release maxIdle c node = ⟨Function.update p.connMap ep (some (p.idle ep ++ [c])),
          Function.update p.activeConns c none, Function.update p.conns c (p.conns c).reset,
          p.created⟩) := by
  rw [release]
  split
  next hnone => exact .inl ⟨hnone, rfl⟩
  next ep hep =>
    refine .inr ⟨ep, hep, ?_⟩
    dsimp only
    split
    next => exact .inl rfl
    next hrec =>
      have hrec : (p.conns c).recyclable = true := by simpa using hrec
      obtain rfl := hn hrec ep hep
      dsimp only
      split
      next hmap =>
        have hidle : p.idle ep = [] := by rw [idle, hmap, Option.getD_none]
        refine .inr ⟨hrec, ?_, rfl⟩
        rw [hidle, List.length_nil]
        omega
      next queue hmap =>
        have hidle : p.idle ep = queue := by rw [idle, hmap, Option.getD_some]
        split
        next => exact .inl rfl
        next hlen =>
          refine .inr ⟨hrec, ?_, ?_⟩
          · rw [hidle]
            omega
          · rw [hidle]
            rfl

theorem allocate_invariant (h : p.Invariant maxIdle) :
    (p.allocate ep data).1.Invariant maxIdle := by
  rcases allocate_cases h ep data with ⟨c, queue, hidle, hnone, heq⟩ | ⟨hnone, heq⟩
  · rw [heq]
    obtain ⟨hlt, _, hep, hrest⟩ := h.idle c ep (hidle ▸ List.mem_cons_self)
    have hnodup := h.nodup ep
    rw [hidle, List.nodup_cons] at hnodup
    have hbound := h.bound ep
    rw [hidle, List.length_cons] at hbound
    refine ⟨fun d ep' hd => ?_, fun d ep' hd => ?_, fun ep' => ?_, fun ep' => ?_⟩
    · by_cases hdc : d = c
      · subst hdc
        simp only [Function.update_self] at hd
        obtain rfl := Option.some.inj hd
        exact ⟨hlt, hep, fun hab => absurd hab (by simp [hrest.aborted])⟩
      · simp only [Function.update_of_ne hdc] at hd
        exact h.active d ep' hd
    · rw [idle_update] at hd
      have hmem : d ∈ p.idle ep' ∧ d ≠ c := by
        split at hd
        next he =>
          subst he
          refine ⟨hidle ▸ List.mem_cons_of_mem _ hd, ?_⟩
          rintro rfl
          exact hnodup.1 hd
        next he =>
          refine ⟨hd, ?_⟩
          rintro rfl
          exact he ((h.idle d ep' hd).2.2.1.symm.trans hep)
      obtain ⟨hlt', hnone', hep', hrest'⟩ := h.idle d ep' hmem.1
      exact ⟨hlt', (Function.update_of_ne hmem.2 _ _).trans hnone', hep', hrest'⟩
    · rw [idle_update]
      split
      · exact hnodup.2
      · exact h.nodup ep'
    · rw [idle_update]
      split
      · omega
      · exact h.bound ep'
  · rw [heq]
    refine ⟨fun d ep' hd => ?_, fun d ep' hd => ?_, h.nodup, h.bound⟩
    · by_cases hdc : d = p.created
      · subst hdc
        simp only [Function.update_self] at hd
        obtain rfl := Option.some.inj hd
        simp [BackendConn.allocated]
      · simp only [Function.update_of_ne hdc] at hd
        obtain ⟨hlt, hep, hab⟩ := h.active d ep' hd
        simp only [Function.update_of_ne hdc]
        exact ⟨by omega, hep, hab⟩
    · obtain ⟨hlt, hnone', hep, hrest⟩ := h.idle d ep' hd
      have hdc : d ≠ p.created := by omega
      simp only [Function.update_of_ne hdc]
      exact ⟨by omega, hnone', hep, hrest⟩

theorem release_invariant (h : p.Invariant maxIdle) (hn : p.NodeIntact (.release c node)) :
    (p.release maxIdle c node).Invariant maxIdle := by
  rcases release_cases maxIdle hn with ⟨_, heq⟩ | ⟨ep, hep, heq | ⟨hrec, hlen, heq⟩⟩
  · rw [heq]
    exact h
  · rw [heq]
    refine ⟨fun d ep' hd => ?_, fun d ep' hd => ?_, h.nodup, h.bound⟩
    · obtain ⟨hdc, hd⟩ := active_released hd
      simp only [Function.update_of_ne hdc]
      exact h.active d ep' hd
    · obtain ⟨hlt, hnone, hep', hrest⟩ := h.idle d ep' hd
      have hdc := ne_of_active hnone hep
      simp only [Function.update_of_ne hdc]
      exact ⟨hlt, hnone, hep', hrest⟩
  · rw [heq]
    obtain ⟨hlt, hown, hab⟩ := h.active c ep hep
    have hnot : ∀ ep', c ∉ p.idle ep' := fun ep' hmem =>
      ne_of_active (h.idle c ep' hmem).2.1 hep rfl
    refine ⟨fun d ep' hd => ?_, fun d ep' hd => ?_, fun ep' => ?_, fun ep' => ?_⟩
    · obtain ⟨hdc, hd⟩ := active_released hd
      simp only [Function.update_of_ne hdc]
      exact h.active d ep' hd
    · rw [idle_update] at hd
      by_cases hdc : d = c
      · subst hdc
        split at hd
        next he =>
          subst he
          simp only [Function.update_self]
          exact ⟨hlt, trivial, hown, rested_reset hrec hab⟩
        next => exact absurd hd (hnot ep')
      · have hmem : d ∈ p.idle ep' := by
          split at hd
          next he =>
            subst he
            simpa [hdc] using hd
          next => exact hd
        simp only [Function.update_of_ne hdc]
        exact h.idle d ep' hmem
    · rw [idle_update]
      split
      · exact (List.perm_append_singleton c _).nodup_iff.mpr
          (List.nodup_cons.mpr ⟨hnot ep, h.nodup ep⟩)
      · exact h.nodup ep'
    · rw [idle_update]
      split
      · rw [List.length_append, List.length_singleton]
        omega
      · exact h.bound ep'

theorem step_invariant {e : Event ε} (h : p.Invariant maxIdle) (he : p.Enabled e)
    (hn : p.NodeIntact e) : (p.next maxIdle e).Invariant maxIdle := by
  cases e with
  | allocate ep data => exact allocate_invariant h
  | release c node => exact release_invariant h hn
  | use c after => exact use_invariant h he

/-- The object exists and the pool does not hold it. -/
structure Gone (p : BackendConnPool ε) (c : ℕ) : Prop where
  created : c < p.created
  active : p.activeConns c = none
  idle : ∀ ep, c ∉ p.idle ep

theorem Gone.not_allocated (hg : p.Gone c) (h : p.Invariant maxIdle) :
    (p.allocate ep data).2 ≠ c := by
  rcases allocate_cases h ep data with ⟨d, queue, hidle, _, heq⟩ | ⟨_, heq⟩
  · rw [heq]
    rintro rfl
    exact hg.idle ep (hidle ▸ List.mem_cons_self)
  · rw [heq]
    have := hg.created
    dsimp only
    omega

theorem Gone.step {e : Event ε} (hg : p.Gone c) (h : p.Invariant maxIdle) (hn : p.NodeIntact e) :
    (p.next maxIdle e).Gone c := by
  cases e with
  | allocate ep data =>
    have hne : (p.allocate ep data).2 ≠ c := hg.not_allocated h
    rw [next]
    rcases allocate_cases h ep data with ⟨d, queue, hidle, _, heq⟩ | ⟨_, heq⟩
    · rw [heq] at hne ⊢
      refine ⟨hg.created, (Function.update_of_ne hne.symm _ _).trans hg.active, fun ep' hmem => ?_⟩
      rw [idle_update] at hmem
      split at hmem
      next he => exact hg.idle ep (hidle ▸ List.mem_cons_of_mem _ hmem)
      next => exact hg.idle ep' hmem
    · rw [heq] at hne ⊢
      exact ⟨Nat.lt_succ_of_lt hg.created, (Function.update_of_ne hne.symm _ _).trans hg.active,
        hg.idle⟩
  | release d node =>
    rw [next]
    rcases release_cases maxIdle hn with ⟨_, heq⟩ | ⟨ep, hep, heq | ⟨_, _, heq⟩⟩
    · rw [heq]
      exact hg
    · rw [heq]
      have hne := ne_of_active hg.active hep
      exact ⟨hg.created, (Function.update_of_ne hne _ _).trans hg.active, hg.idle⟩
    · rw [heq]
      have hne := ne_of_active hg.active hep
      refine ⟨hg.created, (Function.update_of_ne hne _ _).trans hg.active, fun ep' hmem => ?_⟩
      rw [idle_update] at hmem
      split at hmem
      next => exact hg.idle ep (by simpa [hne] using hmem)
      next => exact hg.idle ep' hmem
  | use d after => exact ⟨hg.created, hg.active, hg.idle⟩

theorem release_gone (h : p.Invariant maxIdle) (hc : c < p.created)
    (hn : p.NodeIntact (.release c node))
    (hab : ((p.release maxIdle c node).conns c).aborted = true) :
    (p.release maxIdle c node).Gone c := by
  rcases release_cases maxIdle hn with ⟨hnone, heq⟩ | ⟨ep, hep, heq | ⟨hrec, _, heq⟩⟩
  · rw [heq] at hab ⊢
    refine ⟨hc, hnone, fun ep hmem => ?_⟩
    rw [(h.idle c ep hmem).2.2.2.aborted] at hab
    cases hab
  · rw [heq]
    exact ⟨hc, Function.update_self _ _ _, fun ep' hmem =>
      ne_of_active (h.idle c ep' hmem).2.1 hep rfl⟩
  · rw [heq] at hab
    simp only [Function.update_self] at hab
    rw [(rested_reset hrec (h.active c ep hep).2.2).aborted] at hab
    cases hab

theorem Invariant.exclusive (h : p.Invariant maxIdle) : p.Exclusive maxIdle where
  idle_once := h.nodup
  idle_apart c ep ep' hc hc' := (h.idle c ep hc).2.2.1.symm.trans (h.idle c ep' hc').2.2.1
  active_apart c ep ep' ha hc := ne_of_active (h.idle c ep' hc).2.1 ha rfl
  rested c ep hc := (h.idle c ep hc).2.2
  bound := h.bound
  allocated ep data := by
    rcases allocate_cases h ep data with ⟨c, queue, hidle, hnone, heq⟩ | ⟨hnone, heq⟩
    · rw [heq]
      exact ⟨hnone, Function.update_self _ _ _, (h.idle c ep (hidle ▸ List.mem_cons_self)).2.2.1⟩
    · rw [heq]
      refine ⟨hnone, Function.update_self _ _ _, ?_⟩
      simp only [Function.update_self]
      rfl
  closed c hc node hn hab p' hrun ep data := by
    have hkeep : p'.Invariant maxIdle ∧ p'.Gone c :=
      hrun.invariant (I := fun p' => p'.Invariant maxIdle ∧ p'.Gone c)
        ⟨release_invariant h hn, release_gone h hc hn hab⟩
        fun _ _ hi he hn => ⟨step_invariant hi.1 he hn, hi.2.step hi.1 hn⟩
    exact hkeep.2.not_allocated hkeep.1

end Steps

/-- In every run of the pool its connections are exclusive, as long as an erased node keeps the
endpoint of its connection until `Release` is through with it. -/
theorem pool_exclusive [DecidableEq ε] {conns : ℕ → BackendConn ε}
    (h : Transition.Execution (system maxIdle) NodeIntact (empty conns) p) :
    p.Exclusive maxIdle := by
  have hinv : p.Invariant maxIdle :=
    h.invariant (empty_invariant conns) fun _ _ hi he hn => step_invariant hi he hn
  exact hinv.exclusive

/-- A connection is allocated, used, released twice and allocated again. -/
def reuse : List (Event ℕ) :=
  [.allocate 7 [], .use 0 (BackendConn.allocated 7 [] true).setReplyRecvComplete,
    .release 0 ⟨7, 7⟩, .release 0 ⟨7, 7⟩, .allocate 7 []]

theorem reuse_exclusive :
    let p := Transition.runTrace (system 64) (empty fun _ => .allocated 0 [] false) reuse
    p.activeConns 0 = some 7 ∧ p.created = 1 ∧ p.Exclusive 64 :=
  ⟨by decide +kernel, by decide +kernel,
    pool_exclusive (Transition.ValidTrace.execution .refl (by decide +kernel))⟩

/-- The memory of the erased node holds endpoint 8 by the time it is read. -/
def overwritten : List (Event ℕ) :=
  [.allocate 7 [], .use 0 (BackendConn.allocated 7 [] true).setReplyRecvComplete, .release 0 ⟨8, 8⟩]

/-- The connection to endpoint 7 then waits in the queue of endpoint 8, and the next `Allocate`
for that one returns it. -/
theorem overwritten_misfiles :
    let p := Transition.runTrace (system 64) (empty fun _ => .allocated 0 [] false) overwritten
    Transition.ValidTrace (system 64) Transition.Unrestricted (empty fun _ => .allocated 0 [] false)
      overwritten ∧ 0 ∈ p.idle 8 ∧ (p.conns 0).remoteEndpoint = 7 ∧ (p.allocate 8 []).2 = 0 ∧
      ¬ p.Exclusive 64 := by
  intro p
  have hidle : 0 ∈ p.idle 8 := by decide +kernel
  have hown : (p.conns 0).remoteEndpoint = 7 := by decide +kernel
  refine ⟨by decide +kernel, hidle, hown, by decide +kernel, fun hexclusive => ?_⟩
  have hqueue := (hexclusive.rested 0 8 hidle).1
  rw [hown] at hqueue
  cases hqueue

end BackendConnPool
end Yarmproxy
