import Yarmproxy.ConfigReload
import Yarmproxy.KeyLocator
import Yarmproxy.Transition

/-! # The server and its workers

`ProxyServer` on the main thread, with the handlers that signals have posted to its loop and the
accept in flight, and the `WorkerContext`s with the handlers posted to their loops. The requests of
the clients stand for the reads that complete on a worker and ask its locator for a key. -/
namespace Yarmproxy

structure Request where
  client : ℕ
  key : Bytes
  protocol : ProtocolType
  deriving DecidableEq, Repr

/-- A worker: `key_locator_` is the cell, the handlers posted to `io_context_` are the mail. -/
abbrev WorkerContext := Mailbox.Reader KeyLocator Request

inductive Signal where
  | sighup | sigint | sigterm
  deriving DecidableEq, Repr

structure ProxyServer where
  config : Config
  workers : List WorkerContext
  /-- `next_worker_`, a `size_t` -/
  nextWorker : ℕ
  /-- the signal handlers posted to the loop of the main thread -/
  posted : List Signal
  /-- the worker of the connection that waits to be accepted -/
  accepting : Option ℕ
  /-- the workers of the clients, in the order in which they were accepted -/
  clients : List ℕ
  /-- the configurations whose locators have been sent to the workers -/
  published : List Config
  stopped : Bool
  crashed : Bool

/-- The number of workers for a `worker_threads` setting on a machine with `hardware` threads. -/
def concurrency (workerThreads : ℤ) (hardware : ℕ) : ℕ :=
  if 0 < intToSize workerThreads then intToSize workerThreads
  else if hardware = 0 then 4 else hardware

namespace ProxyServer

variable (hash : Bytes → UInt32) (order : PointSort) (makeAddress : Bytes → Option UInt32)

def onLocatorUpdated (s : ProxyServer) (locator : KeyLocator) : ProxyServer :=
  { s with
    workers := s.workers.map fun w => w.post (.update locator)
    published := s.published ++ [s.config] }

/-- `StartAccept` with `NextWorker` -/
def startAccept (s : ProxyServer) : ProxyServer :=
  { s with
    accepting := some (s.nextWorker % s.workers.length)
    nextWorker := (s.nextWorker + 1) % 2 ^ 64 }

/-- `Run` up to the loop; `none` when it returns because the locator cannot be initialized. -/
def run (hardware : ℕ) (config : Config) : Option ProxyServer := do
  let locator ← KeyLocator.initializeFrom hash order config
  let workers := List.replicate (concurrency config.workerThreads hardware) .new
  let s : ProxyServer := ⟨config, workers, 0, [], none, [], [], false, false⟩
  some (s.onLocatorUpdated locator).startAccept

/-- The handler of `SIGHUP`; `file` is what the configuration file then holds. -/
def reload (s : ProxyServer) (file : Option (List Bytes)) : ProxyServer :=
  match s.config.reloadCulsters makeAddress file with
  | none => { s with crashed := true }
  | some (config, false) => { s with config := config }
  | some (config, true) =>
    let s := { s with config := config }
    match KeyLocator.initializeFrom hash order config with
    | none => s
    | some locator => s.onLocatorUpdated locator

def handle (s : ProxyServer) (file : Option (List Bytes)) : Signal → ProxyServer
  | .sighup => s.reload hash order makeAddress file
  | .sigint | .sigterm => { s with stopped := true }

def handleAccept (s : ProxyServer) : ProxyServer :=
  match s.accepting with
  | none => s
  | some w => startAccept { s with clients := s.clients ++ [w] }

inductive Event where
  | signal (signal : Signal)
  /-- the main thread runs the next posted handler -/
  | dispatch (file : Option (List Bytes))
  | accepted | acceptFailed
  /-- a read of a client completes, and its handler is queued on the worker of the client -/
  | request (r : Request)
  /-- a worker runs its next handler -/
  | work (w : ℕ)

def Enabled (s : ProxyServer) : Event → Prop
  | .signal _ => s.stopped = false ∧ s.crashed = false
  | .dispatch _ => s.stopped = false ∧ s.crashed = false ∧ s.posted ≠ []
  | .accepted | .acceptFailed => s.stopped = false ∧ s.crashed = false ∧ s.accepting.isSome
  | .request r => s.stopped = false ∧ s.crashed = false ∧ r.client < s.clients.length
  | .work w => s.stopped = false ∧ s.crashed = false ∧ w < s.workers.length

instance (s : ProxyServer) : ∀ e, Decidable (Enabled s e)
  | .signal _ => inferInstanceAs (Decidable (_ ∧ _))
  | .dispatch _ => inferInstanceAs (Decidable (_ ∧ _ ∧ _))
  | .accepted | .acceptFailed => inferInstanceAs (Decidable (_ ∧ _ ∧ _))
  | .request _ => inferInstanceAs (Decidable (_ ∧ _ ∧ _))
  | .work _ => inferInstanceAs (Decidable (_ ∧ _ ∧ _))

def next (s : ProxyServer) : Event → ProxyServer
  | .signal signal => { s with posted := s.posted ++ [signal] }
  | .dispatch file =>
    match s.posted with
    | [] => s
    | signal :: posted => handle hash order makeAddress { s with posted := posted } file signal
  | .accepted => s.handleAccept
  | .acceptFailed => { s with accepting := none }
  | .request r =>
    match s.clients[r.client]? with
    | none => s
    | some w => { s with workers := s.workers.modify w fun c => c.post (.job r) }
  | .work w => { s with workers := s.workers.modify w Mailbox.Reader.run }

def system : Transition.System ProxyServer Event where
  Enabled := Enabled
  next := next hash order makeAddress

instance (s : ProxyServer) (e : Event) :
    Decidable ((system hash order makeAddress).Enabled s e) :=
      inferInstanceAs (Decidable (Enabled s e))

def locatorOf (c : Config) : KeyLocator := ⟨c.clusters.foldl (registerCluster hash order) []⟩

variable {hash order makeAddress}

theorem initializeFrom_eq_some {c : Config} {l : KeyLocator} :
    KeyLocator.initializeFrom hash order c = some l ↔ c.clusters ≠ [] ∧
      locatorOf hash order c = l := by
  unfold KeyLocator.initializeFrom
  split
  next h => simp [h]
  next h => simp [h, locatorOf]

section Published
variable {c₀ : Config} {s : ProxyServer}

/-- Every worker is in step with the locators published so far, and these come from configurations
that differ in their clusters only. -/
structure Synced (hash : Bytes → UInt32) (order : PointSort) (c₀ : Config) (s : ProxyServer) :
    Prop where
  settings : s.config.settings = c₀.settings
  published : ∀ c ∈ s.published, c.clusters ≠ [] ∧ c.settings = c₀.settings
  nonempty : s.published ≠ []
  inStep : ∀ w ∈ s.workers, w.InStep (s.published.map (locatorOf hash order))

theorem Synced.of_eq (h : s.Synced hash order c₀) {s' : ProxyServer}
    (hc : s'.config.settings = s.config.settings) (hw : s'.workers = s.workers)
    (hp : s'.published = s.published) : s'.Synced hash order c₀ := by
  refine ⟨hc.trans h.settings, ?_, ?_, ?_⟩
  · rw [hp]
    exact h.published
  · rw [hp]
    exact h.nonempty
  · rw [hw, hp]
    exact h.inStep

theorem Synced.onLocatorUpdated (h : s.Synced hash order c₀) {locator : KeyLocator}
    (hl : KeyLocator.initializeFrom hash order s.config = some locator) :
    (s.onLocatorUpdated locator).Synced hash order c₀ := by
  obtain ⟨hne, rfl⟩ := initializeFrom_eq_some.mp hl
  refine ⟨h.settings, fun c hc => ?_, List.concat_ne_nil _ _, fun w hw => ?_⟩
  · rcases List.mem_append.mp hc with hc | hc
    · exact h.published c hc
    · rw [List.mem_singleton.mp hc]
      exact ⟨hne, h.settings⟩
  · obtain ⟨v, hv, rfl⟩ := List.mem_map.mp hw
    simp only [ProxyServer.onLocatorUpdated, List.map_append]
    exact (h.inStep v hv).publish _

theorem Synced.reload (h : s.Synced hash order c₀) (file : Option (List Bytes)) :
    (s.reload hash order makeAddress file).Synced hash order c₀ := by
  unfold ProxyServer.reload
  split
  · exact h.of_eq rfl rfl rfl
  next hr => exact h.of_eq (Config.reloadCulsters_settings hr) rfl rfl
  next config hr =>
    have hs : Synced hash order c₀ { s with config := config } :=
      h.of_eq (Config.reloadCulsters_settings hr) rfl rfl
    dsimp only
    split
    · exact hs
    next hl => exact hs.onLocatorUpdated hl

theorem Synced.modify (h : s.Synced hash order c₀) {f : WorkerContext → WorkerContext}
    (hf : ∀ (l : List KeyLocator) (w : WorkerContext), w.InStep l → (f w).InStep l) (i : ℕ) :
    Synced hash order c₀ { s with workers := s.workers.modify i f } := by
  refine ⟨h.settings, h.published, h.nonempty, fun w hw => ?_⟩
  rcases Lists.mem_modify hw with hw | ⟨v, hv, rfl⟩
  · exact h.inStep w hw
  · exact hf _ v (h.inStep v hv)

theorem Synced.next (h : s.Synced hash order c₀) (e : Event) :
    (s.next hash order makeAddress e).Synced hash order c₀ := by
  cases e with
  | signal signal => exact h.of_eq rfl rfl rfl
  | dispatch file =>
    simp only [ProxyServer.next]
    split
    · exact h
    next signal posted _ =>
      have hs : Synced hash order c₀ { s with posted := posted } := h.of_eq rfl rfl rfl
      cases signal with
      | sighup => exact hs.reload file
      | sigint | sigterm => exact hs.of_eq rfl rfl rfl
  | accepted =>
    simp only [ProxyServer.next, handleAccept]
    split
    · exact h
    · exact h.of_eq rfl rfl rfl
  | acceptFailed => exact h.of_eq rfl rfl rfl
  | request r =>
    simp only [ProxyServer.next]
    split
    · exact h
    · exact h.modify (fun _ _ hw => hw.postJob r) _
  | work w => exact h.modify (fun _ _ hw => hw.run) w

theorem run_synced {hardware : ℕ} (h : run hash order hardware c₀ = some s) :
    s.Synced hash order c₀ := by
  obtain ⟨locator, hl, h⟩ := Option.bind_eq_some_iff.mp h
  obtain rfl := Option.some.inj h
  obtain ⟨hne, rfl⟩ := initializeFrom_eq_some.mp hl
  refine ⟨rfl, fun c hc => ?_, List.cons_ne_nil _ _, fun w hw => ?_⟩
  · rw [List.mem_singleton.mp hc]
    exact ⟨hne, rfl⟩
  · obtain ⟨v, hv, rfl⟩ := List.mem_map.mp hw
    rw [List.eq_of_mem_replicate hv]
    exact .first _

/-- Every key that a worker has located, it has located by a published configuration, and never by
an older one than for the key before; the server's settings have not changed meanwhile. With the
handlers run that are queued on it, the worker has the configuration published last. -/
theorem keys_located_by_published {hardware : ℕ} {s₀ : ProxyServer}
    (h : run hash order hardware c₀ = some s₀)
    (hrun : Transition.Execution (system hash order makeAddress) Transition.Unrestricted s₀ s) :
    s.config.settings = c₀.settings ∧ ∀ w ∈ s.workers,
      (∀ d ∈ w.done, ∃ c, s.published[d.version - 1]? = some c ∧ c.settings = c₀.settings ∧
        d.cell.isSome ∧ d.cell = KeyLocator.initializeFrom hash order c) ∧
      w.done.Pairwise (fun d d' => d.version ≤ d'.version) ∧
      ∃ c ∈ s.published.getLast?,
        (w.runs w.mail.length).cell = KeyLocator.initializeFrom hash order c := by
  have hs : s.Synced hash order c₀ :=
    hrun.invariant (run_synced h) fun _ e hs _ _ => hs.next e
  refine ⟨hs.settings, fun w hw => ?_⟩
  have hin := hs.inStep w hw
  have hlocator : ∀ c ∈ s.published,
      KeyLocator.initializeFrom hash order c = some (locatorOf hash order c) := fun c hc =>
    initializeFrom_eq_some.mpr ⟨(hs.published c hc).1, rfl⟩
  refine ⟨fun d hd => ?_, hin.ordered, ?_⟩
  · obtain ⟨hpos, hle, hcell⟩ := hin.done d hd
    have hlt : d.version - 1 < s.published.length := by
      have := hin.version_le
      rw [List.length_map] at this
      omega
    have hmem := List.getElem_mem hlt
    rw [List.getElem?_map, List.getElem?_eq_getElem hlt, Option.map_some, ← hlocator _ hmem]
      at hcell
    refine ⟨s.published[d.version - 1], List.getElem?_eq_getElem hlt, (hs.published _ hmem).2, ?_,
      hcell⟩
    rw [hcell, hlocator _ hmem]
    rfl
  · have hlast := List.getLast?_eq_some_getLast hs.nonempty
    refine ⟨_, hlast, ?_⟩
    rw [hin.latest, List.getLast?_map, hlast, hlocator _ (List.getLast_mem hs.nonempty)]
    rfl

def twoWorkers : ProxyServer :=
  startAccept (onLocatorUpdated ⟨Config.goodConfig, [.new, .new], 0, [], none, [], [], false, false⟩
    (locatorOf (fun _ => 0) .merge Config.goodConfig))

theorem goodConfig_runs : run (fun _ => 0) .merge 2 Config.goodConfig = some twoWorkers := rfl

def hangup : List Event :=
  [.accepted, .request ⟨0, ascii "a", .redis⟩, .work 0, .work 0, .signal .sighup,
    .dispatch (some Config.goodFile), .request ⟨0, ascii "b", .redis⟩, .work 0, .work 0]

def hungUp : ProxyServer :=
  Transition.runTrace (system (fun _ => 0) .merge Config.anyAddress) twoWorkers hangup

theorem hungUp_run : Transition.Execution (system (fun _ => 0) .merge Config.anyAddress)
    Transition.Unrestricted twoWorkers hungUp :=
  Transition.ValidTrace.execution .refl (by decide +kernel)

theorem hungUp_located :
    run (fun _ => 0) .merge 2 Config.goodConfig = some twoWorkers ∧
    Transition.Execution (system (fun _ => 0) .merge Config.anyAddress) Transition.Unrestricted
      twoWorkers hungUp ∧
    hungUp.workers.map (fun w => w.done.map fun d => (d.version, d.job.key)) =
      [[(1, ascii "a"), (2, ascii "b")], []] ∧
    hungUp.config.settings = Config.goodConfig.settings ∧ ∀ w ∈ hungUp.workers,
      (∀ d ∈ w.done, ∃ c, hungUp.published[d.version - 1]? = some c ∧
        c.settings = Config.goodConfig.settings ∧ d.cell.isSome ∧
        d.cell = KeyLocator.initializeFrom (fun _ => 0) .merge c) ∧
      w.done.Pairwise (fun d d' => d.version ≤ d'.version) ∧
      ∃ c ∈ hungUp.published.getLast?,
        (w.runs w.mail.length).cell = KeyLocator.initializeFrom (fun _ => 0) .merge c :=
  ⟨goodConfig_runs, hungUp_run, by decide +kernel,
    keys_located_by_published goodConfig_runs hungUp_run⟩

end Published

/-- The worker of the `k`-th client. -/
def turn (n k : ℕ) : ℕ := k % 2 ^ 64 % n

section Turns
variable {s s' : ProxyServer} {n : ℕ}

/-- A request that is queued on a worker or has been run there. -/
def Has (w : WorkerContext) (r : Request) : Prop :=
  (∃ m ∈ w.mail, m = .job r) ∨ ∃ d ∈ w.done, d.job = r

structure InTurn (n : ℕ) (s : ProxyServer) : Prop where
  size : s.workers.length = n
  clients : s.clients = (List.range s.clients.length).map (turn n)
  nextWorker : s.nextWorker = (s.clients.length + 1) % 2 ^ 64
  accepting : ∀ w, s.accepting = some w → w = turn n s.clients.length
  owned : ∀ i w r, s.workers[i]? = some w → Has w r → s.clients[r.client]? = some i

theorem InTurn.of_eq (h : s.InTurn n) (hw : s'.workers = s.workers) (hc : s'.clients = s.clients)
    (hn : s'.nextWorker = s.nextWorker) (ha : ∀ w, s'.accepting = some w → s.accepting = some w) :
    s'.InTurn n := by
  refine ⟨hw ▸ h.size, ?_, ?_, fun w hs => ?_, ?_⟩
  · rw [hc]
    exact h.clients
  · rw [hn, hc]
    exact h.nextWorker
  · rw [hc]
    exact h.accepting w (ha w hs)
  · rw [hw, hc]
    exact h.owned

theorem has_post {w : WorkerContext} {m : Mailbox.Mail KeyLocator Request} {r : Request}
    (h : Has (w.post m) r) : Has w r ∨ m = .job r := by
  rcases h with ⟨m', hm, he⟩ | hd
  · rcases List.mem_append.mp hm with hm | hm
    · exact .inl (.inl ⟨m', hm, he⟩)
    · exact .inr (List.mem_singleton.mp hm ▸ he)
  · exact .inl (.inr hd)

theorem has_run {w : WorkerContext} {r : Request} (h : Has w.run r) : Has w r := by
  unfold Mailbox.Reader.run at h
  split at h
  · exact h
  next hm =>
    refine h.imp_left ?_
    rintro ⟨m, hmem, he⟩
    exact ⟨m, hm ▸ List.mem_cons_of_mem _ hmem, he⟩
  next b mail hm =>
    rcases h with ⟨m, hmem, he⟩ | ⟨d, hd, he⟩
    · exact .inl ⟨m, hm ▸ List.mem_cons_of_mem _ hmem, he⟩
    · rcases List.mem_append.mp hd with hd | hd
      · exact .inr ⟨d, hd, he⟩
      · rw [List.mem_singleton.mp hd] at he
        exact .inl ⟨.job b, hm ▸ List.mem_cons_self, congrArg _ he⟩

theorem InTurn.workers (h : s.InTurn n) {ws : List WorkerContext}
    (hl : ws.length = s.workers.length) (hw : ∀ i w r, ws[i]? = some w → Has w r →
      s.clients[r.client]? = some i ∨ ∃ v, s.workers[i]? = some v ∧ Has v r) :
    InTurn n { s with workers := ws } := by
  refine ⟨hl.trans h.size, h.clients, h.nextWorker, h.accepting, fun i w r hi hr => ?_⟩
  rcases hw i w r hi hr with hc | ⟨v, hv, hr⟩
  · exact hc
  · exact h.owned i v r hv hr

theorem InTurn.onLocatorUpdated (h : s.InTurn n) (locator : KeyLocator) :
    (s.onLocatorUpdated locator).InTurn n := by
  have hs : InTurn n { s with workers := s.workers.map fun w => w.post (.update locator) } := by
    refine h.workers (List.length_map _) fun i w r hi hr => .inr ?_
    rw [List.getElem?_map, Option.map_eq_some_iff] at hi
    obtain ⟨v, hv, rfl⟩ := hi
    refine ⟨v, hv, (has_post hr).resolve_right ?_⟩
    rintro ⟨⟩
  exact hs.of_eq rfl rfl rfl fun _ ha => ha

theorem InTurn.handleAccept (h : s.InTurn n) : s.handleAccept.InTurn n := by
  unfold ProxyServer.handleAccept
  split
  · exact h
  next w ha =>
    have hw := h.accepting w ha
    refine ⟨h.size, ?_, ?_, ?_, fun i v r hi hr => ?_⟩
    · simp only [startAccept, List.length_append, List.length_singleton, List.range_succ,
        List.map_append, List.map_singleton, ← hw, ← h.clients]
    · simp only [startAccept, List.length_append, List.length_singleton, h.nextWorker,
        Nat.mod_add_mod]
    · rintro w' ⟨⟩
      simp only [startAccept, turn, List.length_append, List.length_singleton, h.nextWorker, h.size]
    · have hc := h.owned i v r hi hr
      simp only [startAccept]
      rw [List.getElem?_append_left (List.getElem?_eq_some_iff.mp hc).1]
      exact hc

theorem InTurn.next (h : s.InTurn n) (e : Event) : (s.next hash order makeAddress e).InTurn n := by
  cases e with
  | signal signal => exact h.of_eq rfl rfl rfl fun _ ha => ha
  | dispatch file =>
    simp only [ProxyServer.next]
    split
    · exact h
    next signal posted _ =>
      have hs : InTurn n { s with posted := posted } := h.of_eq rfl rfl rfl fun _ ha => ha
      cases signal with
      | sighup =>
        simp only [handle, reload]
        split
        · exact hs.of_eq rfl rfl rfl fun _ ha => ha
        · exact hs.of_eq rfl rfl rfl fun _ ha => ha
        next config _ =>
          have hc : InTurn n { s with posted := posted, config := config } :=
            hs.of_eq rfl rfl rfl fun _ ha => ha
          split
          · exact hc
          · exact hc.onLocatorUpdated _
      | sigint | sigterm => exact hs.of_eq rfl rfl rfl fun _ ha => ha
  | accepted => exact h.handleAccept
  | acceptFailed => exact h.of_eq rfl rfl rfl (by rintro _ ⟨⟩)
  | request r =>
    simp only [ProxyServer.next]
    split
    · exact h
    next w hw =>
      refine h.workers (List.length_modify ..) fun i v r' hi hr => ?_
      rw [List.getElem?_modify, Option.map_eq_map, Option.map_eq_some_iff] at hi
      obtain ⟨u, hu, rfl⟩ := hi
      split at hr
      next heq =>
        subst heq
        rcases has_post hr with hr | hr
        · exact .inr ⟨u, hu, hr⟩
        · obtain rfl : r = r' := by injection hr
          exact .inl hw
      next => exact .inr ⟨u, hu, hr⟩
  | work w =>
    simp only [ProxyServer.next]
    refine h.workers (List.length_modify ..) fun i v r hi hr => .inr ?_
    rw [List.getElem?_modify, Option.map_eq_map, Option.map_eq_some_iff] at hi
    obtain ⟨u, hu, rfl⟩ := hi
    split at hr
    · exact ⟨u, hu, has_run hr⟩
    · exact ⟨u, hu, hr⟩

theorem run_inTurn {hardware : ℕ} {c : Config} (h : run hash order hardware c = some s) :
    s.InTurn (concurrency c.workerThreads hardware) := by
  obtain ⟨locator, hl, h⟩ := Option.bind_eq_some_iff.mp h
  obtain rfl := Option.some.inj h
  refine ⟨?_, rfl, rfl, ?_, fun i w r hi hr => ?_⟩
  · simp only [startAccept, onLocatorUpdated, List.length_map, List.length_replicate]
  · rintro w ⟨⟩
    simp only [onLocatorUpdated, startAccept, turn, List.length_map, List.length_replicate,
      List.length_nil, Nat.zero_mod]
  · have hmem := List.mem_of_getElem? hi
    obtain ⟨v, hv, rfl⟩ := List.mem_map.mp hmem
    rw [List.eq_of_mem_replicate hv] at hr
    rcases hr with ⟨m, hm, rfl⟩ | ⟨d, hd, -⟩
    · cases List.mem_singleton.mp hm
    · cases hd

structure Closed (clients : List ℕ) (s : ProxyServer) : Prop where
  accepting : s.accepting = none
  clients : s.clients = clients

theorem Closed.next {clients : List ℕ} (h : s.Closed clients) (e : Event) :
    (s.next hash order makeAddress e).Closed clients := by
  cases e with
  | signal signal => exact ⟨h.accepting, h.clients⟩
  | dispatch file =>
    simp only [ProxyServer.next]
    split
    · exact h
    next signal posted _ =>
      cases signal with
      | sighup =>
        simp only [handle, reload]
        split
        · exact ⟨h.accepting, h.clients⟩
        · exact ⟨h.accepting, h.clients⟩
        · split
          · exact ⟨h.accepting, h.clients⟩
          · exact ⟨h.accepting, h.clients⟩
      | sigint | sigterm => exact ⟨h.accepting, h.clients⟩
  | accepted =>
    simp only [ProxyServer.next, ProxyServer.handleAccept, h.accepting]
    exact h
  | acceptFailed => exact ⟨rfl, h.clients⟩
  | request r =>
    simp only [ProxyServer.next]
    split
    · exact h
    · exact ⟨h.accepting, h.clients⟩
  | work w => exact ⟨h.accepting, h.clients⟩

theorem count_turn {w : ℕ} (hw : w < n) : ∀ {m : ℕ}, m ≤ 2 ^ 64 →
    ((List.range m).map (turn n)).count w = (m + (n - 1 - w)) / n := by
  intro m
  induction m with
  | zero =>
    intro _
    rw [Nat.div_eq_of_lt (by omega)]
    rfl
  | succ m ih =>
    intro hm
    have hturn : turn n m = m % n := by rw [turn, Nat.mod_eq_of_lt hm]
    rw [List.range_succ, List.map_append, List.count_append, ih (Nat.le_of_succ_le hm),
      List.map_singleton, List.count_singleton, hturn, Nat.add_right_comm, Nat.succ_div]
    congr 1
    -- the quotient grows with the last element of a round
    have hdvd : n ∣ m + (n - 1 - w) + 1 ↔ m % n = w := by
      have hr := Nat.mod_lt m (show 0 < n by omega)
      rw [show m + (n - 1 - w) + 1 = m + (n - w) by omega, Nat.dvd_iff_mod_eq_zero,
        ← Nat.mod_add_mod]
      rcases Nat.lt_trichotomy (m % n) w with h | h | h
      · rw [Nat.mod_eq_of_lt (by omega)]
        omega
      · rw [h, show w + (n - w) = n by omega, Nat.mod_self]
        exact ⟨fun _ => rfl, fun _ => rfl⟩
      · rw [show m % n + (n - w) = m % n - w + n by omega, Nat.add_mod_right,
          Nat.mod_eq_of_lt (by omega)]
        omega
    by_cases h : m % n = w
    · rw [if_pos (beq_iff_eq.mpr h), if_pos (hdvd.mpr h)]
    · rw [if_neg fun hb => h (beq_iff_eq.mp hb), if_neg fun hd => h (hdvd.mp hd)]

/-- The clients are given to the workers in turn, so that no worker is more than one client ahead of
another; what a client sends is queued and run on its worker only; and after an accept that has
failed there are no new clients. -/
theorem clients_take_turns {hardware : ℕ} {c : Config} {s₀ : ProxyServer}
    (h : run hash order hardware c = some s₀)
    (hrun : Transition.Execution (system hash order makeAddress) Transition.Unrestricted s₀ s) :
    s.workers.length = concurrency c.workerThreads hardware ∧
      s.clients = (List.range s.clients.length).map (turn s.workers.length) ∧
      (s.clients.length ≤ 2 ^ 64 → ∀ w < s.workers.length, ∀ w' < s.workers.length,
        s.clients.count w ≤ s.clients.count w' + 1) ∧
      (∀ i w r, s.workers[i]? = some w → Has w r → s.clients[r.client]? = some i) ∧
      (s.accepting = none → ∀ s', Transition.Execution (system hash order makeAddress)
        Transition.Unrestricted s s' → s'.clients = s.clients) := by
  have hs : s.InTurn (concurrency c.workerThreads hardware) :=
    hrun.invariant (run_inTurn h) fun _ e hs _ _ => hs.next e
  refine ⟨hs.size, ?_, fun hm w hw w' hw' => ?_, hs.owned, fun ha s' hrun' => ?_⟩
  · rw [hs.size]
    exact hs.clients
  · rw [hs.size] at hw hw'
    rw [hs.clients, count_turn hw hm, count_turn hw' hm, ← Nat.add_div_right _ (by omega)]
    exact Nat.div_le_div_right (by omega)
  · have hclosed : s'.Closed s.clients :=
      hrun'.invariant ⟨ha, rfl⟩ fun _ e hc _ _ => hc.next e
    exact hclosed.clients

theorem hungUp_turns :
    run (fun _ => 0) .merge 2 Config.goodConfig = some twoWorkers ∧
    Transition.Execution (system (fun _ => 0) .merge Config.anyAddress) Transition.Unrestricted
      twoWorkers hungUp ∧
    hungUp.workers.length = concurrency Config.goodConfig.workerThreads 2 ∧
    hungUp.clients = (List.range hungUp.clients.length).map (turn hungUp.workers.length) ∧
    (hungUp.clients.length ≤ 2 ^ 64 → ∀ w < hungUp.workers.length, ∀ w' < hungUp.workers.length,
      hungUp.clients.count w ≤ hungUp.clients.count w' + 1) ∧
    (∀ i w r, hungUp.workers[i]? = some w → Has w r → hungUp.clients[r.client]? = some i) ∧
    (hungUp.accepting = none → ∀ s', Transition.Execution
      (system (fun _ => 0) .merge Config.anyAddress) Transition.Unrestricted hungUp s' →
      s'.clients = hungUp.clients) :=
  ⟨goodConfig_runs, hungUp_run, clients_take_turns goodConfig_runs hungUp_run⟩

end Turns

end ProxyServer
end Yarmproxy
