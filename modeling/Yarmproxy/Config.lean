import Yarmproxy.CreateCommand

/-! # The configuration

`Config` as the token handlers leave it. A configuration file is the list of its lines; the
parsing of an IPv4 address is Boost's and stays a parameter. -/
namespace Yarmproxy

/-- `Config::Backend`, with the host as the address it stands for. -/
structure Backend where
  host : UInt32
  port : ℤ
  weight : ℕ
  deriving DecidableEq, Repr

structure Cluster where
  protocol : ProtocolType
  namespaces : List Bytes
  backends : List Backend
  deriving DecidableEq, Repr

def Cluster.new : Cluster := ⟨.none, [], []⟩

structure Config where
  listen : Bytes
  daemonize : Bool
  pidFile : Bytes
  backlog : ℤ
  workerThreads : ℤ
  maxNamespaceLength : ℤ
  logFile : Bytes
  logLevel : Bytes
  clientIdleTimeout : ℤ
  socketRwTimeout : ℤ
  workerMaxIdleBackends : ℕ
  bufferSize : ℕ
  reservedBufferSpace : ℕ
  workerCpuAffinity : Bool
  clusters : List Cluster
  /-- the open blocks, outermost first -/
  context : List Bytes
  errorMsg : Bytes
  deriving DecidableEq, Repr

namespace Config

def new : Config where
  listen := ascii "127.0.0.1:11311"
  daemonize := false
  pidFile := ascii "/tmp/yarmproxy.pid"
  backlog := 1024
  workerThreads := 0
  maxNamespaceLength := 4
  logFile := ascii "./yarmproxy.log"
  logLevel := ascii "WARN"
  clientIdleTimeout := 60000
  socketRwTimeout := 500
  workerMaxIdleBackends := 64
  bufferSize := 4096
  reservedBufferSpace := 0
  workerCpuAffinity := false
  clusters := []
  context := []
  errorMsg := []

def fail (c : Config) (msg : String) : Config × Bool := ({ c with errorMsg := ascii msg }, false)

def pushSubcontext (c : Config) (name : Bytes) : Config := { c with context := c.context ++ [name] }

def popSubcontext (c : Config) : Config := { c with context := c.context.dropLast }

/-- `clusters_.back()` with a change; the handlers run inside a cluster block only. -/
def modifyBack (c : Config) (f : Cluster → Cluster) : Config :=
  { c with clusters := c.clusters.dropLast ++ c.clusters.getLast?.toList.map f }

/-- A directive whose only value is an `int`. -/
def applyInt (c : Config) (value : Bytes) (msg : String) (set : ℤ → Config) : Config × Bool :=
  match stoi value with
  | some i => (set i, true)
  | none => c.fail msg

/-- `sz & (sz - 1)` is zero. -/
def isPowerOfTwo (sz : ℤ) : Bool := BitVec.ofInt 32 sz &&& BitVec.ofInt 32 (sz - 1) = 0

def applyGlobalTokens (c : Config) : List Bytes → Config × Bool
  | [name, value] =>
    if name = ascii "listen" then ({ c with listen := value }, true)
    else if name = ascii "daemonize" then
      ({ c with daemonize := value = ascii "true" || value = ascii "yes" || value = ascii "1" },
        true)
    else if name = ascii "pid_file" then ({ c with pidFile := value }, true)
    else if name = ascii "backlog" then
      c.applyInt value "positive integer required" fun i => { c with backlog := i }
    else if name = ascii "worker_threads" then
      c.applyInt value "positive integer required" fun i => { c with workerThreads := i }
    else if name = ascii "client_idle_timeout" then
      c.applyInt value "positive integer required" fun i => { c with clientIdleTimeout := i }
    else if name = ascii "socket_rw_timeout" then
      c.applyInt value "positive integer required" fun i => { c with socketRwTimeout := i }
    else if name = ascii "max_namespace_length" then
      -- the value is stored before it is checked
      match stoi value with
      | some i =>
        if i > 0 then ({ c with maxNamespaceLength := i }, true)
        else { c with maxNamespaceLength := i }.fail "positive integer required"
      | none => c.fail "positive integer required"
    else if name = ascii "log_file" then ({ c with logFile := value }, true)
    else if name = ascii "log_level" then ({ c with logLevel := value }, true)
    else if name = ascii "cluster" ∧ value = ascii "\x7b" then
      ({ c with clusters := c.clusters ++ [Cluster.new] }.pushSubcontext name, true)
    else if name = ascii "worker" ∧ value = ascii "\x7b" then (c.pushSubcontext name, true)
    else ({ c with errorMsg := ascii "unknown directive " ++ name }, false)
  | tokens => ({ c with errorMsg := ascii "unknown directive " ++ tokens.headD [] }, false)

def applyWorkerTokens (c : Config) : List Bytes → Config × Bool
  | [name, value] =>
    if name = ascii "max_idle_backends" then
      c.applyInt value "bad nubmer" fun i => { c with workerMaxIdleBackends := intToSize i }
    else if name = ascii "cpu_affinity" then
      ({ c with workerCpuAffinity := value = ascii "on" || value = ascii "1" }, true)
    else if name = ascii "buffer_size" then
      match stoi value with
      | some sz =>
        if sz < 1 ∨ sz > 1024 ∨ !isPowerOfTwo sz then c.fail "bad buffer size"
        else ({ c with bufferSize := intToSize (sz * 1024) }, true)
      | none => c.fail "bad number"
    else if name = ascii "reserved_buffer_space" then
      match stoi value with
      | some sz =>
        if !isPowerOfTwo sz then c.fail "bad buffer trunk size"
        else ({ c with reservedBufferSpace := intToSize (Int.bmod (sz * 1024) (2 ^ 32)) }, true)
      | none => c.fail "bad number"
    else c.fail "unknown directive"
  | tokens =>
    if tokens = [ascii "\x7d"] then
      if c.context = [] then (c, false) else (c.popSubcontext, true)
    else c.fail "bad token count"

/-- `backend host:port weight` -/
def applyBackend (makeAddress : Bytes → Option UInt32) (c : Config) (endpoint weight : Bytes) :
    Config × Bool :=
  match endpoint.findIdx? (· == ch ':') with
  | none => c.fail "endpoint bad format"
  | some pos =>
    match makeAddress (endpoint.take pos), stoi (endpoint.drop (pos + 1)) with
    | some host, some port =>
      match stoi weight with
      | none => c.fail "bad weight"
      | some weight =>
        if port ≤ 0 ∨ weight ≤ 0 then c.fail "illegal value"
        else (c.modifyBack fun cl =>
          { cl with backends := cl.backends ++ [⟨host, port, weight.toNat⟩] }, true)
    | _, _ => c.fail "bad endpoint"

def applyClusterTokens (makeAddress : Bytes → Option UInt32) (c : Config) :
    List Bytes → Config × Bool
  | [] => (c, false)
  | name :: values =>
    if name = ascii "\x7d" ∧ values = [] then
      if c.context = [] then (c, false) else (c.popSubcontext, true)
    else if name = ascii "protocol" then
      match values with
      | [value] =>
        if value = ascii "redis" then (c.modifyBack ({ · with protocol := .redis }), true)
        else if value = ascii "memcached" then
          (c.modifyBack ({ · with protocol := .memcached }), true)
        else c.fail "unsupported protocol type"
      | _ => (c, false)
    else if name = ascii "namespace" then
      if values = [] then (c, false)
      else if values.any fun ns => decide (ns.length > intToSize c.maxNamespaceLength) then
        c.fail "too long namespace length"
      else (c.modifyBack fun cl => { cl with namespaces := cl.namespaces ++ values }, true)
    else if name = ascii "backends" then
      if values = [ascii "\x7b"] then (c.pushSubcontext name, true) else (c, false)
    else if name = ascii "backend" then
      if c.context = [ascii "cluster", ascii "backends"] then
        match values with
        | [endpoint, weight] => applyBackend makeAddress c endpoint weight
        | _ => (c, false)
      else c.fail "backend must in context #cluster#backends"
    else (c, false)

def applyTokens (makeAddress : Bytes → Option UInt32) (c : Config) (tokens : List Bytes) :
    Config × Bool :=
  match c.context with
  | [] => c.applyGlobalTokens tokens
  | block :: rest =>
    -- the source compares the first eight characters of the joined context
    if (ascii "cluster").isPrefixOf block then applyClusterTokens makeAddress c tokens
    else if block = ascii "worker" ∧ rest = [] then c.applyWorkerTokens tokens
    else ({ c with
      errorMsg := ascii "unknown context " ++ c.context.flatMap (ch '/' :: ·) }, false)

/-- The words of a line, up to a comment. `word` is the word being read. -/
def tokenizeLine : Bytes → Option Bytes → List Bytes
  | [], word => word.toList
  | c :: cs, word =>
    if c = ch ';' ∨ c = ch '#' then word.toList
    else if isSpace c then word.toList ++ tokenizeLine cs none
    else tokenizeLine cs (some (word.getD [] ++ [c]))

/-- `TraverseConfFile`: it stops at the first line that its handler refuses. -/
def traverse (handler : Config → List Bytes → Config × Bool) : Config → List Bytes → Config × Bool
  | c, [] => (c, true)
  | c, line :: lines =>
    match tokenizeLine line none with
    | [] => traverse handler c lines
    | tokens =>
      match handler c tokens with
      | (c, true) => traverse handler c lines
      | (c, false) => (c, false)

def initializeFrom (makeAddress : Bytes → Option UInt32) (lines : List Bytes) : Config × Bool :=
  traverse (applyTokens makeAddress) new lines

/-- What every configuration satisfies after each accepted line. -/
structure Wellformed (c : Config) : Prop where
  backends : ∀ cl ∈ c.clusters, ∀ b ∈ cl.backends, 0 < b.port ∧ 0 < b.weight
  namespaces : ∀ cl ∈ c.clusters, ∀ ns ∈ cl.namespaces, ns ≠ []
  maxNamespaceLength : 0 < c.maxNamespaceLength ∧ c.maxNamespaceLength < 2 ^ 31

/-- The handlers change the clusters in three ways. -/
inductive ClusterStep (tokens : List Bytes) (cs : List Cluster) : List Cluster → Prop where
  | same : ClusterStep tokens cs cs
  | opened : ClusterStep tokens cs (cs ++ [.new])
  | changed {init : List Cluster} {back back' : Cluster} : cs = init ++ [back] →
      (∀ b ∈ back'.backends, b ∈ back.backends ∨ 0 < b.port ∧ 0 < b.weight) →
      (∀ ns ∈ back'.namespaces, ns ∈ back.namespaces ∨ ns ∈ tokens) →
      ClusterStep tokens cs (init ++ [back'])

/-- What a handler may do with a line. A rejected line may leave a bad bound behind. -/
structure Step (tokens : List Bytes) (c : Config) (x : Config × Bool) : Prop where
  clusters : ClusterStep tokens c.clusters x.1.clusters
  bound : x.2 = true → x.1.maxNamespaceLength = c.maxNamespaceLength ∨
    0 < x.1.maxNamespaceLength ∧ x.1.maxNamespaceLength < 2 ^ 31

variable {makeAddress : Bytes → Option UInt32} {c : Config} {tokens : List Bytes}

namespace Step

/-- A line that has nothing to do with clusters or namespaces. -/
theorem other {x : Config × Bool} (hc : x.1.clusters = c.clusters)
    (hm : x.1.maxNamespaceLength = c.maxNamespaceLength) : Step tokens c x :=
  ⟨hc ▸ .same, fun _ => .inl hm⟩

theorem ite {p : Prop} [Decidable p] {x y : Config × Bool} (hx : Step tokens c x)
    (hy : Step tokens c y) : Step tokens c (if p then x else y) := by
  split
  · exact hx
  · exact hy

theorem int {value : Bytes} {msg : String} {set : ℤ → Config}
    (hc : ∀ i, (set i).clusters = c.clusters)
    (hm : ∀ i, (set i).maxNamespaceLength = c.maxNamespaceLength) :
    Step tokens c (c.applyInt value msg set) := by
  rw [applyInt]
  split
  · exact other (hc _) (hm _)
  · exact other rfl rfl

theorem modifyBack {f : Cluster → Cluster}
    (hb : ∀ cl, ∀ b ∈ (f cl).backends, b ∈ cl.backends ∨ 0 < b.port ∧ 0 < b.weight)
    (hn : ∀ cl, ∀ ns ∈ (f cl).namespaces, ns ∈ cl.namespaces ∨ ns ∈ tokens) :
    Step tokens c (c.modifyBack f, true) := by
  refine ⟨?_, fun _ => .inl rfl⟩
  rcases List.eq_nil_or_concat c.clusters with h | ⟨init, back, h⟩
  · rw [Config.modifyBack, h]
    exact .same
  · rw [Config.modifyBack, h]
    simp only [List.concat_eq_append, List.dropLast_concat, List.getLast?_append,
      List.getLast?_singleton, Option.some_or, Option.toList_some, List.map_cons, List.map_nil]
    exact .changed rfl (hb back) (hn back)

end Step

theorem applyGlobalTokens_step : Step tokens c (c.applyGlobalTokens tokens) := by
  unfold applyGlobalTokens
  split
  next name value =>
    refine .ite (.other rfl rfl) <| .ite (.other rfl rfl) <| .ite (.other rfl rfl) <|
      .ite (.int (fun _ => rfl) fun _ => rfl) <| .ite (.int (fun _ => rfl) fun _ => rfl) <|
      .ite (.int (fun _ => rfl) fun _ => rfl) <| .ite (.int (fun _ => rfl) fun _ => rfl) <|
      .ite ?_ <| .ite (.other rfl rfl) <| .ite (.other rfl rfl) <|
      .ite ⟨.opened, fun _ => .inl rfl⟩ <| .ite (.other rfl rfl) (.other rfl rfl)
    cases hv : stoi value with
    | none => exact .other rfl rfl
    | some i =>
      simp only
      split
      next hi => exact ⟨.same, fun _ => .inr ⟨hi, (stoi_bounds hv).2⟩⟩
      next => exact ⟨.same, fun h => by cases h⟩
  next => exact .other rfl rfl

theorem applyWorkerTokens_step : Step tokens c (c.applyWorkerTokens tokens) := by
  unfold applyWorkerTokens
  split
  next name value =>
    refine .ite (.int (fun _ => rfl) fun _ => rfl) <| .ite (.other rfl rfl) <| .ite ?_ <|
      .ite ?_ (.other rfl rfl)
    all_goals
      cases stoi value with
      | none => exact .other rfl rfl
      | some sz => exact .ite (.other rfl rfl) (.other rfl rfl)
  next => exact .ite (.ite (.other rfl rfl) (.other rfl rfl)) (.other rfl rfl)

theorem applyBackend_step {endpoint weight : Bytes} :
    Step tokens c (applyBackend makeAddress c endpoint weight) := by
  unfold applyBackend
  split
  · exact .other rfl rfl
  split
  case h_2 => exact .other rfl rfl
  split
  · exact .other rfl rfl
  split
  · exact .other rfl rfl
  next weight hw =>
    refine .modifyBack (fun cl b hb => ?_) (fun cl ns hns => .inl hns)
    rcases List.mem_append.mp hb with hb | hb
    · exact .inl hb
    · rw [List.mem_singleton.mp hb]
      refine .inr ⟨?_, ?_⟩
      · dsimp only
        omega
      · dsimp only
        omega

theorem applyClusterTokens_step : Step tokens c (applyClusterTokens makeAddress c tokens) := by
  have protocol : ∀ p, Step tokens c (c.modifyBack ({ · with protocol := p }), true) := fun p =>
    .modifyBack (fun _ _ hb => .inl hb) (fun _ _ hns => .inl hns)
  unfold applyClusterTokens
  cases tokens with
  | nil => exact .other rfl rfl
  | cons name values =>
    refine .ite (.ite (.other rfl rfl) (.other rfl rfl)) <| .ite ?_ <|
      .ite (.ite (.other rfl rfl) <| .ite (.other rfl rfl) ?_) <|
      .ite (.ite (.other rfl rfl) (.other rfl rfl)) <|
      .ite (.ite ?_ (.other rfl rfl)) (.other rfl rfl)
    · match values with
      | [value] => exact .ite (protocol _) <| .ite (protocol _) (.other rfl rfl)
      | [] | _ :: _ :: _ => exact .other rfl rfl
    · refine .modifyBack (fun _ _ hb => .inl hb) (fun _ ns hns => ?_)
      rcases List.mem_append.mp hns with hns | hns
      · exact .inl hns
      · exact .inr (List.mem_cons_of_mem _ hns)
    · match values with
      | [endpoint, weight] => exact applyBackend_step
      | [] | [_] | _ :: _ :: _ :: _ => exact .other rfl rfl

theorem applyTokens_step : Step tokens c (applyTokens makeAddress c tokens) := by
  unfold applyTokens
  split
  · exact applyGlobalTokens_step
  · exact .ite applyClusterTokens_step <| .ite applyWorkerTokens_step (.other rfl rfl)

theorem ClusterStep.backends {cs cs' : List Cluster} (hs : ClusterStep tokens cs cs')
    (h : ∀ cl ∈ cs, ∀ b ∈ cl.backends, 0 < b.port ∧ 0 < b.weight) :
    ∀ cl ∈ cs', ∀ b ∈ cl.backends, 0 < b.port ∧ 0 < b.weight := by
  intro cl hcl b hb
  cases hs with
  | same => exact h cl hcl b hb
  | opened =>
    rcases List.mem_append.mp hcl with hcl | hcl
    · exact h cl hcl b hb
    · rw [List.mem_singleton.mp hcl] at hb
      cases hb
  | changed hinit hback _ =>
    subst hinit
    rcases List.mem_append.mp hcl with hcl | hcl
    · exact h cl (List.mem_append_left _ hcl) b hb
    · rw [List.mem_singleton.mp hcl] at hb
      rcases hback b hb with hold | hnew
      · exact h _ (List.mem_append_right _ (List.mem_singleton_self _)) b hold
      · exact hnew

theorem ClusterStep.namespaces {cs cs' : List Cluster} (hs : ClusterStep tokens cs cs')
    (ht : ∀ t ∈ tokens, t ≠ []) (h : ∀ cl ∈ cs, ∀ ns ∈ cl.namespaces, ns ≠ []) :
    ∀ cl ∈ cs', ∀ ns ∈ cl.namespaces, ns ≠ [] := by
  intro cl hcl ns hns
  cases hs with
  | same => exact h cl hcl ns hns
  | opened =>
    rcases List.mem_append.mp hcl with hcl | hcl
    · exact h cl hcl ns hns
    · rw [List.mem_singleton.mp hcl] at hns
      cases hns
  | changed hinit _ hname =>
    subst hinit
    rcases List.mem_append.mp hcl with hcl | hcl
    · exact h cl (List.mem_append_left _ hcl) ns hns
    · rw [List.mem_singleton.mp hcl] at hns
      rcases hname ns hns with hold | hnew
      · exact h _ (List.mem_append_right _ (List.mem_singleton_self _)) ns hold
      · exact ht ns hnew

theorem Step.wellformed {c' : Config} (hs : Step tokens c (c', true)) (ht : ∀ t ∈ tokens, t ≠ [])
    (h : c.Wellformed) : c'.Wellformed := by
  refine ⟨hs.clusters.backends h.backends, hs.clusters.namespaces ht h.namespaces, ?_⟩
  rcases hs.bound rfl with hm | hm
  · rw [hm]
    exact h.maxNamespaceLength
  · exact hm

theorem tokenizeLine_ne_nil : ∀ (line : Bytes) (word : Option Bytes), (∀ w ∈ word, w ≠ []) →
    ∀ t ∈ tokenizeLine line word, t ≠ [] := by
  intro line
  induction line with
  | nil =>
    intro word hw t ht
    exact hw t (by simpa [tokenizeLine] using ht)
  | cons ch line ih =>
    intro word hw t ht
    rw [tokenizeLine] at ht
    split at ht
    · exact hw t (by simpa using ht)
    split at ht
    · rcases List.mem_append.mp ht with ht | ht
      · exact hw t (by simpa using ht)
      · exact ih none (by simp) t ht
    · exact ih _ (by simp) t ht

/-- What every accepted line keeps, an accepted file keeps. -/
theorem traverse_invariant {handler : Config → List Bytes → Config × Bool} {I : Config → Prop}
    {c' : Config} (step : ∀ c tokens, (∀ t ∈ tokens, t ≠ []) → I c → (handler c tokens).2 = true →
      I (handler c tokens).1) :
    ∀ (lines : List Bytes) (c : Config), I c → traverse handler c lines = (c', true) → I c' := by
  intro lines
  induction lines with
  | nil =>
    intro c h hc
    rw [← (Prod.mk.inj hc).1]
    exact h
  | cons line lines ih =>
    intro c h hc
    have ht := tokenizeLine_ne_nil line none (by simp)
    rw [traverse] at hc
    generalize tokenizeLine line none = tokens at ht hc
    cases tokens with
    | nil => exact ih c h hc
    | cons name values =>
      have hs := step c (name :: values) ht h
      simp only at hc
      generalize handler c (name :: values) = r at hs hc
      obtain ⟨next, ok⟩ := r
      cases ok with
      | true => exact ih next (hs rfl) hc
      | false => cases (Prod.mk.inj hc).2

/-- A configuration as `Initialize` has read it from a file. -/
def Loaded (makeAddress : Bytes → Option UInt32) (c : Config) : Prop :=
  ∃ lines, initializeFrom makeAddress lines = (c, true)

theorem Loaded.wellformed (h : Loaded makeAddress c) : c.Wellformed := by
  obtain ⟨lines, hl⟩ := h
  have hnew : new.Wellformed := ⟨by simp [new], by simp [new], by decide⟩
  refine traverse_invariant (fun c tokens ht h hok => ?_) lines new hnew hl
  have hs : Step tokens c ((applyTokens makeAddress c tokens).1, true) := hok ▸ applyTokens_step
  exact hs.wellformed ht h

/-- Everything but the clusters, the open blocks and the last error. -/
def settings (c : Config) : Config := { c with clusters := [], context := [], errorMsg := [] }

theorem applyClusterTokens_settings :
    (applyClusterTokens makeAddress c tokens).1.settings = c.settings := by
  have ite : ∀ {p : Prop} [Decidable p] {x y : Config × Bool}, x.1.settings = c.settings →
      y.1.settings = c.settings → (if p then x else y).1.settings = c.settings := by
    intro p _ x y hx hy
    split
    · exact hx
    · exact hy
  unfold applyClusterTokens
  cases tokens with
  | nil => rfl
  | cons name values =>
    refine ite (ite rfl rfl) <| ite ?_ <| ite (ite rfl <| ite rfl rfl) <| ite (ite rfl rfl) <|
      ite (ite ?_ rfl) rfl
    · match values with
      | [value] => exact ite rfl <| ite rfl rfl
      | [] | _ :: _ :: _ => rfl
    · match values with
      | [endpoint, weight] =>
        simp only [applyBackend]
        split
        · rfl
        split
        · split
          · rfl
          · exact ite rfl rfl
        · rfl
      | [] | [_] | _ :: _ :: _ :: _ => rfl

/-- The values of `reserved_buffer_space` that the configuration accepts. The last one is an
`int` of two gigabytes; larger sizes have become zero. -/
def AcceptedReservedSpace (n : ℕ) : Prop :=
  n = 0 ∨ (∃ k ≤ 20, n = 1024 * 2 ^ k) ∨ n = 2 ^ 64 - 2 ^ 31

structure Sized (c : Config) : Prop where
  buffer : AcceptedBufferSize c.bufferSize
  reserved : AcceptedReservedSpace c.reservedBufferSpace

/-- The bit test lets the least `int` through as well. -/
theorem isPowerOfTwo_cases {sz : ℤ} (h : isPowerOfTwo sz = true) (hlo : -2 ^ 31 ≤ sz)
    (hhi : sz < 2 ^ 31) : sz = 0 ∨ sz = -2 ^ 31 ∨ ∃ k ≤ 30, sz = 2 ^ k := by
  rw [isPowerOfTwo, decide_eq_true_eq] at h
  have hand := congrArg BitVec.toNat h
  rw [BitVec.toNat_and, BitVec.toNat_ofInt, BitVec.toNat_ofInt] at hand
  by_cases hz : sz = 0
  · exact .inl hz
  have hpred : ((sz - 1) % (2 ^ 32 : ℕ)).toNat = (sz % (2 ^ 32 : ℕ)).toNat - 1 := by omega
  rw [hpred] at hand
  have hne : (sz % (2 ^ 32 : ℕ)).toNat ≠ 0 := by omega
  obtain ⟨k, hk⟩ := (Nat.and_sub_one_eq_zero_iff_isPowerOfTwo hne).mp hand
  by_cases hpos : 0 < sz
  · have hsz : sz = 2 ^ k := by
      have : sz = ((sz % (2 ^ 32 : ℕ)).toNat : ℤ) := by omega
      rw [this, hk]
      norm_cast
    have hlt : (2 : ℕ) ^ k < 2 ^ 31 := by
      rw [← hk]
      omega
    have := (Nat.pow_lt_pow_iff_right (by decide)).mp hlt
    exact .inr (.inr ⟨k, by omega, hsz⟩)
  · -- a negative number with one bit set is the least one
    have hlo' : (2 : ℕ) ^ 31 ≤ 2 ^ k := by
      rw [← hk]
      omega
    have hhi' : (2 : ℕ) ^ k < 2 ^ 32 := by
      rw [← hk]
      omega
    have h₁ := (Nat.pow_le_pow_iff_right (by decide)).mp hlo'
    have h₂ := (Nat.pow_lt_pow_iff_right (by decide)).mp hhi'
    obtain rfl : k = 31 := by omega
    exact .inr (.inl (by omega))

theorem accepted_bufferSize {sz : ℤ} (h : ¬ (sz < 1 ∨ sz > 1024 ∨ (!isPowerOfTwo sz) = true)) :
    AcceptedBufferSize (intToSize (sz * 1024)) := by
  have hp : isPowerOfTwo sz = true := by
    have := fun hn => h (.inr (.inr hn))
    simpa using this
  rcases isPowerOfTwo_cases hp (by omega) (by omega) with rfl | rfl | ⟨k, _, rfl⟩
  · omega
  · omega
  · have hk : (2 : ℤ) ^ k ≤ 2 ^ 10 := by omega
    have hk : (2 : ℕ) ^ k ≤ 2 ^ 10 := by exact_mod_cast hk
    have hk : k ≤ 10 := (Nat.pow_le_pow_iff_right (by decide)).mp hk
    have hall : ∀ k ≤ 10, intToSize ((2 : ℤ) ^ k * 1024) = 1024 * 2 ^ k := by decide
    exact ⟨k, hk, hall k hk⟩

theorem accepted_reservedSpace {sz : ℤ} (h : isPowerOfTwo sz = true) (hlo : -2 ^ 31 ≤ sz)
    (hhi : sz < 2 ^ 31) :
    AcceptedReservedSpace (intToSize (Int.bmod (sz * 1024) (2 ^ 32))) := by
  rcases isPowerOfTwo_cases h hlo hhi with rfl | rfl | ⟨k, hk, rfl⟩
  · exact .inl (by decide)
  · exact .inl (by decide)
  · have hall : ∀ k ≤ 30, intToSize (Int.bmod ((2 : ℤ) ^ k * 1024) (2 ^ 32)) =
        if k ≤ 20 then 1024 * 2 ^ k else if k = 21 then 2 ^ 64 - 2 ^ 31 else 0 := by decide
    rw [hall k hk]
    split
    next h => exact .inr (.inl ⟨k, h, rfl⟩)
    next =>
      split
      · exact .inr (.inr rfl)
      · exact .inl rfl

theorem sized_ite {p : Prop} [Decidable p] {x y : Config × Bool} (hx : x.1.Sized) (hy : y.1.Sized) :
    (if p then x else y).1.Sized := by
  split
  · exact hx
  · exact hy

section Sized
variable (h : c.Sized)
include h

theorem Sized.of_same {d : Config} (hb : d.bufferSize = c.bufferSize)
    (hr : d.reservedBufferSpace = c.reservedBufferSpace) : d.Sized :=
  ⟨hb ▸ h.buffer, hr ▸ h.reserved⟩

theorem Sized.applyInt {value : Bytes} {msg : String} {set : ℤ → Config} (hs : ∀ i, (set i).Sized) :
    (c.applyInt value msg set).1.Sized := by
  rw [Config.applyInt]
  split
  · exact hs _
  · exact h.of_same rfl rfl

theorem applyGlobalTokens_sized : (c.applyGlobalTokens tokens).1.Sized := by
  have other : ∀ {d : Config}, d.bufferSize = c.bufferSize →
      d.reservedBufferSpace = c.reservedBufferSpace → d.Sized := fun hb hr => h.of_same hb hr
  have int : ∀ {value : Bytes} {msg : String} {set : ℤ → Config}, (∀ i, (set i).Sized) →
      (c.applyInt value msg set).1.Sized := fun hs => h.applyInt hs
  unfold applyGlobalTokens
  split
  next name value =>
    refine sized_ite (other rfl rfl) <| sized_ite (other rfl rfl) <| sized_ite (other rfl rfl) <|
      sized_ite (int fun _ => other rfl rfl) <| sized_ite (int fun _ => other rfl rfl) <|
      sized_ite (int fun _ => other rfl rfl) <| sized_ite (int fun _ => other rfl rfl) <|
      sized_ite ?_ <| sized_ite (other rfl rfl) <| sized_ite (other rfl rfl) <|
      sized_ite (other rfl rfl) <| sized_ite (other rfl rfl) (other rfl rfl)
    cases stoi value with
    | none => exact other rfl rfl
    | some i => exact sized_ite (other rfl rfl) (other rfl rfl)
  next => exact other rfl rfl

theorem applyWorkerTokens_sized : (c.applyWorkerTokens tokens).1.Sized := by
  have other : ∀ {d : Config}, d.bufferSize = c.bufferSize →
      d.reservedBufferSpace = c.reservedBufferSpace → d.Sized := fun hb hr => h.of_same hb hr
  unfold applyWorkerTokens
  split
  next name value =>
    refine sized_ite (h.applyInt fun _ => other rfl rfl) <| sized_ite (other rfl rfl) <|
      sized_ite ?_ <| sized_ite ?_ (other rfl rfl)
    · cases stoi value with
      | none => exact other rfl rfl
      | some sz =>
        simp only
        split
        next => exact other rfl rfl
        next hsz => exact ⟨accepted_bufferSize hsz, h.reserved⟩
    · cases hv : stoi value with
      | none => exact other rfl rfl
      | some sz =>
        simp only
        split
        next => exact other rfl rfl
        next hsz =>
          obtain ⟨hlo, hhi⟩ := stoi_bounds hv
          exact ⟨h.buffer, accepted_reservedSpace (by simpa using hsz) hlo hhi⟩
  next => exact sized_ite (sized_ite (other rfl rfl) (other rfl rfl)) (other rfl rfl)

theorem applyTokens_sized : (applyTokens makeAddress c tokens).1.Sized := by
  unfold applyTokens
  split
  · exact applyGlobalTokens_sized h
  · refine sized_ite ?_ <| sized_ite (applyWorkerTokens_sized h) (h.of_same rfl rfl)
    have hs : (applyClusterTokens makeAddress c tokens).1.settings = c.settings :=
      applyClusterTokens_settings
    have hb := congrArg Config.bufferSize hs
    have hr := congrArg Config.reservedBufferSpace hs
    exact h.of_same hb hr

end Sized

theorem Loaded.sized (h : Loaded makeAddress c) : c.Sized := by
  obtain ⟨lines, hl⟩ := h
  have hnew : new.Sized := ⟨⟨2, by decide, rfl⟩, .inl rfl⟩
  exact traverse_invariant (fun c tokens _ h _ => applyTokens_sized h) lines new hnew hl

end Config
end Yarmproxy
