import Yarmproxy.Config
import Mathlib.Data.List.Sort

/-! # Locating a key

A cluster's backends become points on a ring, the namespaces of all clusters a map from
tagged names to rings. The registration and the lookup build their names separately. -/
namespace Yarmproxy

structure Endpoint where
  address : UInt32
  port : UInt16
  deriving DecidableEq, Repr

def Backend.endpoint (b : Backend) : Endpoint := ⟨b.host, (intToSize b.port).toUInt16⟩

def emplace {α β : Type} [BEq α] (m : List (α × β)) (k : α) (v : β) : List (α × β) :=
  if (m.lookup k).isSome then m else m ++ [(k, v)]

theorem lookup_emplace {α β : Type} [BEq α] [LawfulBEq α] (m : List (α × β)) (k k' : α) (v : β) :
    (emplace m k v).lookup k' = (m.lookup k').or (if k' == k then some v else none) := by
  rw [emplace]
  split
  next h =>
    cases hk : k' == k with
    | true =>
      obtain rfl := eq_of_beq hk
      rw [Option.or_of_isSome h]
    | false => rw [if_neg Bool.false_ne_true, Option.or_none]
  next h =>
    rw [List.lookup_append]
    congr 1
    cases hk : k' == k with
    | true => rw [List.lookup_cons, hk, if_pos rfl]
    | false =>
      rw [List.lookup_cons, hk, if_neg Bool.false_ne_true]
      rfl

structure CachePoint where
  hashPoint : UInt32
  endpoint : Endpoint
  deriving DecidableEq, Repr

/-- The order of a `std::map` over endpoints: by address, then by port. -/
def Endpoint.rank (ep : Endpoint) : ℕ := ep.address.toNat * 2 ^ 16 + ep.port.toNat

def emplaceNode (nodes : List (Endpoint × ℕ)) (ep : Endpoint) (weight : ℕ) : List (Endpoint × ℕ) :=
  if (nodes.lookup ep).isSome then nodes
  else nodes.orderedInsert (fun x y => x.1.rank ≤ y.1.rank) (ep, weight)

def weightedNodes (backends : List Backend) : List (Endpoint × ℕ) :=
  backends.foldl (fun nodes b => emplaceNode nodes b.endpoint b.weight) []

/-- `snprintf(ss, 63, "%lu-%lu-%u", k, address, port)`, which never reaches the 63 bytes. -/
def pointText (k : ℕ) (ep : Endpoint) : Bytes :=
  dec k ++ ascii "-" ++ dec ep.address.toNat ++ ascii "-" ++ dec ep.port.toNat

def cachePoints (hash : Bytes → UInt32) (nodes : List (Endpoint × ℕ)) : List CachePoint :=
  nodes.flatMap fun (ep, weight) => (List.range weight).map fun k => ⟨hash (pointText k ep), ep⟩

/-- `std::sort` by hash point: the order of equal hash points is not specified. -/
structure PointSort where
  sort : List CachePoint → List CachePoint
  perm : ∀ l, (sort l).Perm l
  sorted : ∀ l, (sort l).Pairwise fun p q => p.hashPoint ≤ q.hashPoint

def PointSort.merge : PointSort where
  sort l := l.mergeSort fun p q => decide (p.hashPoint ≤ q.hashPoint)
  perm l := List.mergeSort_perm l _
  sorted l := by
    have htrans : ∀ a b c : CachePoint, decide (a.hashPoint ≤ b.hashPoint) = true →
        decide (b.hashPoint ≤ c.hashPoint) = true → decide (a.hashPoint ≤ c.hashPoint) = true :=
      fun a b c hab hbc => decide_eq_true
        (UInt32.le_trans (of_decide_eq_true hab) (of_decide_eq_true hbc))
    have htotal : ∀ a b : CachePoint,
        (decide (a.hashPoint ≤ b.hashPoint) || decide (b.hashPoint ≤ a.hashPoint)) = true :=
      fun a b => by simpa using UInt32.le_total a.hashPoint b.hashPoint
    exact (List.pairwise_mergeSort htrans htotal l).imp fun hab => of_decide_eq_true hab

structure KeyDistributer where
  cachePoints : List CachePoint
  deriving DecidableEq, Repr

section Ring
variable (hash : Bytes → UInt32) (s : PointSort)

def KeyDistributer.new (backends : List Backend) : KeyDistributer :=
  ⟨s.sort (Yarmproxy.cachePoints hash (weightedNodes backends))⟩

/-- `std::lower_bound`, around the ring; an empty ring yields the default endpoint. -/
def KeyDistributer.locateCacheNode (d : KeyDistributer) (key : Bytes) : Endpoint :=
  match d.cachePoints.find? fun p => decide (hash key ≤ p.hashPoint) with
  | some p => p.endpoint
  | none => (d.cachePoints.head?.map CachePoint.endpoint).getD ⟨0, 0⟩

end Ring

section Nodes
variable {hash : Bytes → UInt32} {s : PointSort} {backends : List Backend}

theorem mem_emplaceNode {nodes : List (Endpoint × ℕ)} {ep : Endpoint} {weight : ℕ}
    {e : Endpoint × ℕ} (h : e ∈ emplaceNode nodes ep weight) : e ∈ nodes ∨ e = (ep, weight) := by
  rw [emplaceNode] at h
  split at h
  · exact .inl h
  · exact ((List.mem_orderedInsert _).mp h).symm

theorem emplaceNode_ne_nil {nodes : List (Endpoint × ℕ)} {ep : Endpoint} {weight : ℕ} :
    emplaceNode nodes ep weight ≠ [] := by
  rw [emplaceNode]
  split
  next h =>
    rintro rfl
    cases h
  next => exact List.ne_nil_of_mem ((List.mem_orderedInsert _).mpr (.inl rfl))

theorem mem_weightedNodes {e : Endpoint × ℕ} (h : e ∈ weightedNodes backends) :
    ∃ b ∈ backends, e = (b.endpoint, b.weight) := by
  suffices hs : ∀ (bs : List Backend) (m : List (Endpoint × ℕ)),
      e ∈ bs.foldl (fun nodes b => emplaceNode nodes b.endpoint b.weight) m →
      e ∈ m ∨ ∃ b ∈ bs, e = (b.endpoint, b.weight) by
    rcases hs backends [] h with h | h
    · cases h
    · exact h
  intro bs
  induction bs with
  | nil => exact fun _ h => .inl h
  | cons b bs ih =>
    intro m h
    rcases ih _ h with h | ⟨b', hb', he⟩
    · rcases mem_emplaceNode h with h | h
      · exact .inl h
      · exact .inr ⟨b, by simp, h⟩
    · exact .inr ⟨b', by simp [hb'], he⟩

theorem weightedNodes_ne_nil (h : backends ≠ []) : weightedNodes backends ≠ [] := by
  suffices hs : ∀ (bs : List Backend) (m : List (Endpoint × ℕ)), m ≠ [] →
      bs.foldl (fun nodes b => emplaceNode nodes b.endpoint b.weight) m ≠ [] by
    obtain ⟨b, bs, rfl⟩ := List.exists_cons_of_ne_nil h
    exact hs bs _ emplaceNode_ne_nil
  intro bs
  induction bs with
  | nil => exact fun _ h => h
  | cons b bs ih => exact fun _ _ => ih _ emplaceNode_ne_nil

theorem mem_cachePoints {nodes : List (Endpoint × ℕ)} {p : CachePoint}
    (h : p ∈ cachePoints hash nodes) : ∃ w, (p.endpoint, w) ∈ nodes := by
  obtain ⟨⟨ep, w⟩, hn, hp⟩ := List.mem_flatMap.mp h
  obtain ⟨k, _, rfl⟩ := List.mem_map.mp hp
  exact ⟨w, hn⟩

theorem locateCacheNode_mem (hne : backends ≠ []) (hw : ∀ b ∈ backends, 0 < b.weight)
    (key : Bytes) :
    (KeyDistributer.new hash s backends).locateCacheNode hash key ∈
      backends.map Backend.endpoint := by
  have hmem : ∀ p ∈ (KeyDistributer.new hash s backends).cachePoints,
      p.endpoint ∈ backends.map Backend.endpoint := by
    intro p hp
    obtain ⟨w, hn⟩ := mem_cachePoints ((s.perm _).mem_iff.mp hp)
    obtain ⟨b, hb, he⟩ := mem_weightedNodes hn
    exact List.mem_map.mpr ⟨b, hb, (Prod.mk.inj he).1.symm⟩
  have hpoints : (KeyDistributer.new hash s backends).cachePoints ≠ [] := by
    obtain ⟨⟨ep, w⟩, nodes, hn⟩ := List.exists_cons_of_ne_nil (weightedNodes_ne_nil hne)
    obtain ⟨b, hb, he⟩ := mem_weightedNodes (hn ▸ List.mem_cons_self)
    have hpos : 0 < w := (Prod.mk.inj he).2 ▸ hw b hb
    intro hnil
    have := (s.perm (cachePoints hash (weightedNodes backends))).length_eq
    change s.sort (cachePoints hash (weightedNodes backends)) = [] at hnil
    rw [hnil, hn, cachePoints, List.flatMap_cons, List.length_append, List.length_map,
      List.length_range] at this
    simp only [List.length_nil] at this
    omega
  rw [KeyDistributer.locateCacheNode]
  split
  next p hp => exact hmem p (List.mem_of_find?_eq_some hp)
  next =>
    obtain ⟨p, ps, hp⟩ := List.exists_cons_of_ne_nil hpoints
    rw [hp]
    exact hmem p (hp ▸ List.mem_cons_self)

end Nodes

def protocolNs : ProtocolType → Bytes
  | .memcached => ascii "m"
  | .redis => ascii "r"
  | .none => []

/-- `ns == "_" ? "" : ns.c_str()`: what is written of a namespace ends at its first NUL byte. -/
def registeredAs (ns : Bytes) : Bytes := if ns = ascii "_" then [] else ns.takeWhile (· != 0)

def registeredName (protocol : ProtocolType) (ns : Bytes) : Bytes :=
  protocolNs protocol ++ ascii "/" ++ registeredAs ns

structure KeyLocator where
  namespaceContinum : List (Bytes × KeyDistributer)
  deriving DecidableEq, Repr

section Locator
variable (hash : Bytes → UInt32) (s : PointSort)

def registerCluster (m : List (Bytes × KeyDistributer)) (cl : Cluster) :
    List (Bytes × KeyDistributer) :=
  cl.namespaces.foldl
    (fun m ns => emplace m (registeredName cl.protocol ns) (.new hash s cl.backends)) m

/-- `KeyLocator::Initialize`; `none` when it returns false. -/
def KeyLocator.initializeFrom (c : Config) : Option KeyLocator :=
  if c.clusters = [] then none else some ⟨c.clusters.foldl (registerCluster hash s) []⟩

end Locator

def defaultNamespace : ProtocolType → Bytes
  | .memcached => ascii "1/"
  | _ => ascii "0/"

/-- `std::min(int(len), max_namespace_length() + 1)`, as `memchr` takes it. -/
def searchLength (maxNamespaceLength : ℤ) (len : ℕ) : ℕ :=
  intToSize (min (sizeToInt len) (Int.bmod (maxNamespaceLength + 1) (2 ^ 32)))

/-- `none` when the search for the colon runs past the end of the key. -/
def keyNamespace (maxNamespaceLength : ℤ) (key : Bytes) (protocol : ProtocolType) : Option Bytes :=
  let n := searchLength maxNamespaceLength key.length
  match memchr key (ch ':') n with
  | some p => some (protocolNs protocol ++ ascii "/" ++ key.take p)
  | none => if n ≤ key.length then some (protocolNs protocol ++ ascii "/") else none

/-- `none` when the locator reads past the key or follows an absent distributer. -/
def KeyLocator.locate (hash : Bytes → UInt32) (l : KeyLocator) (maxNamespaceLength : ℤ)
    (key : Bytes) (protocol : ProtocolType) : Option Endpoint := do
  let name ← keyNamespace maxNamespaceLength key protocol
  let continuum ← match l.namespaceContinum.lookup name with
    | some d => some d
    | none => l.namespaceContinum.lookup (defaultNamespace protocol)
  some (continuum.locateCacheNode hash key)

def Config.clusterOf (c : Config) (protocol : ProtocolType) (ns : Bytes) : Option Cluster :=
  c.clusters.find? fun cl => cl.protocol = protocol ∧ ns ∈ cl.namespaces

def Config.registrant (c : Config) (protocol : ProtocolType) (name : Bytes) : Option Cluster :=
  c.clusters.find? fun cl => cl.protocol = protocol ∧ name ∈ cl.namespaces.map registeredAs

section Registered
variable {hash : Bytes → UInt32} {s : PointSort}

theorem registeredName_protocol {p q : ProtocolType} {ns : Bytes} {tail : Bytes}
    (h : registeredName p ns = protocolNs q ++ ascii "/" ++ tail) :
    p = q ∧ tail = registeredAs ns := by
  have hm : ascii "m" = [ch 'm'] := rfl
  have hr : ascii "r" = [ch 'r'] := rfl
  have hs : ascii "/" = [ch '/'] := rfl
  have hne : ch 'm' ≠ ch 'r' ∧ ch 'm' ≠ ch '/' ∧ ch 'r' ≠ ch '/' := by decide
  rw [registeredName] at h
  cases p <;> cases q <;> simp_all [protocolNs]

theorem lookup_registerNamespaces {d : KeyDistributer} {p : ProtocolType} (name : Bytes) :
    ∀ (nss : List Bytes) (m : List (Bytes × KeyDistributer)),
      (nss.foldl (fun m ns => emplace m (registeredName p ns) d) m).lookup name =
        (m.lookup name).or (if ∃ ns ∈ nss, registeredName p ns = name then some d else none) := by
  intro nss
  induction nss with
  | nil => intro m; simp
  | cons ns nss ih =>
    intro m
    rw [List.foldl_cons, ih, lookup_emplace, Option.or_assoc]
    congr 1
    by_cases h : registeredName p ns = name
    · have hex : ∃ ns' ∈ ns :: nss, registeredName p ns' = name := ⟨ns, List.mem_cons_self, h⟩
      rw [if_pos (beq_iff_eq.mpr h.symm), if_pos hex]
      rfl
    · rw [if_neg (fun he => h (beq_iff_eq.mp he).symm), Option.none_or]
      simp [h]

theorem lookup_registered (name : Bytes) :
    ∀ (cls : List Cluster) (m : List (Bytes × KeyDistributer)),
    (cls.foldl (registerCluster hash s) m).lookup name =
      (m.lookup name).or ((cls.find? fun cl =>
        decide (∃ ns ∈ cl.namespaces, registeredName cl.protocol ns = name)).map fun cl =>
          .new hash s cl.backends) := by
  intro cls
  induction cls with
  | nil => intro m; simp
  | cons cl cls ih =>
    intro m
    rw [List.foldl_cons, ih, registerCluster, lookup_registerNamespaces, Option.or_assoc]
    congr 1
    by_cases h : ∃ ns ∈ cl.namespaces, registeredName cl.protocol ns = name
    · rw [if_pos h, List.find?_cons, decide_eq_true h]
      rfl
    · rw [if_neg h, List.find?_cons, decide_eq_false h, Option.none_or]

theorem lookup_defaultNamespace (cls : List Cluster) (p : ProtocolType) :
    (cls.foldl (registerCluster hash s) []).lookup (defaultNamespace p) = none := by
  have hne : ∀ q ns, registeredName q ns ≠ defaultNamespace p := by
    intro q ns h
    have hhead := congrArg List.head? h
    have hm : ascii "m" = [ch 'm'] := rfl
    have hr : ascii "r" = [ch 'r'] := rfl
    have hs : ascii "/" = [ch '/'] := rfl
    cases q <;> cases p <;>
      simp only [registeredName, protocolNs, hm, hr, hs, List.nil_append, List.cons_append,
        List.head?_cons] at hhead <;>
      exact absurd hhead (by decide)
  rw [lookup_registered, List.find?_eq_none.mpr]
  · rfl
  · intro cl _
    simp [hne]

theorem exists_registered_iff {cl : Cluster} {p : ProtocolType} {tail : Bytes} :
    (∃ ns ∈ cl.namespaces, registeredName cl.protocol ns = protocolNs p ++ ascii "/" ++ tail) ↔
      cl.protocol = p ∧ tail ∈ cl.namespaces.map registeredAs := by
  constructor
  · rintro ⟨ns, hmem, h⟩
    obtain ⟨hp, ht⟩ := registeredName_protocol h
    exact ⟨hp, List.mem_map.mpr ⟨ns, hmem, ht.symm⟩⟩
  · rintro ⟨rfl, hmem⟩
    obtain ⟨ns, hns, rfl⟩ := List.mem_map.mp hmem
    exact ⟨ns, hns, rfl⟩

theorem lookup_name (hash : Bytes → UInt32) (s : PointSort) (c : Config) (p : ProtocolType)
    (tail : Bytes) :
    (c.clusters.foldl (registerCluster hash s) []).lookup (protocolNs p ++ ascii "/" ++ tail) =
      (c.registrant p tail).map fun cl => .new hash s cl.backends := by
  rw [lookup_registered, List.lookup_nil, Option.none_or, Config.registrant]
  congr 1
  exact Lists.find?_congr_mem fun cl _ => decide_eq_decide.mpr exists_registered_iff

end Registered

def keyPrefix (maxNamespaceLength : ℤ) (key : Bytes) : Option Bytes :=
  match key.findIdx? (· == ch ':') with
  | some i => if (i : ℤ) ≤ maxNamespaceLength then some (key.take i) else none
  | none => none

def Config.servingCluster (c : Config) (protocol : ProtocolType) (key : Bytes) : Option Cluster :=
  match keyPrefix c.maxNamespaceLength key with
  | some ns => (c.clusterOf protocol ns).or (c.clusterOf protocol (ascii "_"))
  | none => c.clusterOf protocol (ascii "_")

/-- A loaded configuration with a default cluster, every cluster with a backend and every
namespace within the bound. -/
structure Config.Serves (makeAddress : Bytes → Option UInt32) (protocol : ProtocolType)
    (c : Config) : Prop where
  loaded : c.Loaded makeAddress
  backends : ∀ cl ∈ c.clusters, cl.backends ≠ []
  short : ∀ cl ∈ c.clusters, ∀ ns ∈ cl.namespaces, (ns.length : ℤ) ≤ c.maxNamespaceLength
  hasDefault : ∃ cl ∈ c.clusters, cl.protocol = protocol ∧ ascii "_" ∈ cl.namespaces

/-- `Locate` finds a backend of the cluster that is to serve the key. -/
def Honoured (hash : Bytes → UInt32) (s : PointSort) (c : Config) (protocol : ProtocolType)
    (key : Bytes) : Prop :=
  ∃ l ep cl, KeyLocator.initializeFrom hash s c = some l ∧
    l.locate hash c.maxNamespaceLength key protocol = some ep ∧
    c.servingCluster protocol key = some cl ∧ ep ∈ cl.backends.map Backend.endpoint

def soughtPrefix (maxNamespaceLength : ℤ) (key : Bytes) : Bytes :=
  match memchr key (ch ':') (searchLength maxNamespaceLength key.length) with
  | some i => key.take i
  | none => []

/-- The search for the colon ends inside the key, and the prefix it yields is registered for the
cluster that is to serve the key. The ring of another cluster will do where it places the key at a
backend that the two have in common. -/
structure Namespaced (hash : Bytes → UInt32) (s : PointSort) (c : Config) (protocol : ProtocolType)
    (key : Bytes) : Prop where
  inside : memchr key (ch ':') (searchLength c.maxNamespaceLength key.length) = none →
    searchLength c.maxNamespaceLength key.length ≤ key.length
  served : ∃ cl ∈ c.registrant protocol (soughtPrefix c.maxNamespaceLength key),
    ∃ cl' ∈ c.servingCluster protocol key, cl = cl' ∨
      (KeyDistributer.new hash s cl.backends).locateCacheNode hash key ∈
        cl'.backends.map Backend.endpoint

def PrefixDeclared (c : Config) (protocol : ProtocolType) (key : Bytes) : Prop :=
  match memchr key (ch ':') (searchLength c.maxNamespaceLength key.length) with
  | some i => key.take i = [] ∨ key.take i ≠ ascii "_" ∧
      ∃ cl ∈ c.clusters, cl.protocol = protocol ∧ key.take i ∈ cl.namespaces
  | none => searchLength c.maxNamespaceLength key.length ≤ key.length

instance (c : Config) (protocol : ProtocolType) (key : Bytes) :
    Decidable (PrefixDeclared c protocol key) := by
  unfold PrefixDeclared
  split <;> infer_instance

section Locate
variable {hash : Bytes → UInt32} {s : PointSort} {makeAddress : Bytes → Option UInt32} {c : Config}
  {protocol : ProtocolType} {key : Bytes}

theorem clusterOf_mem {ns : Bytes} {cl : Cluster} (h : c.clusterOf protocol ns = some cl) :
    cl ∈ c.clusters ∧ cl.protocol = protocol ∧ ns ∈ cl.namespaces :=
  ⟨List.mem_of_find?_eq_some h, by simpa using List.find?_some h⟩

theorem clusterOf_isSome {ns : Bytes} : (c.clusterOf protocol ns).isSome ↔
    ∃ cl ∈ c.clusters, cl.protocol = protocol ∧ ns ∈ cl.namespaces := by
  simp [Config.clusterOf]

theorem keyNamespace_eq_some {name : Bytes} :
    keyNamespace c.maxNamespaceLength key protocol = some name ↔
      (memchr key (ch ':') (searchLength c.maxNamespaceLength key.length) = none →
        searchLength c.maxNamespaceLength key.length ≤ key.length) ∧
      name = protocolNs protocol ++ ascii "/" ++ soughtPrefix c.maxNamespaceLength key := by
  rw [keyNamespace, soughtPrefix]
  cases memchr key (ch ':') (searchLength c.maxNamespaceLength key.length) with
  | some i => simp [eq_comm]
  | none =>
    by_cases hle : searchLength c.maxNamespaceLength key.length ≤ key.length
    · simp [hle, eq_comm]
    · simp [hle]

theorem locate_eq_some (hash : Bytes → UInt32) (s : PointSort) (c : Config)
    (protocol : ProtocolType) (key : Bytes) {ep : Endpoint} :
    KeyLocator.locate hash ⟨c.clusters.foldl (registerCluster hash s) []⟩ c.maxNamespaceLength key
        protocol = some ep ↔
      (memchr key (ch ':') (searchLength c.maxNamespaceLength key.length) = none →
        searchLength c.maxNamespaceLength key.length ≤ key.length) ∧
      ∃ cl ∈ c.registrant protocol (soughtPrefix c.maxNamespaceLength key),
        (KeyDistributer.new hash s cl.backends).locateCacheNode hash key = ep := by
  rw [KeyLocator.locate, Option.bind_eq_bind, Option.bind_eq_some_iff]
  constructor
  · rintro ⟨name, hname, h⟩
    obtain ⟨hinside, rfl⟩ := keyNamespace_eq_some.mp hname
    refine ⟨hinside, ?_⟩
    rw [lookup_name] at h
    cases hfound : c.registrant protocol (soughtPrefix c.maxNamespaceLength key) with
    | none =>
      -- the name that is tried next is nobody's
      rw [hfound, Option.map_none] at h
      simp only [lookup_defaultNamespace] at h
      cases h
    | some cl =>
      rw [hfound] at h
      exact ⟨cl, rfl, Option.some.inj h⟩
  · rintro ⟨hinside, cl, hcl, rfl⟩
    refine ⟨_, keyNamespace_eq_some.mpr ⟨hinside, rfl⟩, ?_⟩
    rw [lookup_name, Option.mem_def.mp hcl]
    rfl

theorem registeredAs_of_plain {ns : Bytes} (h : 0 ∉ ns) :
    registeredAs ns = if ns = ascii "_" then [] else ns := by
  have hall : ns.takeWhile (· != 0) = ns :=
    List.takeWhile_eq_self_iff.mpr fun b hb => bne_iff_ne.mpr (ne_of_mem_of_not_mem hb h)
  rw [registeredAs, hall]

theorem registrant_of_plain (hw : c.Wellformed)
    (hplain : ∀ cl ∈ c.clusters, ∀ ns ∈ cl.namespaces, 0 ∉ ns) (tail : Bytes) :
    c.registrant protocol tail = if tail = [] then c.clusterOf protocol (ascii "_") else
      if tail = ascii "_" then none else c.clusterOf protocol tail := by
  have hmem : ∀ cl ∈ c.clusters, (tail ∈ cl.namespaces.map registeredAs ↔
      tail = [] ∧ ascii "_" ∈ cl.namespaces ∨ tail ≠ ascii "_" ∧ tail ∈ cl.namespaces) := by
    intro cl hcl
    rw [List.mem_map]
    constructor
    · rintro ⟨ns, hns, rfl⟩
      rw [registeredAs_of_plain (hplain cl hcl ns hns)]
      split
      next hu => exact .inl ⟨rfl, hu ▸ hns⟩
      next hu => exact .inr ⟨hu, hns⟩
    · rintro (⟨rfl, hns⟩ | ⟨hu, hns⟩)
      · exact ⟨_, hns, by rw [registeredAs, if_pos rfl]⟩
      · exact ⟨_, hns, by rw [registeredAs_of_plain (hplain cl hcl _ hns), if_neg hu]⟩
  have hempty : ∀ cl ∈ c.clusters, ([] : Bytes) ∉ cl.namespaces := fun cl hcl hns =>
    hw.namespaces cl hcl _ hns rfl
  rw [Config.registrant]
  split
  next ht =>
    refine Lists.find?_congr_mem fun cl hcl => decide_eq_decide.mpr (and_congr_right fun _ => ?_)
    rw [hmem cl hcl, ht]
    simp [hempty cl hcl]
  next ht =>
    split
    next hu =>
      refine List.find?_eq_none.mpr fun cl hcl => ?_
      rw [decide_eq_true_iff, hmem cl hcl]
      rintro ⟨-, ⟨hnil, -⟩ | ⟨hne, -⟩⟩
      · exact ht hnil
      · exact hne hu
    next hu =>
      refine Lists.find?_congr_mem fun cl hcl => decide_eq_decide.mpr (and_congr_right fun _ => ?_)
      rw [hmem cl hcl]
      simp [ht, hu]

theorem bmod_of_half_le {n m : ℕ} (h : (m + 1) / 2 ≤ n) (hn : n < m) :
    Int.bmod n m = (n : ℤ) - m := by
  have hmod : (n : ℤ) % m = n := Int.emod_eq_of_lt (by omega) (by omega)
  rw [Int.bmod_def, hmod, if_neg (by omega)]

theorem sizeToInt_neg {n : ℕ} (h : 2 ^ 31 ≤ n) (hn : n < 2 ^ 32) : sizeToInt n < 0 := by
  have hhalf : (2 ^ 32 + 1) / 2 ≤ n := by omega
  exact (bmod_of_half_le hhalf hn).trans_lt (Int.sub_neg_of_lt (Int.ofNat_lt.mpr hn))

theorem searchLength_cases {m : ℤ} {len : ℕ} (hm : 0 < m ∧ m < 2 ^ 31) (hlen : len < 2 ^ 32) :
    searchLength m len = min len (m.toNat + 1) ∨ len < searchLength m len := by
  have hint : sizeToInt len = len ∨ sizeToInt len < 0 := by
    rcases Nat.lt_or_ge len (2 ^ 31) with h | h
    · exact .inl (sizeToInt_eq h)
    · exact .inr (sizeToInt_neg h hlen)
  have hbound : Int.bmod (m + 1) (2 ^ 32) = m + 1 ∨ Int.bmod (m + 1) (2 ^ 32) < 0 := by
    rcases Int.lt_or_le (m + 1) (2 ^ 31) with h | h
    · exact .inl (Int.bmod_eq_of_le (by omega) (by omega))
    · obtain rfl : m = 2 ^ 31 - 1 := by omega
      exact .inr (by decide)
  have hrange : -2 ^ 31 ≤ sizeToInt len ∧ -2 ^ 31 ≤ Int.bmod (m + 1) (2 ^ 32) :=
    ⟨Int.le_bmod (by decide), Int.le_bmod (by decide)⟩
  rw [searchLength, intToSize]
  generalize sizeToInt len = a at hint hrange
  generalize Int.bmod (m + 1) (2 ^ 32) = b at hbound hrange
  omega

theorem servingCluster_default (hm : memchr key (ch ':') (min key.length
    (c.maxNamespaceLength.toNat + 1)) = none) (hpos : 0 < c.maxNamespaceLength) :
    c.servingCluster protocol key = c.clusterOf protocol (ascii "_") := by
  have hnone : keyPrefix c.maxNamespaceLength key = none := by
    rw [keyPrefix]
    split
    next i hi =>
      rw [if_neg]
      intro hle
      obtain ⟨hlt, hcolon, _⟩ := List.findIdx?_eq_some_iff_getElem.mp hi
      rw [memchr, List.findIdx?_eq_none_iff] at hm
      have := hm key[i] (List.mem_take_iff_getElem.mpr ⟨i, by omega, rfl⟩)
      rw [this] at hcolon
      cases hcolon
    next => rfl
  rw [Config.servingCluster, hnone]

theorem namespaced_iff_prefixDeclared (hserves : c.Serves makeAddress protocol)
    (hplain : ∀ cl ∈ c.clusters, ∀ ns ∈ cl.namespaces, 0 ∉ ns) (hlen : key.length < 2 ^ 32) :
    Namespaced hash s c protocol key ↔ PrefixDeclared c protocol key := by
  have hw := hserves.loaded.wellformed
  obtain ⟨dc, hdc⟩ := Option.isSome_iff_exists.mp (clusterOf_isSome.mpr hserves.hasDefault)
  rw [PrefixDeclared]
  cases hmem : memchr key (ch ':') (searchLength c.maxNamespaceLength key.length) with
  | none =>
    have hsought : soughtPrefix c.maxNamespaceLength key = [] := by rw [soughtPrefix, hmem]
    refine ⟨fun h => h.inside hmem, fun hle => ⟨fun _ => hle, dc, ?_, dc, ?_, .inl rfl⟩⟩
    · rw [hsought, registrant_of_plain hw hplain, if_pos rfl]
      exact hdc
    · rcases searchLength_cases hw.maxNamespaceLength hlen with hn | hn
      · rw [hn] at hmem
        exact (servingCluster_default hmem hw.maxNamespaceLength.1).trans hdc
      · omega
  | some i =>
    have hsought : soughtPrefix c.maxNamespaceLength key = key.take i := by rw [soughtPrefix, hmem]
    have hcolon : key.findIdx? (· == ch ':') = some i := Lists.findIdx?_of_take hmem
    have hprefix : keyPrefix c.maxNamespaceLength key =
        if (i : ℤ) ≤ c.maxNamespaceLength then some (key.take i) else none := by
      rw [keyPrefix, hcolon]
    constructor
    · rintro ⟨-, cl, hcl, -⟩
      rw [hsought, registrant_of_plain hw hplain] at hcl
      split at hcl
      next hnil => exact .inl hnil
      next =>
        split at hcl
        next => cases hcl
        next hu => exact .inr ⟨hu, cl, clusterOf_mem hcl⟩
    · rintro (hnil | ⟨hu, hreg⟩)
      · refine ⟨fun hnone => (by rw [hmem] at hnone; cases hnone), dc, ?_, dc, ?_, .inl rfl⟩
        · rw [hsought, registrant_of_plain hw hplain, if_pos hnil]
          exact hdc
        · -- no configuration declares the empty namespace
          have hempty : c.clusterOf protocol [] = none := by
            rw [← Option.not_isSome_iff_eq_none, clusterOf_isSome]
            rintro ⟨cl, hcl, _, hns⟩
            exact hw.namespaces cl hcl _ hns rfl
          rw [hnil] at hprefix
          rw [Config.servingCluster, hprefix]
          split
          next ns hns =>
            split at hns
            · rw [← Option.some.inj hns, hempty, Option.none_or]
              exact hdc
            · cases hns
          next => exact hdc
      · obtain ⟨cl, hfound⟩ := Option.isSome_iff_exists.mp (clusterOf_isSome.mpr hreg)
        obtain ⟨hcl, _, hns⟩ := clusterOf_mem hfound
        have hnil : key.take i ≠ [] := hw.namespaces cl hcl _ hns
        obtain ⟨hlt, _⟩ := List.findIdx?_eq_some_iff_getElem.mp hcolon
        have hshort := hserves.short cl hcl _ hns
        rw [List.length_take, Nat.min_eq_left hlt.le] at hshort
        refine ⟨fun hnone => (by rw [hmem] at hnone; cases hnone), cl, ?_, cl, ?_, .inl rfl⟩
        · rw [hsought, registrant_of_plain hw hplain, if_neg hnil, if_neg hu]
          exact hfound
        · rw [Config.servingCluster, hprefix, if_pos hshort]
          dsimp only
          rw [hfound]
          rfl

end Locate

def plainLines : List Bytes :=
  [ascii "cluster \x7b", ascii "  protocol redis", ascii "  namespace _", ascii "  backends \x7b",
    ascii "    backend 127.0.0.1:6379 1", ascii "  \x7d", ascii "\x7d"]

def localhost (_ : Bytes) : Option UInt32 := some 2130706433

def plainConfig : Config :=
  { Config.new with clusters := [⟨.redis, [ascii "_"], [⟨2130706433, 6379, 1⟩]⟩] }

theorem plainConfig_serves : plainConfig.Serves localhost .redis where
  loaded := ⟨plainLines, by decide +kernel⟩
  backends := by decide
  short := by decide
  hasDefault := by decide

theorem plainConfig_plain : ∀ cl ∈ plainConfig.clusters, ∀ ns ∈ cl.namespaces, 0 ∉ ns := by decide

end Yarmproxy
