import Yarmproxy.KeyLocator
import Mathlib.Data.List.Nodup
import Mathlib.Data.List.Perm.Basic

/-! # Keys stay where they are

The ring of a cluster when backends are added, weights are raised or the list is reordered.
`lower_bound` with its way around the end finds the point that lies nearest behind the hash of
the key, and a larger ring has all the points of a smaller one. -/
namespace Yarmproxy

/-- The weight that a list of backends gives to an endpoint. -/
def weightOf (backends : List Backend) (ep : Endpoint) : ℕ :=
  ((backends.find? fun b => b.endpoint == ep).map Backend.weight).getD 0

/-- How far behind a position a point lies, around the ring. -/
def CachePoint.distance (p : CachePoint) (h : UInt32) : ℕ := (p.hashPoint - h).toNat

namespace KeyDistributer

/-- The point at which a key is located. -/
def located (hash : Bytes → UInt32) (d : KeyDistributer) (key : Bytes) : Option CachePoint :=
  (d.cachePoints.find? fun p => decide (hash key ≤ p.hashPoint)).or d.cachePoints.head?

/-- Two endpoints have a point at the same place. -/
def Shared (d : KeyDistributer) (h : UInt32) : Prop :=
  ∃ p ∈ d.cachePoints, ∃ q ∈ d.cachePoints, p.hashPoint = h ∧ q.hashPoint = h ∧
    p.endpoint ≠ q.endpoint

end KeyDistributer

section Nodes
variable {backends bs bs' : List Backend} {ep : Endpoint}

theorem Endpoint.rank_inj {a b : Endpoint} (h : a.rank = b.rank) : a = b := by
  have ha := a.port.toNat_lt
  have hb := b.port.toNat_lt
  simp only [Endpoint.rank] at h
  obtain ⟨address, port⟩ := a
  obtain ⟨address', port'⟩ := b
  dsimp only at h ha hb
  obtain rfl : address = address' := UInt32.toNat_inj.mp (by omega)
  obtain rfl : port = port' := UInt16.toNat_inj.mp (by omega)
  rfl

def Backend.node (b : Backend) : Endpoint × ℕ := (b.endpoint, b.weight)

theorem lookup_eq_none_of_notMem {nodes : List (Endpoint × ℕ)} (h : ep ∉ nodes.map Prod.fst) :
    nodes.lookup ep = none := by
  rw [List.lookup_eq_none_iff]
  intro e he
  rw [bne_iff_ne]
  rintro rfl
  exact h (List.mem_map_of_mem he)

theorem weightedNodes_perm (h : (backends.map Backend.endpoint).Nodup) :
    (weightedNodes backends).Perm (backends.map Backend.node) := by
  suffices hs : ∀ (bs : List Backend) (m : List (Endpoint × ℕ)),
      (m.map Prod.fst ++ bs.map Backend.endpoint).Nodup →
      (bs.foldl (fun nodes b => emplaceNode nodes b.endpoint b.weight) m).Perm
        (m ++ bs.map Backend.node) by
    exact hs backends [] h
  intro bs
  induction bs with
  | nil =>
    intro m _
    simp
  | cons b bs ih =>
    intro m hn
    have hnot : b.endpoint ∉ m.map Prod.fst := by
      intro hmem
      exact (List.nodup_append.mp hn).2.2 _ hmem _ List.mem_cons_self rfl
    have hins : emplaceNode m b.endpoint b.weight =
        m.orderedInsert (fun x y => x.1.rank ≤ y.1.rank) b.node := by
      rw [emplaceNode, lookup_eq_none_of_notMem hnot]
      rfl
    have hperm : (emplaceNode m b.endpoint b.weight).Perm (b.node :: m) :=
      hins ▸ List.perm_orderedInsert _ _ _
    have hkeys : ((emplaceNode m b.endpoint b.weight).map Prod.fst ++
        bs.map Backend.endpoint).Nodup := by
      refine (List.Perm.nodup_iff ?_).mpr hn
      refine ((hperm.map Prod.fst).append_right _).trans ?_
      exact List.perm_middle.symm
    refine (ih _ hkeys).trans ?_
    refine (hperm.append_right _).trans ?_
    exact List.perm_middle.symm

theorem emplaceNode_sorted {nodes : List (Endpoint × ℕ)} {weight : ℕ}
    (h : nodes.Pairwise fun x y => x.1.rank ≤ y.1.rank) :
    (emplaceNode nodes ep weight).Pairwise fun x y => x.1.rank ≤ y.1.rank := by
  have htotal : Std.Total fun x y : Endpoint × ℕ => x.1.rank ≤ y.1.rank :=
    ⟨fun _ _ => Nat.le_total _ _⟩
  have htrans : IsTrans (Endpoint × ℕ) fun x y => x.1.rank ≤ y.1.rank :=
    ⟨fun _ _ _ => Nat.le_trans⟩
  rw [emplaceNode]
  split
  · exact h
  · exact h.orderedInsert _ _

theorem weightedNodes_sorted :
    (weightedNodes backends).Pairwise fun x y => x.1.rank ≤ y.1.rank := by
  suffices hs : ∀ (bs : List Backend) (m : List (Endpoint × ℕ)),
      (m.Pairwise fun x y => x.1.rank ≤ y.1.rank) →
      (bs.foldl (fun nodes b => emplaceNode nodes b.endpoint b.weight) m).Pairwise
        fun x y => x.1.rank ≤ y.1.rank by
    exact hs backends [] .nil
  intro bs
  induction bs with
  | nil => exact fun _ h => h
  | cons b bs ih => exact fun _ h => ih _ (emplaceNode_sorted h)

theorem weightedNodes_reorder (h : (bs.map Backend.endpoint).Nodup) (hp : bs'.Perm bs) :
    weightedNodes bs' = weightedNodes bs := by
  have h' : (bs'.map Backend.endpoint).Nodup := (hp.map _).nodup_iff.mpr h
  have hperm : (weightedNodes bs').Perm (weightedNodes bs) :=
    (weightedNodes_perm h').trans ((hp.map _).trans (weightedNodes_perm h).symm)
  refine List.Perm.eq_of_pairwise ?_ weightedNodes_sorted weightedNodes_sorted hperm
  intro x y hx hy hxy hyx
  have hfst : x.1 = y.1 := Endpoint.rank_inj (Nat.le_antisymm hxy hyx)
  obtain ⟨b, hb, rfl⟩ := List.mem_map.mp ((weightedNodes_perm h').mem_iff.mp hx)
  obtain ⟨b', hb', rfl⟩ := List.mem_map.mp ((weightedNodes_perm h).mem_iff.mp hy)
  rw [List.inj_on_of_nodup_map h (hp.mem_iff.mp hb) hb' hfst]

theorem weightOf_of_mem (h : (backends.map Backend.endpoint).Nodup) {b : Backend}
    (hb : b ∈ backends) :
    weightOf backends b.endpoint = b.weight := by
  cases hf : backends.find? fun b' => b'.endpoint == b.endpoint with
  | none => exact absurd (List.find?_eq_none.mp hf b hb) (by simp)
  | some b' =>
    have hep : b'.endpoint = b.endpoint := by simpa using List.find?_some hf
    have heq : b' = b := List.inj_on_of_nodup_map h (List.mem_of_find?_eq_some hf) hb hep
    rw [weightOf, hf, heq]
    rfl

theorem mem_ring {hash : Bytes → UInt32} {s : PointSort} (h : (backends.map Backend.endpoint).Nodup)
    {p : CachePoint} : p ∈ (KeyDistributer.new hash s backends).cachePoints ↔
      ∃ k < weightOf backends p.endpoint, p.hashPoint = hash (pointText k p.endpoint) := by
  have hsort : p ∈ (KeyDistributer.new hash s backends).cachePoints ↔
      p ∈ cachePoints hash (weightedNodes backends) := (s.perm _).mem_iff
  rw [hsort, cachePoints, List.mem_flatMap]
  constructor
  · rintro ⟨⟨ep, w⟩, hnode, hp⟩
    obtain ⟨k, hk, rfl⟩ := List.mem_map.mp hp
    obtain ⟨b, hb, heq⟩ := List.mem_map.mp ((weightedNodes_perm h).mem_iff.mp hnode)
    obtain ⟨rfl, rfl⟩ := Prod.mk.inj heq
    refine ⟨k, ?_, rfl⟩
    rw [weightOf_of_mem h hb]
    exact List.mem_range.mp hk
  · rintro ⟨k, hk, hpoint⟩
    obtain ⟨b, hb, hep⟩ : ∃ b ∈ backends, b.endpoint = p.endpoint := by
      by_contra hnone
      have hfind : backends.find? (fun b => b.endpoint == p.endpoint) = none := by
        rw [List.find?_eq_none]
        intro b hb heq
        exact hnone ⟨b, hb, beq_iff_eq.mp heq⟩
      rw [weightOf, hfind] at hk
      exact absurd hk (Nat.not_lt_zero _)
    rw [← hep, weightOf_of_mem h hb] at hk
    refine ⟨b.node, (weightedNodes_perm h).mem_iff.mpr (List.mem_map_of_mem hb), ?_⟩
    refine List.mem_map.mpr ⟨k, List.mem_range.mpr hk, ?_⟩
    simp only [hep, ← hpoint]

end Nodes

section Nearest
variable {hash : Bytes → UInt32} {key : Bytes} {p q : CachePoint}

theorem CachePoint.distance_eq (p : CachePoint) (h : UInt32) : p.distance h =
    if h ≤ p.hashPoint then p.hashPoint.toNat - h.toNat else p.hashPoint.toNat +
      2 ^ 32 - h.toNat := by
  have hp := p.hashPoint.toNat_lt
  have hh := h.toNat_lt
  rw [CachePoint.distance, UInt32.toNat_sub]
  split
  next hle =>
    have := UInt32.le_iff_toNat_le.mp hle
    omega
  next hle =>
    have : ¬ h.toNat ≤ p.hashPoint.toNat := fun hn => hle (UInt32.le_iff_toNat_le.mpr hn)
    omega

theorem CachePoint.hashPoint_eq_of_distance {h : UInt32} (heq : p.distance h = q.distance h) :
    p.hashPoint = q.hashPoint := by
  have hp := p.hashPoint.toNat_lt
  have hq := q.hashPoint.toNat_lt
  have hh := h.toNat_lt
  rw [CachePoint.distance, CachePoint.distance, UInt32.toNat_sub, UInt32.toNat_sub] at heq
  exact UInt32.toNat_inj.mp (by omega)

theorem locateCacheNode_eq (d : KeyDistributer) (hash : Bytes → UInt32) (key : Bytes) :
    d.locateCacheNode hash key = ((d.located hash key).map CachePoint.endpoint).getD ⟨0, 0⟩ := by
  rw [KeyDistributer.locateCacheNode, KeyDistributer.located]
  split
  next p hp => rw [hp, Option.some_or, Option.map_some, Option.getD_some]
  next hp => rw [hp, Option.none_or]

theorem find?_least {points : List CachePoint} {P : CachePoint → Bool}
    (hs : points.Pairwise fun p q => p.hashPoint ≤ q.hashPoint) (hp : points.find? P = some p)
    (hq : q ∈ points) (hPq : P q = true) : p.hashPoint ≤ q.hashPoint := by
  obtain ⟨_, before, after, rfl, hbefore⟩ := List.find?_eq_some_iff_append.mp hp
  rcases List.mem_append.mp hq with hq | hq
  · have := hbefore q hq
    rw [hPq] at this
    cases this
  · rcases List.mem_cons.mp hq with rfl | hq
    · exact UInt32.le_refl _
    · exact List.rel_of_pairwise_cons (List.pairwise_append.mp hs).2.1 hq

theorem located_nearest {d : KeyDistributer}
    (hs : d.cachePoints.Pairwise fun p q => p.hashPoint ≤ q.hashPoint)
    (hp : d.located hash key = some p) :
    p ∈ d.cachePoints ∧ ∀ q ∈ d.cachePoints, p.distance (hash key) ≤ q.distance (hash key) := by
  have hkey := (hash key).toNat_lt
  rw [KeyDistributer.located] at hp
  cases hfind : d.cachePoints.find? fun p => decide (hash key ≤ p.hashPoint) with
  | some p' =>
    rw [hfind, Option.some_or] at hp
    obtain rfl := Option.some.inj hp
    have hle : hash key ≤ p'.hashPoint := by simpa using List.find?_some hfind
    refine ⟨List.mem_of_find?_eq_some hfind, fun q hq => ?_⟩
    have hlt := p'.hashPoint.toNat_lt
    rw [CachePoint.distance_eq, CachePoint.distance_eq, if_pos hle]
    split
    next hqle =>
      have := UInt32.le_iff_toNat_le.mp (find?_least hs hfind hq (decide_eq_true hqle))
      omega
    next => omega
  | none =>
    -- every point lies in front of the key: the first one is reached around the ring
    rw [hfind, Option.none_or] at hp
    obtain ⟨points, hpoints⟩ := List.head?_eq_some_iff.mp hp
    have hbefore : ∀ q ∈ d.cachePoints, ¬ hash key ≤ q.hashPoint := by
      intro q hq
      simpa using List.find?_eq_none.mp hfind q hq
    have hmem : p ∈ d.cachePoints := hpoints ▸ List.mem_cons_self
    refine ⟨hmem, fun q hq => ?_⟩
    rw [CachePoint.distance_eq, CachePoint.distance_eq, if_neg (hbefore p hmem),
      if_neg (hbefore q hq)]
    have hle : p.hashPoint ≤ q.hashPoint := by
      rw [hpoints] at hs hq
      rcases List.mem_cons.mp hq with rfl | hq
      · exact UInt32.le_refl _
      · exact List.rel_of_pairwise_cons hs hq
    have := UInt32.le_iff_toNat_le.mp hle
    omega

theorem located_eq_none {d : KeyDistributer} (h : d.located hash key = none) :
    d.cachePoints = [] := by
  rw [KeyDistributer.located, Option.or_eq_none_iff, List.head?_eq_none_iff] at h
  exact h.2

theorem new_sorted (hash : Bytes → UInt32) (s : PointSort) (backends : List Backend) :
    (KeyDistributer.new hash s backends).cachePoints.Pairwise fun p q =>
      p.hashPoint ≤ q.hashPoint :=
  s.sorted _

end Nearest

section Rings
variable {hash : Bytes → UInt32} {bs₁ bs₂ : List Backend} {key : Bytes}

theorem mem_or_gained (s₁ s₂ : PointSort) (h₁ : (bs₁.map Backend.endpoint).Nodup)
    (h₂ : (bs₂.map Backend.endpoint).Nodup)
    {p : CachePoint} (hp : p ∈ (KeyDistributer.new hash s₂ bs₂).cachePoints) :
    p ∈ (KeyDistributer.new hash s₁ bs₁).cachePoints ∨
      weightOf bs₁ p.endpoint < weightOf bs₂ p.endpoint := by
  obtain ⟨k, hk, hpoint⟩ := (mem_ring h₂).mp hp
  rcases Nat.lt_or_ge k (weightOf bs₁ p.endpoint) with hlt | hge
  · exact .inl ((mem_ring h₁).mpr ⟨k, hlt, hpoint⟩)
  · exact .inr (hge.trans_lt hk)

theorem ring_subset (s₁ s₂ : PointSort) (h₁ : (bs₁.map Backend.endpoint).Nodup)
    (h₂ : (bs₂.map Backend.endpoint).Nodup)
    (hw : ∀ ep, weightOf bs₁ ep ≤ weightOf bs₂ ep) {p : CachePoint}
    (hp : p ∈ (KeyDistributer.new hash s₁ bs₁).cachePoints) :
    p ∈ (KeyDistributer.new hash s₂ bs₂).cachePoints := by
  obtain ⟨k, hk, hpoint⟩ := (mem_ring h₁).mp hp
  exact (mem_ring h₂).mpr ⟨k, hk.trans_le (hw _), hpoint⟩

theorem located_stays (s₁ s₂ : PointSort) (h₁ : (bs₁.map Backend.endpoint).Nodup)
    (h₂ : (bs₂.map Backend.endpoint).Nodup) (hw : ∀ ep, weightOf bs₁ ep ≤ weightOf bs₂ ep)
    (hu : ∀ p ∈ (KeyDistributer.new hash s₂ bs₂).located hash key,
      ¬ (KeyDistributer.new hash s₂ bs₂).Shared p.hashPoint) :
    let ep₁ := (KeyDistributer.new hash s₁ bs₁).locateCacheNode hash key
    let ep₂ := (KeyDistributer.new hash s₂ bs₂).locateCacheNode hash key
    ep₂ = ep₁ ∨ weightOf bs₁ ep₂ < weightOf bs₂ ep₂ := by
  simp only [locateCacheNode_eq]
  cases hp₂ : (KeyDistributer.new hash s₂ bs₂).located hash key with
  | none =>
    have hempty := located_eq_none hp₂
    cases hp₁ : (KeyDistributer.new hash s₁ bs₁).located hash key with
    | none => exact .inl rfl
    | some p₁ =>
      have hmem := ring_subset s₁ s₂ h₁ h₂ hw (located_nearest (new_sorted ..) hp₁).1
      rw [hempty] at hmem
      cases hmem
  | some p₂ =>
    obtain ⟨hmem₂, hnear₂⟩ := located_nearest (new_sorted ..) hp₂
    rcases mem_or_gained s₁ s₂ h₁ h₂ hmem₂ with hmem₁ | hgained
    · left
      cases hp₁ : (KeyDistributer.new hash s₁ bs₁).located hash key with
      | none =>
        rw [located_eq_none hp₁] at hmem₁
        cases hmem₁
      | some p₁ =>
        obtain ⟨hmem, hnear₁⟩ := located_nearest (new_sorted ..) hp₁
        have hmem := ring_subset s₁ s₂ h₁ h₂ hw hmem
        have hpoint : p₁.hashPoint = p₂.hashPoint :=
          CachePoint.hashPoint_eq_of_distance (Nat.le_antisymm (hnear₁ p₂ hmem₁) (hnear₂ p₁ hmem))
        by_contra hne
        exact hu p₂ hp₂ ⟨p₂, hmem₂, p₁, hmem, rfl, hpoint, hne⟩
    · exact .inr hgained

/-- Consistent hashing: a key moves to endpoints that have gained weight only, and the order of
the backends is of no account. -/
theorem ring_consistent (hash : Bytes → UInt32) :
    (∀ s₁ s₂ bs₁ bs₂ key, (bs₁.map Backend.endpoint).Nodup → (bs₂.map Backend.endpoint).Nodup →
      (∀ ep, weightOf bs₁ ep ≤ weightOf bs₂ ep) →
      (∀ p ∈ (KeyDistributer.new hash s₂ bs₂).located hash key,
        ¬ (KeyDistributer.new hash s₂ bs₂).Shared p.hashPoint) →
      let ep₁ := (KeyDistributer.new hash s₁ bs₁).locateCacheNode hash key
      let ep₂ := (KeyDistributer.new hash s₂ bs₂).locateCacheNode hash key
      ep₂ = ep₁ ∨ weightOf bs₁ ep₂ < weightOf bs₂ ep₂) ∧
    (∀ s bs bs' key, (bs.map Backend.endpoint).Nodup → bs'.Perm bs →
      (KeyDistributer.new hash s bs').locateCacheNode hash key =
        (KeyDistributer.new hash s bs).locateCacheNode hash key) := by
  refine ⟨fun s₁ s₂ bs₁ bs₂ key h₁ h₂ hw hu => located_stays s₁ s₂ h₁ h₂ hw hu, ?_⟩
  intro s bs bs' key h hp
  rw [KeyDistributer.new, weightedNodes_reorder h hp]
  rfl

end Rings

def firstHost : Backend := ⟨2130706433, 11211, 1⟩
def secondHost : Backend := ⟨2130706434, 11211, 1⟩

/-- A hash that sets the two hosts apart. -/
def hostHash (text : Bytes) : UInt32 := if text = pointText 0 firstHost.endpoint then 10 else 20

theorem weightOf_hosts {ep : Endpoint} {k : ℕ} (h : k < weightOf [firstHost, secondHost] ep) :
    k = 0 ∧ (ep = firstHost.endpoint ∨ ep = secondHost.endpoint) := by
  simp only [weightOf, List.find?_cons, List.find?_nil] at h
  split at h
  next he =>
    simp only [Option.map_some, Option.getD_some, firstHost] at h
    exact ⟨by omega, .inl (beq_iff_eq.mp he).symm⟩
  next =>
    split at h
    next he =>
      simp only [Option.map_some, Option.getD_some, secondHost] at h
      exact ⟨by omega, .inr (beq_iff_eq.mp he).symm⟩
    next => exact absurd h (Nat.not_lt_zero _)

theorem hosts_unshared (s : PointSort) (h : UInt32) :
    ¬ (KeyDistributer.new hostHash s [firstHost, secondHost]).Shared h := by
  rintro ⟨p, hp, q, hq, hph, hqh, hne⟩
  have hnodup : ([firstHost, secondHost].map Backend.endpoint).Nodup := by decide
  obtain ⟨k, hk, hpk⟩ := (mem_ring hnodup).mp hp
  obtain ⟨j, hj, hqj⟩ := (mem_ring hnodup).mp hq
  obtain ⟨rfl, hpe⟩ := weightOf_hosts hk
  obtain ⟨rfl, hqe⟩ := weightOf_hosts hj
  have hapart : hostHash (pointText 0 firstHost.endpoint) ≠
      hostHash (pointText 0 secondHost.endpoint) := by
    decide
  rw [hph] at hpk
  rw [hqh] at hqj
  rcases hpe with hpe | hpe <;> rcases hqe with hqe | hqe
  · exact hne (hpe.trans hqe.symm)
  · exact hapart (hpe ▸ hqe ▸ hpk.symm.trans hqj)
  · exact hapart (hpe ▸ hqe ▸ hqj.symm.trans hpk)
  · exact hne (hpe.trans hqe.symm)

theorem firstHost_le (ep : Endpoint) :
    weightOf [firstHost] ep ≤ weightOf [firstHost, secondHost] ep := by
  simp only [weightOf, List.find?_cons, List.find?_nil]
  split
  · exact Nat.le_refl _
  · exact Nat.zero_le _

/-- A second host joins the first; the two may come in either order. -/
theorem secondHost_joins :
    let old := KeyDistributer.new hostHash .merge [firstHost]
    let ring := KeyDistributer.new hostHash .merge [firstHost, secondHost]
    let ep := ring.locateCacheNode hostHash (ascii "key")
    (ep = old.locateCacheNode hostHash (ascii "key") ∨
      weightOf [firstHost] ep < weightOf [firstHost, secondHost] ep) ∧
    (KeyDistributer.new hostHash .merge [secondHost, firstHost]).locateCacheNode hostHash
      (ascii "key") = ep :=
  ⟨(ring_consistent hostHash).1 .merge .merge [firstHost] [firstHost, secondHost] (ascii "key")
      (by decide) (by decide) firstHost_le fun _ _ => hosts_unshared _ _,
    (ring_consistent hostHash).2 .merge [firstHost, secondHost] [secondHost, firstHost]
      (ascii "key")
      (by decide) (.swap _ _ _)⟩

end Yarmproxy
