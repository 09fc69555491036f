import Yarmproxy.ClientInvariant
import Yarmproxy.ContractBatch

/-! # The commands of a connection keep to the contract -/
namespace Yarmproxy

variable {ε : Type}

section Constructors
variable [DecidableEq ε] {locate : Bytes → ε} {pool : Pool} {b b' : ReadBuffer} {ba : BulkArray}

theorem MemcGetCommand.new_kept [Inhabited ε] {data : Ptr} {size : ℕ} {c : MemcGetCommand ε}
    (hv : b.Valid) (h : new locate pool b data size = some (b', c)) : b.Kept b' := by
  obtain ⟨keys, -, h⟩ := Option.bind_eq_some_iff.mp h
  obtain ⟨rfl, -⟩ := Prod.mk.inj (Option.some.inj h)
  refine List.foldlRecOn (motive := fun s : ReadBuffer × MemcGetCommand ε => b.Kept s.1) keys _
    (.refl hv) fun s hs key _ => ?_
  unfold pushKey
  dsimp only
  split
  · exact hs
  · exact hs.incRecycleLock

theorem RedisMgetCommand.new_kept [Inhabited ε] {c : RedisMgetCommand ε} (hv : b.Valid)
    (h : new locate pool b ba = some (b', c)) : b.Kept b' := by
  obtain ⟨bulks, -, h⟩ := Option.bind_eq_some_iff.mp h
  obtain ⟨s, hs, h⟩ := Option.bind_eq_some_iff.mp h
  obtain ⟨rfl, -⟩ := Prod.mk.inj (Option.some.inj h)
  refine Lists.foldlM_preserves (P := fun s => b.Kept s.buffer) (fun s bulk s' hk hp => ?_) bulks
    (.refl hv) hs
  obtain ⟨key, -, hp⟩ := Option.bind_eq_some_iff.mp hp
  obtain ⟨total, -, hp⟩ := Option.bind_eq_some_iff.mp hp
  obtain ⟨segments, -, hp⟩ := Option.bind_eq_some_iff.mp hp
  obtain rfl := Option.some.inj hp
  dsimp only
  split
  · exact hk
  · exact hk.incRecycleLock

theorem RedisMsetCommand.new_kept [Inhabited ε] {c : RedisMsetCommand ε} (hv : b.Valid)
    (h : new locate pool b ba = some (b', c)) : b.Kept b' ∧ c.tailComplete = false := by
  unfold new at h
  by_cases hp : bulkPairs (ba.items.drop 1) = []
  · rw [hp] at h
    obtain ⟨rfl, rfl⟩ := Prod.mk.inj (Option.some.inj h)
    exact ⟨.refl hv, rfl⟩
  · have hinit : ∀ c : RedisMsetCommand ε, c.waitingSubqueries = [] →
        Pushing b c.unparsedBulks (b, c) := fun c hc =>
      ⟨.refl hv, rfl, by rw [hc]; nofun, fun hne => absurd hc hne⟩
    obtain ⟨hpush, hne⟩ := (hinit _ rfl).pushPairs hp h
    obtain ⟨-, i, hmem, htail⟩ := hpush.begun hne
    refine ⟨hpush.kept, Bool.eq_false_iff.mpr fun hc => ?_⟩
    obtain ⟨j, hj, hr⟩ := tailComplete_iff.mp hc
    obtain rfl := Option.some.inj (htail.symm.trans hj)
    exact absurd ((hpush.incomplete i hmem).symm.trans hr) nofun

theorem RedisDelCommand.new_kept [Inhabited ε] {c : RedisDelCommand ε} (hv : b.Valid)
    (h : new locate pool b ba = some (b', c)) : b.Kept b' := by
  have hfold : ∀ (keys : List Bulk) (empty : RedisDelCommand ε),
      keys.foldlM (pushKey locate pool) (b, empty) = some (b', c) → b.Kept b' := by
    intro keys empty h
    refine Lists.foldlM_preserves (P := fun s : ReadBuffer × RedisDelCommand ε => b.Kept s.1)
      (fun s bulk s' hk hp => ?_) keys (.refl hv) h
    obtain ⟨key, -, hp⟩ := Option.bind_eq_some_iff.mp hp
    obtain rfl := Option.some.inj hp
    unfold pushSubquery
    dsimp only
    split
    · exact hk.incRecycleLock
    · exact hk
  obtain ⟨verb, -, h⟩ := Option.bind_eq_some_iff.mp h
  obtain ⟨name, -, h⟩ := Option.bind_eq_some_iff.mp h
  dsimp only at h
  split at h
  · exact hfold _ _ h
  · obtain ⟨cut, -, h⟩ := Option.bind_eq_some_iff.mp h
    exact hfold _ _ h

end Constructors

namespace AnyCommand

/-- What holds of a command that has been started. -/
def Sound : AnyCommand ε → Prop
  | .single c => c.Consistent
  | .redisMset _ c => c.Started
  | .redisDel _ c => c.Started
  | _ => True

/-- What holds of a command that has been constructed. -/
def Fresh : AnyCommand ε → Prop
  | .single c => c.Consistent
  | _ => True

/-- All that has been parsed of the request has been received. -/
def received : AnyCommand ε → Bool
  | .single c => c.queryRecvComplete
  | .redisMset _ c => c.tailComplete
  | _ => true

/-- What the rest of a request looks like that is not yet parsed. -/
def Rest : AnyCommand ε → Bytes → Prop
  | .single c, bs => c.Rest bs
  | .redisMset _ c, bs => StartsBulks c.unparsedBulks bs
  | .redisDel _ c, bs => StartsBulks c.unparsedBulks bs
  | _, _ => True

section Family
variable [DecidableEq ε] [Inhabited ε] (env : Env ε)

theorem lifts_local : Lifts (family env).toHandlers LocalCommand.handlers .local_ :=
  ⟨fun _ _ => rfl, fun _ _ _ => rfl, fun _ => rfl, fun _ => rfl, fun _ => rfl, fun _ => rfl,
    fun _ => rfl, fun _ _ _ => rfl, fun _ _ _ => rfl, fun _ _ _ => rfl, fun _ => rfl, fun _ => rfl⟩

theorem lifts_single : Lifts (family env).toHandlers SingleCommand.handlers .single :=
  ⟨fun _ _ => rfl, fun _ _ _ => rfl, fun _ => rfl, fun _ => rfl, fun _ => rfl, fun _ => rfl,
    fun _ => rfl, fun _ _ _ => rfl, fun _ _ _ => rfl, fun _ _ _ => rfl, fun _ => rfl, fun _ => rfl⟩

theorem lifts_memcGet : Lifts (family env).toHandlers MemcGetCommand.handlers .memcGet :=
  ⟨fun _ _ => rfl, fun _ _ _ => rfl, fun _ => rfl, fun _ => rfl, fun _ => rfl, fun _ => rfl,
    fun _ => rfl, fun _ _ _ => rfl, fun _ _ _ => rfl, fun _ _ _ => rfl, fun _ => rfl, fun _ => rfl⟩

theorem lifts_redisMget : Lifts (family env).toHandlers RedisMgetCommand.handlers .redisMget :=
  ⟨fun _ _ => rfl, fun _ _ _ => rfl, fun _ => rfl, fun _ => rfl, fun _ => rfl, fun _ => rfl,
    fun _ => rfl, fun _ _ _ => rfl, fun _ _ _ => rfl, fun _ _ _ => rfl, fun _ => rfl, fun _ => rfl⟩

theorem lifts_redisMset (pool : Pool) : Lifts (family env).toHandlers
    (RedisMsetCommand.handlers (env.locate .redis) pool) (.redisMset pool) :=
  ⟨fun _ _ => rfl, fun _ _ _ => rfl, fun _ => rfl, fun _ => rfl, fun _ => rfl, fun _ => rfl,
    fun _ => rfl, fun _ _ _ => rfl, fun _ _ _ => rfl, fun _ _ _ => rfl, fun _ => rfl, fun _ => rfl⟩

theorem lifts_redisDel (pool : Pool) : Lifts (family env).toHandlers
    (RedisDelCommand.handlers (env.locate .redis) pool) (.redisDel pool) :=
  ⟨fun _ _ => rfl, fun _ _ _ => rfl, fun _ => rfl, fun _ => rfl, fun _ => rfl, fun _ => rfl,
    fun _ => rfl, fun _ _ _ => rfl, fun _ _ _ => rfl, fun _ _ _ => rfl, fun _ => rfl, fun _ => rfl⟩

theorem inClass (c : AnyCommand ε) :
    InClass (family env).toHandlers Sound received Fresh Rest c := by
  cases c with
  | local_ c => exact ⟨_, _, _, c, rfl, lifts_local env, LocalCommand.disciplined⟩
  | single c => exact ⟨_, _, _, c, rfl, lifts_single env, SingleCommand.disciplined⟩
  | memcGet c => exact ⟨_, _, _, c, rfl, lifts_memcGet env, MemcGetCommand.disciplined⟩
  | redisMget c => exact ⟨_, _, _, c, rfl, lifts_redisMget env, RedisMgetCommand.disciplined⟩
  | redisMset pool c =>
    exact ⟨_, _, _, c, rfl, lifts_redisMset env pool, RedisMsetCommand.disciplined _ pool⟩
  | redisDel pool c =>
    exact ⟨_, _, _, c, rfl, lifts_redisDel env pool, RedisDelCommand.disciplined _ pool⟩

theorem construct_kept {k : ℕ} {b b' : ReadBuffer} {created : Created} {c : AnyCommand ε}
    (hv : b.Valid) (h : construct env k b created = some (b', c)) :
    b.Kept b' ∧ Fresh c ∧ (received c = true → created.whole = true) := by
  cases created with
  | redisBasic ba =>
    obtain ⟨item, -, h⟩ := Option.bind_eq_some_iff.mp h
    obtain ⟨key, -, h⟩ := Option.bind_eq_some_iff.mp h
    obtain ⟨rfl, rfl⟩ := Prod.mk.inj (Option.some.inj h)
    exact ⟨.refl hv, nofun, fun _ => rfl⟩
  | redisSet ba =>
    obtain ⟨item, -, h⟩ := Option.bind_eq_some_iff.mp h
    obtain ⟨key, -, h⟩ := Option.bind_eq_some_iff.mp h
    obtain ⟨rfl, rfl⟩ := Prod.mk.inj (Option.some.inj h)
    exact ⟨.refl hv, fun _ => nofun, nofun⟩
  | redisMset ba =>
    obtain ⟨⟨buffer, cmd⟩, hn, h⟩ := Option.bind_eq_some_iff.mp h
    obtain ⟨rfl, rfl⟩ := Prod.mk.inj (Option.some.inj h)
    obtain ⟨hk, hr⟩ := RedisMsetCommand.new_kept hv hn
    exact ⟨hk, trivial, fun h => absurd (hr.symm.trans h) nofun⟩
  | redisMget ba =>
    obtain ⟨⟨buffer, cmd⟩, hn, h⟩ := Option.bind_eq_some_iff.mp h
    obtain ⟨rfl, rfl⟩ := Prod.mk.inj (Option.some.inj h)
    exact ⟨RedisMgetCommand.new_kept hv hn, trivial, fun _ => rfl⟩
  | redisDel ba =>
    obtain ⟨⟨buffer, cmd⟩, hn, h⟩ := Option.bind_eq_some_iff.mp h
    obtain ⟨rfl, rfl⟩ := Prod.mk.inj (Option.some.inj h)
    exact ⟨RedisDelCommand.new_kept hv hn, trivial, fun _ => rfl⟩
  | memcGet data size =>
    obtain ⟨⟨buffer, cmd⟩, hn, h⟩ := Option.bind_eq_some_iff.mp h
    obtain ⟨rfl, rfl⟩ := Prod.mk.inj (Option.some.inj h)
    exact ⟨MemcGetCommand.new_kept hv hn, trivial, fun _ => rfl⟩
  | memcSet key =>
    obtain ⟨rfl, rfl⟩ := Prod.mk.inj (Option.some.inj h)
    exact ⟨.refl hv, nofun, nofun⟩
  | memcBasic data =>
    obtain ⟨key, -, h⟩ := Option.bind_eq_some_iff.mp h
    obtain ⟨rfl, rfl⟩ := Prod.mk.inj (Option.some.inj h)
    exact ⟨.refl hv, nofun, fun _ => rfl⟩
  | stats protocol | error reply =>
    obtain ⟨rfl, rfl⟩ := Prod.mk.inj (Option.some.inj h)
    exact ⟨.refl hv, trivial, fun _ => rfl⟩

theorem family_disciplined : (family env).Disciplined Sound received Fresh Rest where
  toDisciplined := .of_classes (inClass env)
  construct _ _ _ _ _ hv h := construct_kept env hv h

end Family
end AnyCommand
end Yarmproxy
