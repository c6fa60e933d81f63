import Pvllm.Core.Sched.Reports

/-!
The index of the prefix cache, over runs of the scheduler.

The hash of a block and the entry it is stored under are written together in
three places: where a full block is published, where a block that is handed out
again loses its old content, and where the cache is reset. `Consistent` says
that the two directions agree. It holds between calls, at every point of the
loops of `schedule`, and after every touch and every handing out in the middle of
an allocation.
-/

namespace Pvllm

variable {H : Type} [DecidableEq H]

namespace BlockPool

/-- The block is among those stored under the key. -/
def StoredUnder (pool : BlockPool H) (key : BlockHashWithGroupId H) (b : BlockId) : Prop :=
  ∃ entries, pool.cachedBlockHashToBlock.find key = some entries ∧ b ∈ entries

/-- The hashes of the blocks and the map from hashes to blocks agree, and the
calls that drop hashes drop them on both sides. -/
structure Consistent (pool : BlockPool H) : Prop where
  blockHash_iff : ∀ key b, (pool.blocks b).blockHash = some key ↔ pool.StoredUnder key b
  nonempty : ∀ key entries, pool.cachedBlockHashToBlock.find key = some entries → entries ≠ []
  once : ∀ key key' b, pool.StoredUnder key b → pool.StoredUnder key' b → key = key'
  null : ∀ key b, pool.nullBlock = some b → ¬ pool.StoredUnder key b
  handedOut : ∀ n popped pool', pool.getNewBlocks n = .ok (popped, pool') → ∀ b ∈ popped,
    (pool'.blocks b).blockHash = none ∧ ∀ key, ¬ pool'.StoredUnder key b
  reset : pool.resetPrefixCache.1 = true →
    pool.resetPrefixCache.2.cachedBlockHashToBlock = .empty ∧
      ∀ b, (pool.resetPrefixCache.2.blocks b).blockHash = none

variable {pool pool' : BlockPool H} {free : List BlockId}

theorem Indexed.storedUnder_iff (h : Indexed pool) (key : BlockHashWithGroupId H) (b : BlockId) :
    pool.StoredUnder key b ↔ (pool.blocks b).blockHash = some key := by
  rw [← h.indexed, StoredUnder, Dict.findD]
  cases pool.cachedBlockHashToBlock.find key with
  | none => simp
  | some entries => simp

theorem resetPrefixCache_cached (h : pool.resetPrefixCache.1 = true) :
    pool.resetPrefixCache.2.cachedBlockHashToBlock = .empty := by
  unfold resetPrefixCache at h ⊢
  split at h
  · cases h
  · rw [if_neg ‹_›]

/-- Popping more blocks than are free raises. -/
theorem WellFormed.getNewBlocks_ok (h : WellFormed pool free) {n : ℕ} {popped : List BlockId}
    (hok : pool.getNewBlocks n = .ok (popped, pool')) :
    popped = free.take n ∧ WellFormed pool' (free.drop n) ∧
      ∀ c, pool'.blocks c = if c ∈ free.take n then ⟨1, none, false⟩ else pool.blocks c := by
  have hn : n ≤ free.length := by
    by_contra hlt
    rw [BlockPool.getNewBlocks, h.getNumFreeBlocks_eq, if_pos (by omega)] at hok
    cases hok
  obtain ⟨pool₁, hok₁, hwf, -, hblocks⟩ := h.getNewBlocks hn
  rw [hok] at hok₁
  cases hok₁
  exact ⟨rfl, hwf, hblocks⟩

theorem WellFormed.consistent (h : WellFormed pool free) : pool.Consistent where
  blockHash_iff key b := (h.toIndexed.storedUnder_iff key b).symm
  nonempty key entries hfind := (h.entries key entries hfind).1
  once key key' b hkey hkey' := by
    rw [h.toIndexed.storedUnder_iff] at hkey hkey'
    rw [hkey] at hkey'
    exact Option.some.inj hkey'
  null key b hnull := by
    rw [h.toIndexed.storedUnder_iff, h.null_unhashed b hnull]
    simp
  handedOut n popped pool' hok b hb := by
    obtain ⟨rfl, hwf, hblocks⟩ := h.getNewBlocks_ok hok
    have hnone : (pool'.blocks b).blockHash = none := by rw [hblocks, if_pos hb]
    refine ⟨hnone, fun key => ?_⟩
    rw [hwf.toIndexed.storedUnder_iff, hnone]
    simp
  reset hdone := by
    obtain ⟨-, -, -, ⟨hfalse, -⟩ | ⟨-, hnone⟩⟩ := h.resetPrefixCache
    · rw [hdone] at hfalse
      cases hfalse
    · exact ⟨resetPrefixCache_cached hdone, hnone⟩

/-- What an allocation does to the pool before it publishes anything: hits are
touched, and each group is handed its new blocks. -/
inductive Draws : BlockPool H → BlockPool H → Prop
  | touch {pool pool' : BlockPool H} {blocks : List BlockId}
      (hlt : ∀ b ∈ blocks, b < pool.numGpuBlocks) (hok : pool.touch blocks = .ok pool') :
      Draws pool pool'
  | getNewBlocks {pool pool' : BlockPool H} {n : ℕ} {popped : List BlockId}
      (hok : pool.getNewBlocks n = .ok (popped, pool')) : Draws pool pool'

theorem WellFormed.draws (h : WellFormed pool free) (hdraws : Draws pool pool') :
    ∃ free', WellFormed pool' free' := by
  cases hdraws with
  | @touch blocks hlt hok =>
      obtain ⟨pool₁, hok₁, hwf, -⟩ := h.touch hlt
      rw [hok] at hok₁
      cases hok₁
      exact ⟨free.diff blocks, hwf⟩
  | getNewBlocks hok => exact ⟨_, (h.getNewBlocks_ok hok).2.1⟩

theorem WellFormed.draws_all (h : WellFormed pool free)
    (hdraws : Relation.ReflTransGen Draws pool pool') : ∃ free', WellFormed pool' free' := by
  induction hdraws with
  | refl => exact ⟨free, h⟩
  | tail _ hstep ih =>
      obtain ⟨free₁, hwf⟩ := ih
      exact hwf.draws hstep

end BlockPool

namespace Scheduler

open StepState (Loops)

/-- In every state a run reaches, at every point of a call of `schedule` from
it, and after every touch and every handing out of an allocation there, the
index is consistent. -/
theorem run_consistent {config : SchedulerConfig} {kvCacheConfig : KVCacheConfig}
    {enableCaching : Bool} {hashFn : HashInput H → H} {seed : ℕ}
    {connector : Option (SimSharedStoreConnector H)} {s₀ s : Scheduler H} {events : List Event}
    (hinit : init config kvCacheConfig enableCaching hashFn seed connector = .ok s₀)
    (hrun : Run Step s₀ events s) :
    s.kvCacheManager.blockPool.Consistent ∧
      ∀ l, Loops (.start s) l → ∀ pool,
        Relation.ReflTransGen BlockPool.Draws l.scheduler.kvCacheManager.blockPool pool →
          pool.Consistent := by
  have hsettled := run_settled hrun (init_settled hinit).1
  have hpoint : ∀ l, Loops (.start s) l → ∀ pool,
      Relation.ReflTransGen BlockPool.Draws l.scheduler.kvCacheManager.blockPool pool →
        pool.Consistent := by
    intro l hloops pool hdraws
    obtain ⟨free, horder⟩ := (hloops.batch hsettled.partition).partition.order
    obtain ⟨free', hwf⟩ := horder.books.wf.draws_all hdraws
    exact hwf.consistent
  exact ⟨hpoint _ .refl _ .refl, hpoint⟩

def publishRun : Except PyError (Request Digest × SchedulerOutput × Scheduler Digest) := do
  let s₀ ← init (shortConfig .fcfs) KVCacheManager.hybridConfig true Digest.hash 0 none
  let request ← Request.init (.text 1 [1, 2, 3, 4] 8)
  let (output, s₁) ← (s₀.addRequest request).schedule
  return (request, output, s₁)

/-- The index, where four blocks of two groups are published. -/
theorem run_consistent_published : ∃ s : Scheduler Digest,
    s.kvCacheManager.blockPool.Consistent ∧
      s.kvCacheManager.blockPool.cachedBlockHashToBlock.keys.length = 4 := by
  obtain ⟨⟨request, output, s₁⟩, hrun, hcheck⟩ :=
    exists_of_okAnd (x := publishRun) (p := fun (_, _, s₁) =>
      decide (s₁.kvCacheManager.blockPool.cachedBlockHashToBlock.keys.length = 4))
      (by decide +kernel)
  unfold publishRun at hrun
  obtain ⟨s₀, hinit, hrun⟩ := except_bind_iff.mp hrun
  obtain ⟨_, hrequest, hrun⟩ := except_bind_iff.mp hrun
  obtain ⟨⟨_, _⟩, hschedule, hrun⟩ := except_bind_iff.mp hrun
  cases hrun
  obtain ⟨-, hnone, -⟩ := init_settled hinit
  have hfresh : (RequestArgs.text 1 [1, 2, 3, 4] 8).requestId ∉ s₀.requests := by
    rw [hnone]
    exact List.not_mem_nil
  have hsteps := (Run.nil.snoc (Step.addRequest hrequest hfresh)).snoc (Step.schedule hschedule)
  exact ⟨s₁, (run_consistent hinit hsteps).1, of_decide_eq_true hcheck⟩

end Scheduler

end Pvllm
