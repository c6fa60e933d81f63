import Pvllm.Core.Sched.Liveness
import Pvllm.Worker.HybridPages

/-!
How an engine starts: the profile of its memory, and the layout of its cache.

The worker derives the blocks from the groups of the layers and refuses to start where
these do not hold one request; the engine core lays the cache out over the same
groups. What is let through has room for a request on its own.
-/

namespace Pvllm

open Config

/-! ### The worker -/

/-- What of the configuration only the memory of a device depends on, with a utilization
that `CacheConfig` lets through. -/
structure MemoryOptions where
  gpuMemoryUtilization : Binary64
  gpuMemoryUtilizationText : String
  numGpuBlocksOverride : Option ℤ
  enableExpertParallel : Bool
  maxLoraRank : ℕ
  numTargetModules : ℕ
  utilization_pos : 0 < gpuMemoryUtilization.value
  utilization_le : gpuMemoryUtilization.value ≤ 1

namespace Worker

variable (config : VllmConfig) (options : MemoryOptions)

def expertParallelSize : ℕ :=
  if options.enableExpertParallel then
    config.parallelConfig.dataParallelSize * config.parallelConfig.tensorParallelSize
  else 1

def loraBytes (card : ModelCard) : ℕ :=
  match config.maxLoras with
  | none => 0
  | some maxLoras =>
    computeLoraBytes card config.modelConfig.resolvedDtype maxLoras options.maxLoraRank
      options.numTargetModules config.parallelConfig.tensorParallelSize
      config.parallelConfig.pipelineParallelSize

/-- The arguments of the profile, with the groups the engine core sizes the pool from. -/
def profileArgs (card : ModelCard) (groups : List KVCacheGroup) : MemoryProfileArgs where
  dtype := config.modelConfig.resolvedDtype
  kvCacheDtype := config.cacheConfig.resolvedCacheDtype
  blockSize := config.cacheConfig.blockSize
  gpuMemoryUtilization := options.gpuMemoryUtilization
  gpuMemoryUtilizationText := options.gpuMemoryUtilizationText
  maxModelLen := config.schedulerConfig.maxModelLen
  maxNumBatchedTokens := config.schedulerConfig.maxNumBatchedTokens
  maxNumSeqs := config.schedulerConfig.maxNumSeqs
  tpSize := config.parallelConfig.tensorParallelSize
  ppSize := config.parallelConfig.pipelineParallelSize
  numGpuBlocksOverride := options.numGpuBlocksOverride
  loraBytes := loraBytes config options card
  slidingWindow := config.cacheConfig.slidingWindow
  kvCacheGroups := groups
  epSize := expertParallelSize config options

/-- What the card must be like for the devices there are. -/
def initDeviceChecks (card : ModelCard) : List (Bool × PyError) :=
  let tpSize := config.parallelConfig.tensorParallelSize
  let ppSize := config.parallelConfig.pipelineParallelSize
  let indivisible := fun (count : ℕ) (label : String) =>
    (decide (1 < tpSize) && decide (count % tpSize ≠ 0), PyError.valueError
      (s!"tensor_parallel_size={tpSize} does not divide the model's {count} {label}. vLLM refuses "
        ++ "this configuration at startup, so reporting a capacity number for it would describe "
        ++ "an engine that cannot run."))
  [indivisible card.numAttentionHeads "attention heads",
    indivisible card.numKeyValueHeads "KV heads",
    (options.enableExpertParallel && !card.isMoe, .valueError
      ("enable_expert_parallel needs a mixture-of-experts model, and " ++ quoted card.name
        ++ " declares num_experts=0. There is nothing to spread across devices; use "
        ++ "--tensor-parallel-size to shard a dense model.")),
    (decide (card.numHiddenLayers < ppSize), .valueError
      (s!"pipeline_parallel_size={ppSize} exceeds the model's {card.numHiddenLayers} layers; a "
        ++ "stage with no layers holds nothing and computes nothing."))]

/-- `init_device`: the card the worker simulates. -/
def initDevice (load : String → Except PyError ModelCard) : Except PyError ModelCard := do
  let card ← load config.resolvedCard
  raiseFirst (initDeviceChecks config options card)
  return card

/-- The profile `determine_available_memory` resolves. -/
def memoryProfile (load : String → Except PyError ModelCard) (device : DeviceCard)
    (card : ModelCard) : Except PyError MemoryProfile := do
  let specs ← getKVCacheSpec load config
  let groups ← getKVCacheGroups specs
  computeMemoryProfile card device (profileArgs config options card groups)

end Worker

/-! ### The engine core -/

/-- The kind the managers tell a layer's spec by. -/
def LayerSpec.managedKind : LayerSpec → KVCacheKind
  | .fullAttention _ => .fullAttention
  | .mlaAttention _ => .fullAttention
  | .slidingWindow _ window _ => .slidingWindow window
  | .slidingWindowMLA _ window _ => .slidingWindow window
  | .mamba _ _ _ => .mamba

theorem LayerSpec.managedKind_window {spec : LayerSpec} {window : ℕ}
    (h : spec.managedKind = .slidingWindow window) : spec.window = some window ∧ 1 ≤ window := by
  cases spec with
  | slidingWindow shape window' positive =>
      obtain rfl := KVCacheKind.slidingWindow.inj h
      exact ⟨rfl, positive⟩
  | slidingWindowMLA shape window' positive =>
      obtain rfl := KVCacheKind.slidingWindow.inj h
      exact ⟨rfl, positive⟩
  | _ => cases h

def LayerSpec.managed (spec : LayerSpec) (blockSize : ℕ) (hpos : 0 < blockSize) : KVCacheSpec where
  kind := spec.managedKind
  blockSize := blockSize
  blockSize_pos := hpos
  window_pos _ h := (LayerSpec.managedKind_window h).2

/-- The layout of a cache over groups of one block size. -/
def cacheLayout (numBlocks blockSize : ℕ) (hpos : 0 < blockSize) (groups : List KVCacheGroup) :
    KVCacheConfig where
  numBlocks := numBlocks
  blockSize := blockSize
  kvCacheGroups := groups.map fun group => group.kvCacheSpec.managed blockSize hpos
  uniform spec hspec := by
    obtain ⟨group, -, rfl⟩ := List.mem_map.mp hspec
    rfl
  blockSize_pos := hpos

namespace EngineCore

variable (load : String → Except PyError ModelCard) (config : VllmConfig) (device : DeviceCard)
  (options : MemoryOptions)

/-- `_initialize_kv_caches`: run the memory model, lay the cache out over the groups, and
claim the pools on the device. -/
def initializeKVCaches : Except PyError (KVCacheConfig × MemoryLedger) := do
  let card ← Worker.initDevice config options load
  let profile ← Worker.memoryProfile config options load device card
  let available := profile.numGpuBlocks * profile.kvBytesPerBlock
  let specs ← getKVCacheSpec load config
  raiseFirst [(specs.items = [], .valueError "the model reported no attention layers")]
  let groups ← getKVCacheGroups specs
  match groups with
  | [] => .error (.valueError "max() iterable argument is empty")
  | first :: _ => do
    let page ← first.kvCacheSpec.pageSizeBytes
    let pageSize := page * MemoryProfileArgs.layersPerGroup groups
    if pageSize = 0 then .error (.zeroDivisionError "integer division or modulo by zero")
    else
      let numBlocks := available / pageSize
      let ledger ← (MemoryLedger.init device.memoryBytes).applyMemoryProfile profile
      return (cacheLayout numBlocks.toNat config.cacheConfig.blockSize
        config.cacheConfig.blockSize_pos groups, ledger)

end EngineCore

/-! ### The specs of a deployment -/

namespace KVCacheSpecs

/-- What is so of every layer. -/
def All (P : LayerSpec → Prop) (specs : LayerSpecs) : Prop :=
  ∀ name spec, specs.find name = some spec → P spec

variable {config : VllmConfig} {card : Option ModelCard} {P : LayerSpec → Prop}

theorem layered_all {start stop : ℕ} {spec : ℕ → Except PyError (Option (String × LayerSpec))}
    (hspec : ∀ index kind layer, spec index = .ok (some (kind, layer)) → P layer)
    {specs : LayerSpecs} (h : layered start stop spec = .ok specs) : All P specs := by
  have hrun : ∀ (indices : List ℕ) (done : LayerSpecs), All P done →
      indices.foldlM (storeLayer spec) done = .ok specs → All P specs := by
    intro indices
    induction indices with
    | nil =>
        intro done hdone h
        obtain rfl := Except.ok.inj h
        exact hdone
    | cons index indices ih =>
        intro done hdone h
        rw [List.foldlM_cons] at h
        obtain ⟨next, hnext, h⟩ := except_bind_iff.mp h
        refine ih next ?_ h
        unfold storeLayer at hnext
        obtain ⟨layer, hlayer, hnext⟩ := except_bind_iff.mp hnext
        split at hnext
        · obtain rfl := Except.ok.inj hnext
          exact hdone
        · rename_i layer
          obtain rfl := Except.ok.inj hnext
          intro name spec' hfind
          rw [Dict.find_store] at hfind
          split at hfind
          · obtain rfl := Option.some.inj hfind
            exact hspec index layer.1 layer.2 hlayer
          · exact hdone name spec' hfind
  apply hrun _ Dict.empty _ h
  intro name layer hfind
  cases hfind

theorem latentShape_blockSize {shape : AttentionShape}
    (h : latentShape config card = .ok (some shape)) :
    shape.blockSize = config.cacheConfig.blockSize := by
  unfold latentShape at h
  split at h
  · cases h
  · split at h
    · obtain ⟨headSize, -, h⟩ := except_bind_iff.mp h
      obtain rfl := Option.some.inj (Except.ok.inj h)
      rfl
    · cases h

theorem headShape_blockSize {shape : AttentionShape} (h : headShape config = .ok shape) :
    shape.blockSize = config.cacheConfig.blockSize := by
  unfold headShape at h
  obtain ⟨headSize, -, h⟩ := except_bind_iff.mp h
  obtain rfl := Except.ok.inj h
  rfl

theorem full_blockSize {spec : LayerSpec} (h : full config card = .ok spec) :
    spec.blockSize = config.cacheConfig.blockSize := by
  unfold full at h
  obtain ⟨latent, hlatent, h⟩ := except_bind_iff.mp h
  split at h
  · obtain rfl := Except.ok.inj h
    exact latentShape_blockSize hlatent
  · obtain ⟨shape, hshape, h⟩ := except_bind_iff.mp h
    obtain rfl := Except.ok.inj h
    exact headShape_blockSize hshape

theorem windowed_spec {window : ℕ} {spec : LayerSpec} (h : windowed config card window = .ok spec) :
    spec.blockSize = config.cacheConfig.blockSize ∧ spec.window = some window := by
  unfold windowed at h
  split at h
  · obtain ⟨latent, hlatent, h⟩ := except_bind_iff.mp h
    split at h
    · obtain rfl := Except.ok.inj h
      exact ⟨latentShape_blockSize hlatent, rfl⟩
    · obtain ⟨shape, hshape, h⟩ := except_bind_iff.mp h
      obtain rfl := Except.ok.inj h
      exact ⟨headShape_blockSize hshape, rfl⟩
  · cases h

theorem stateSpec_blockSize {card : ModelCard} {spec : LayerSpec}
    (h : stateSpec config card = .ok spec) : spec.blockSize = config.cacheConfig.blockSize := by
  unfold stateSpec at h
  obtain ⟨stateBytes, -, h⟩ := except_bind_iff.mp h
  obtain rfl := Except.ok.inj h
  rfl

/-- A layer in blocks of the deployment, with the window that was asked for. -/
def Asked (config : VllmConfig) (spec : LayerSpec) : Prop :=
  spec.blockSize = config.cacheConfig.blockSize ∧
    ∀ window, config.cacheConfig.slidingWindow = some window → spec.window = some window

theorem uniform_all {start stop : ℕ} {x : Except PyError LayerSpec} {specs : LayerSpecs}
    (hspec : ∀ spec, x = .ok spec → P spec)
    (h : (x >>= fun spec => layered start stop fun _ => .ok (some ("self_attn", spec))) =
      .ok specs) : All P specs := by
  obtain ⟨spec, hok, h⟩ := except_bind_iff.mp h
  refine layered_all (fun index kind layer heq => ?_) h
  obtain ⟨-, rfl⟩ := Prod.mk.inj (Option.some.inj (Except.ok.inj heq))
  exact hspec spec hok

theorem build_asked {start stop : ℕ} {specs : LayerSpecs}
    (h : build config card start stop = .ok specs) : All (Asked config) specs := by
  unfold build at h
  dsimp only at h
  split at h
  · rename_i window hwindow
    refine uniform_all (fun spec hok => ?_) h
    obtain ⟨hsize, hspec⟩ := windowed_spec hok
    refine ⟨hsize, fun window' hwindow' => ?_⟩
    rw [hwindow] at hwindow'
    rw [hspec, hwindow']
  all_goals
    rename_i hwindow
    have hasked : ∀ spec : LayerSpec, spec.blockSize = config.cacheConfig.blockSize →
        Asked config spec := fun spec hsize => ⟨hsize, fun window hsome => by
      rw [hwindow] at hsome
      cases hsome⟩
  · exact uniform_all (fun spec hok => hasked spec (full_blockSize hok)) h
  · split at h
    · split at h
      · cases h
      · obtain ⟨state, hstate, h⟩ := except_bind_iff.mp h
        obtain ⟨attention, hattention, h⟩ := except_bind_iff.mp h
        refine layered_all (fun index kind layer hlayer => hasked layer ?_) h
        unfold patternSpec at hlayer
        split at hlayer
        · cases hlayer
        · obtain ⟨-, rfl⟩ := Prod.mk.inj (Option.some.inj (Except.ok.inj hlayer))
          exact stateSpec_blockSize hstate
        · obtain ⟨-, rfl⟩ := Prod.mk.inj (Option.some.inj (Except.ok.inj hlayer))
          exact full_blockSize hattention
        · cases hlayer
    · split at h
      · exact uniform_all (fun spec hok => hasked spec (full_blockSize hok)) h
      · split at h
        · exact uniform_all (fun spec hok => hasked spec (windowed_spec hok).1) h
        · split at h
          · exact uniform_all (fun spec hok => hasked spec (full_blockSize hok)) h
          · obtain ⟨fullSpec, hfull, h⟩ := except_bind_iff.mp h
            obtain ⟨windowSpec, hwindowed, h⟩ := except_bind_iff.mp h
            refine layered_all (fun index kind layer hlayer => hasked layer ?_) h
            obtain ⟨isFull, -, hlayer⟩ := except_bind_iff.mp hlayer
            obtain ⟨-, rfl⟩ := Prod.mk.inj (Option.some.inj (Except.ok.inj hlayer))
            split
            · exact full_blockSize hfull
            · exact (windowed_spec hwindowed).1

end KVCacheSpecs

theorem getKVCacheSpec_asked {load : String → Except PyError ModelCard} {config : VllmConfig}
    {specs : LayerSpecs} (h : getKVCacheSpec load config = .ok specs) :
    KVCacheSpecs.All (KVCacheSpecs.Asked config) specs := by
  unfold getKVCacheSpec at h
  obtain ⟨card, -, h⟩ := except_bind_iff.mp h
  split at h
  · exact KVCacheSpecs.build_asked h
  · obtain ⟨built, hbuilt, h⟩ := except_bind_iff.mp h
    have hall : ∀ stage ∈ built, KVCacheSpecs.All (KVCacheSpecs.Asked config) stage.2 := by
      intro stage hstage
      obtain ⟨range, -, hstage⟩ := exists_of_mem_right (mapM_ok hbuilt) hstage
      obtain ⟨specs, hspecs, hstage⟩ := except_bind_iff.mp hstage
      obtain ⟨total, -, hstage⟩ := except_bind_iff.mp hstage
      obtain rfl := Except.ok.inj hstage
      exact KVCacheSpecs.build_asked hspecs
    split at h
    · cases h
    · rename_i first rest
      obtain rfl := Except.ok.inj h
      exact hall _ (bindingStage_mem first rest)

theorem getKVCacheGroups_asked {config : VllmConfig} {specs : LayerSpecs}
    {groups : List KVCacheGroup} (hspecs : KVCacheSpecs.All (KVCacheSpecs.Asked config) specs)
    (h : getKVCacheGroups specs = .ok groups) :
    ∀ group ∈ groups, KVCacheSpecs.Asked config group.kvCacheSpec := by
  obtain ⟨_, _, -, -, hgrouped⟩ := wellGrouped_of_getKVCacheGroups h
  intro group hgroup
  obtain ⟨name, hname⟩ := List.exists_mem_of_ne_nil _ (hgrouped.nonempty group hgroup)
  obtain ⟨spec, hfind, hkind⟩ := hgrouped.kind group hgroup name hname
  obtain ⟨hsize, hwindow⟩ := hspecs name spec hfind
  simp only [LayerSpec.kind, Prod.mk.injEq] at hkind
  rw [KVCacheSpecs.Asked, ← hkind.2.1, ← hkind.2.2]
  exact ⟨hsize, hwindow⟩

theorem getKVCacheGroups_items_ne_nil {specs : LayerSpecs} {groups : List KVCacheGroup}
    (h : getKVCacheGroups specs = .ok groups) : specs.items ≠ [] := by
  intro hempty
  unfold getKVCacheGroups at h
  rw [if_pos hempty] at h
  cases h

theorem getKVCacheGroups_ne_nil {specs : LayerSpecs} {groups : List KVCacheGroup}
    (h : getKVCacheGroups specs = .ok groups) : groups ≠ [] := by
  obtain ⟨_, _, -, -, hgrouped⟩ := wellGrouped_of_getKVCacheGroups h
  rintro rfl
  have hkeys : specs.keys = [] := List.perm_nil.mp hgrouped.layers.symm
  exact getKVCacheGroups_items_ne_nil h (List.map_eq_nil_iff.mp hkeys)

/-! ### What the guard asks for -/

def KVCacheGroup.sheds (group : KVCacheGroup) : Bool :=
  group.kvCacheSpec.managedKind ≠ .fullAttention

namespace MemoryProfileArgs

variable {args : MemoryProfileArgs} {hpos : 0 < args.blockSize}

theorem peakBlocks_le_whole (group : KVCacheGroup) :
    (group.kvCacheSpec.managed args.blockSize hpos).peakBlocks args.maxModelLen
      args.maxNumBatchedTokens ≤ ceilDiv args.maxModelLen args.blockSize := by
  unfold KVCacheSpec.peakBlocks
  dsimp only [LayerSpec.managed]
  split
  · exact le_rfl
  · exact min_le_right ..
  · exact min_le_right ..

theorem peakBlocks_le_windowed {group : KVCacheGroup} {window : ℕ}
    (h : group.kvCacheSpec.window = some window) :
    (group.kvCacheSpec.managed args.blockSize hpos).peakBlocks args.maxModelLen
      args.maxNumBatchedTokens ≤ windowedBlocksForOneRequest window args.blockSize
        args.maxModelLen args.maxNumBatchedTokens := by
  have hkind : group.kvCacheSpec.managedKind = .slidingWindow window := by
    cases hspec : group.kvCacheSpec with
    | slidingWindow shape window' positive =>
        rw [hspec] at h
        obtain rfl := Option.some.inj h
        rfl
    | slidingWindowMLA shape window' positive =>
        rw [hspec] at h
        obtain rfl := Option.some.inj h
        rfl
    | _ =>
        rw [hspec] at h
        cases h
  unfold KVCacheSpec.peakBlocks
  dsimp only [LayerSpec.managed]
  rw [hkind]
  exact min_le_left ..

theorem peakBlocks_le_groupNeed (group : KVCacheGroup) :
    (group.kvCacheSpec.managed args.blockSize hpos).peakBlocks args.maxModelLen
      args.maxNumBatchedTokens ≤ (args.groupNeed group).1 := by
  have hwhole := @peakBlocks_le_whole args hpos group
  unfold groupNeed
  dsimp only
  split
  · rename_i window hwindow
    split
    · exact peakBlocks_le_windowed hwindow
    · exact hwhole
  · split
    · rename_i hclass
      have hkind : group.kvCacheSpec.managedKind = .mamba := by
        cases hspec : group.kvCacheSpec with
        | mamba blockSize stateBytes padded => rfl
        | _ =>
            rw [hspec] at hclass
            dsimp only [LayerSpec.className] at hclass
            exact absurd hclass (by decide)
      unfold KVCacheSpec.peakBlocks
      dsimp only [LayerSpec.managed]
      rw [hkind]
    · exact hwhole

theorem groupNeeds_foldl (groups : List KVCacheGroup) (need : ℕ × ℕ) :
    (groups.foldl (fun need group =>
      (need.1 + (args.groupNeed group).1, max need.2 (args.groupNeed group).2)) need).1 =
        need.1 + (groups.map fun group => (args.groupNeed group).1).sum := by
  induction groups generalizing need with
  | nil => rfl
  | cons group groups ih =>
      rw [List.foldl_cons, ih, List.map_cons, List.sum_cons, Nat.add_assoc]

theorem peakBlocks_le_requestNeed (hwindow : ∀ group ∈ args.kvCacheGroups, ∀ window,
      args.slidingWindow = some window → group.kvCacheSpec.window = some window) :
    (args.kvCacheGroups.map fun group => (group.kvCacheSpec.managed args.blockSize hpos).peakBlocks
      args.maxModelLen args.maxNumBatchedTokens).sum ≤ args.requestNeed.1 := by
  unfold requestNeed
  split
  · rw [groupNeeds_foldl, Nat.zero_add]
    exact List.sum_le_sum fun group _ => peakBlocks_le_groupNeed group
  · rename_i hone
    -- at most one group, whose window is the one that was asked for
    have hsingle : ∀ need, (∀ group ∈ args.kvCacheGroups,
        (group.kvCacheSpec.managed args.blockSize hpos).peakBlocks args.maxModelLen
          args.maxNumBatchedTokens ≤ need) → (args.kvCacheGroups.map fun group =>
        (group.kvCacheSpec.managed args.blockSize hpos).peakBlocks args.maxModelLen
          args.maxNumBatchedTokens).sum ≤ need := by
      intro need hneed
      generalize args.kvCacheGroups = groups at hone hneed ⊢
      rcases groups with _ | ⟨group, _ | ⟨group', rest⟩⟩
      · exact Nat.zero_le _
      · simpa using hneed group
      · simp at hone
    refine hsingle _ fun group hgroup => ?_
    have hwhole := @peakBlocks_le_whole args hpos group
    unfold tokensForOneRequest
    split
    · rename_i window hasked
      split
      · exact peakBlocks_le_windowed (hwindow group hgroup window hasked)
      · rename_i hlong
        rw [hasked, Option.getD_some, min_eq_left (not_lt.mp hlong)]
        exact hwhole
    · rename_i hnone
      rw [hnone, Option.getD_none, min_self]
      exact hwhole

theorem groupNeed_sheds {group : KVCacheGroup} (h : group.kvCacheSpec.managedKind = .mamba ∨
    ∃ window, group.kvCacheSpec.window = some window ∧ window < args.maxModelLen) :
    (args.groupNeed group).2 = 1 := by
  unfold groupNeed
  dsimp only
  rcases h with hkind | ⟨window, hwindow, hlt⟩
  · cases hspec : group.kvCacheSpec with
    | mamba blockSize stateBytes padded => rfl
    | _ =>
        rw [hspec] at hkind
        cases hkind
  · rw [hwindow]
    dsimp only
    rw [if_pos hlt]

theorem le_groupNeeds_foldl {groups : List KVCacheGroup} {need : ℕ × ℕ} {n : ℕ}
    (h : n ≤ need.2 ∨ ∃ group ∈ groups, n ≤ (args.groupNeed group).2) :
    n ≤ (groups.foldl (fun need group =>
      (need.1 + (args.groupNeed group).1, max need.2 (args.groupNeed group).2)) need).2 := by
  induction groups generalizing need with
  | nil =>
      obtain h | ⟨group, hgroup, -⟩ := h
      · exact h
      · cases hgroup
  | cons first rest ih =>
      rw [List.foldl_cons]
      apply ih
      obtain h | ⟨group, hgroup, h⟩ := h
      · exact Or.inl (h.trans (le_max_left ..))
      · rcases List.mem_cons.mp hgroup with rfl | hgroup
        · exact Or.inl (h.trans (le_max_right ..))
        · exact Or.inr ⟨group, hgroup, h⟩

end MemoryProfileArgs

/-- A profile that was resolved holds what the guard asks for, in a pool that is what the
rest leaves of the budget. -/
theorem computeMemoryProfile_ok {model : ModelCard} {device : DeviceCard}
    {args : MemoryProfileArgs} {profile : MemoryProfile}
    (h : computeMemoryProfile model device args = .ok profile) :
    (args.requestNeed.1 + args.requestNeed.2 : ℤ) ≤ profile.numGpuBlocks ∧
      (∃ kvBytesPerToken, args.kvBytesPerBlock kvBytesPerToken = .ok profile.kvBytesPerBlock) ∧
      numGpuBlocksFor args.numGpuBlocksOverride profile.kvPoolBytes profile.kvBytesPerBlock =
        .ok profile.numGpuBlocks ∧
      (∃ usable, usableBytes device.memoryBytes args.gpuMemoryUtilization = .ok usable ∧
        profile.usableBytes = usable) ∧
      profile.kvPoolBytes = profile.usableBytes - profile.weightBytes -
        profile.activationPeakBytes - profile.nonTorchOverheadBytes - profile.graphBytes -
        args.loraBytes ∧
      (model.numParametersOverride = none → 0 ≤ profile.weightBytes) := by
  unfold computeMemoryProfile at h
  obtain ⟨usable, husable, h⟩ := except_bind_iff.mp h
  obtain ⟨kvBytes, -, h⟩ := except_bind_iff.mp h
  obtain ⟨perBlock, hperBlock, h⟩ := except_bind_iff.mp h
  obtain ⟨-, -, h⟩ := except_bind_iff.mp h
  obtain ⟨numGpuBlocks, hnum, h⟩ := except_bind_iff.mp h
  dsimp only at h
  obtain ⟨_, hguard, h⟩ := except_bind_iff.mp h
  obtain rfl := Except.ok.inj h
  rw [raiseFirst_eq_ok] at hguard
  refine ⟨?_, ⟨_, hperBlock⟩, hnum, ⟨_, husable, rfl⟩, rfl, fun hderived => ?_⟩
  · have hroom := hguard _ (List.mem_singleton.mpr rfl)
    dsimp only at hroom ⊢
    simp only [decide_eq_false_iff_not, not_lt] at hroom
    omega
  · exact Int.ediv_nonneg (mul_nonneg (computeWeightBytes_nonneg hderived ..)
      (Int.natCast_nonneg _)) (Int.natCast_nonneg _)

/-! ### An engine that starts -/

namespace EngineCore

variable {load : String → Except PyError ModelCard} {config : VllmConfig} {device : DeviceCard}
  {options : MemoryOptions} {kvCacheConfig : KVCacheConfig} {ledger : MemoryLedger}

/-- Where a group sheds, the guard sees it: one of several groups sheds within the model's
length, or the one window there is was asked for and is shorter than that. -/
def SeesShedding (config : VllmConfig) (groups : List KVCacheGroup) : Prop :=
  groups.any (·.sheds) = true →
    (1 < groups.length ∧ ∃ group ∈ groups, group.kvCacheSpec.managedKind = .mamba ∨
      ∃ window, group.kvCacheSpec.window = some window ∧
        window < config.schedulerConfig.maxModelLen) ∨
    groups.length ≤ 1 ∧ ∃ window, config.cacheConfig.slidingWindow = some window ∧
      window < config.schedulerConfig.maxModelLen

/-- Where the guard sees the shedding, it takes the block off that is reserved for it. -/
theorem SeesShedding.takesOff {groups : List KVCacheGroup} (h : SeesShedding config groups)
    (hsheds : groups.any (·.sheds) = true) (card : ModelCard) :
    1 ≤ (Worker.profileArgs config options card groups).requestNeed.2 := by
  unfold MemoryProfileArgs.requestNeed Worker.profileArgs
  dsimp only
  obtain ⟨hmany, group, hgroup, hshed⟩ | ⟨hone, window, hwindow, hlt⟩ := h hsheds
  · rw [if_pos hmany]
    apply MemoryProfileArgs.le_groupNeeds_foldl
    exact Or.inr ⟨group, hgroup, (MemoryProfileArgs.groupNeed_sheds hshed).ge⟩
  · rw [if_neg (not_lt.mpr hone), hwindow]
    dsimp only
    rw [if_pos hlt]

/-- What an engine that starts goes by: one profile, over the groups the cache is laid out
over, and with as many blocks. -/
structure Started (load : String → Except PyError ModelCard) (config : VllmConfig)
    (device : DeviceCard) (options : MemoryOptions) (kvCacheConfig : KVCacheConfig)
    (ledger : MemoryLedger) (card : ModelCard) (groups : List KVCacheGroup)
    (profile : MemoryProfile) : Prop where
  loaded : Worker.initDevice config options load = .ok card
  grouped : (getKVCacheSpec load config >>= getKVCacheGroups) = .ok groups
  resolved : computeMemoryProfile card device (Worker.profileArgs config options card groups) =
    .ok profile
  asked : ∀ group ∈ groups, KVCacheSpecs.Asked config group.kvCacheSpec
  nonneg : 0 ≤ profile.numGpuBlocks
  page_pos : 0 < profile.kvBytesPerBlock
  layout : kvCacheConfig = cacheLayout profile.numGpuBlocks.toNat config.cacheConfig.blockSize
    config.cacheConfig.blockSize_pos groups
  claimed : (MemoryLedger.init device.memoryBytes).applyMemoryProfile profile = .ok ledger

theorem initializeKVCaches_ok
    (h : initializeKVCaches load config device options = .ok (kvCacheConfig, ledger)) :
    ∃ card groups profile,
      Started load config device options kvCacheConfig ledger card groups profile := by
  unfold initializeKVCaches at h
  obtain ⟨card, hcard, h⟩ := except_bind_iff.mp h
  obtain ⟨profile, hprofile, h⟩ := except_bind_iff.mp h
  obtain ⟨specs, hspecs, h⟩ := except_bind_iff.mp h
  obtain ⟨-, -, h⟩ := except_bind_iff.mp h
  obtain ⟨groups, hgroups, h⟩ := except_bind_iff.mp h
  unfold Worker.memoryProfile at hprofile
  rw [hspecs] at hprofile
  obtain ⟨_, heq, hprofile⟩ := except_bind_iff.mp hprofile
  obtain rfl := Except.ok.inj heq
  rw [hgroups] at hprofile
  obtain ⟨_, heq, hprofile⟩ := except_bind_iff.mp hprofile
  obtain rfl := Except.ok.inj heq
  obtain ⟨hroom, ⟨kvBytesPerToken, hperBlock⟩, -⟩ := computeMemoryProfile_ok hprofile
  have hnonneg : 0 ≤ profile.numGpuBlocks := le_trans (by positivity) hroom
  have hasked := getKVCacheGroups_asked (getKVCacheSpec_asked hspecs) hgroups
  have hboth : (getKVCacheSpec load config >>= getKVCacheGroups) = .ok groups := by
    rw [hspecs]
    exact hgroups
  cases groups with
  | nil => cases h
  | cons first rest =>
      obtain ⟨page, hpage, h⟩ := except_bind_iff.mp h
      dsimp only at h
      split at h
      · cases h
      · rename_i hzero
        obtain ⟨ledger', hclaimed, h⟩ := except_bind_iff.mp h
        obtain ⟨rfl, rfl⟩ := Prod.mk.inj (Except.ok.inj h)
        -- the profile and the layout go by one page
        have hsame : profile.kvBytesPerBlock =
            page * MemoryProfileArgs.layersPerGroup (first :: rest) := by
          unfold MemoryProfileArgs.kvBytesPerBlock Worker.profileArgs at hperBlock
          dsimp only at hperBlock
          rw [hpage] at hperBlock
          exact (Except.ok.inj hperBlock).symm
        refine ⟨card, first :: rest, profile, hcard, hboth, hprofile, hasked, hnonneg,
          by omega, ?_, hclaimed⟩
        rw [hsame, Int.mul_ediv_cancel _ (by exact_mod_cast hzero)]

/-- A profile that goes through its claims starts the engine. -/
theorem initializeKVCaches_of_claimed {card : ModelCard} {profile : MemoryProfile}
    (hcard : Worker.initDevice config options load = .ok card)
    (hprofile : Worker.memoryProfile config options load device card = .ok profile)
    (hpos : 0 < profile.kvBytesPerBlock)
    (hclaimed : (MemoryLedger.init device.memoryBytes).applyMemoryProfile profile = .ok ledger) :
    ∃ kvCacheConfig, initializeKVCaches load config device options =
      .ok (kvCacheConfig, ledger) := by
  have hprofile' := hprofile
  unfold Worker.memoryProfile at hprofile'
  obtain ⟨specs, hspecs, hprofile'⟩ := except_bind_iff.mp hprofile'
  obtain ⟨groups, hgroups, hprofile'⟩ := except_bind_iff.mp hprofile'
  obtain ⟨-, ⟨kvBytesPerToken, hperBlock⟩, -⟩ := computeMemoryProfile_ok hprofile'
  unfold initializeKVCaches
  cases groups with
  | nil => exact absurd rfl (getKVCacheGroups_ne_nil hgroups)
  | cons first rest =>
      obtain ⟨page, hpage, hbytes⟩ := except_bind_iff.mp hperBlock
      have hsame : page * MemoryProfileArgs.layersPerGroup (first :: rest) =
        profile.kvBytesPerBlock := Except.ok.inj hbytes
      refine ⟨cacheLayout (profile.numGpuBlocks * profile.kvBytesPerBlock /
          (page * MemoryProfileArgs.layersPerGroup (first :: rest) : ℕ)).toNat
          config.cacheConfig.blockSize config.cacheConfig.blockSize_pos (first :: rest), ?_⟩
      refine except_bind_iff.mpr ⟨card, hcard, except_bind_iff.mpr ⟨profile, hprofile, ?_⟩⟩
      have hsome : raiseFirst [((specs.items = [] : Bool),
          PyError.valueError "the model reported no attention layers")] = .ok () := by
        rw [raiseFirst_eq_ok, List.forall_mem_singleton]
        exact decide_eq_false (getKVCacheGroups_items_ne_nil hgroups)
      refine except_bind_iff.mpr ⟨specs, hspecs, except_bind_iff.mpr ⟨(), hsome, ?_⟩⟩
      refine except_bind_iff.mpr ⟨_, hgroups, except_bind_iff.mpr ⟨page, hpage, ?_⟩⟩
      dsimp only
      rw [if_neg (by omega)]
      exact except_bind_iff.mpr ⟨ledger, hclaimed, rfl⟩

/-- What no pool is claimed for: the adapters, and what lies beyond the budget. -/
def setAside (config : VllmConfig) (options : MemoryOptions) (device : DeviceCard)
    (card : ModelCard) (profile : MemoryProfile) : ℤ :=
  Worker.loraBytes config options card + (device.memoryBytes - profile.usableBytes)

/-- With the blocks that are derived, the pools leave what is set aside and less than a block. -/
theorem derived_rest {card : ModelCard} {groups : List KVCacheGroup} {profile : MemoryProfile}
    (hprofile : computeMemoryProfile card device (Worker.profileArgs config options card groups) =
      .ok profile) (hnone : options.numGpuBlocksOverride = none) :
    0 < profile.kvBytesPerBlock ∧
      (device.memoryBytes ≤ 2 ^ 53 → 0 ≤ setAside config options device card profile) ∧
      ∃ rest : ℤ, 0 ≤ rest ∧ rest < profile.kvBytesPerBlock ∧ (device.memoryBytes : ℤ) =
        profile.claimedBytes + setAside config options device card profile + rest := by
  obtain ⟨-, -, hnum, ⟨usable, husable, hbytes⟩, hpool, -⟩ := computeMemoryProfile_ok hprofile
  unfold numGpuBlocksFor Worker.profileArgs at hnum
  dsimp only at hnum
  rw [hnone] at hnum
  dsimp only at hnum
  split at hnum
  · cases hnum
  rename_i hzero
  have hblocks := Except.ok.inj hnum
  have hpos : (0 : ℤ) < profile.kvBytesPerBlock := by omega
  have hdivision := Int.mul_ediv_add_emod profile.kvPoolBytes profile.kvBytesPerBlock
  rw [hblocks] at hdivision
  refine ⟨by omega, fun hexact => ?_, profile.kvPoolBytes % profile.kvBytesPerBlock,
    Int.emod_nonneg _ hpos.ne', Int.emod_lt_of_pos _ hpos, ?_⟩
  · have hbudget := usableBytes_le hexact options.utilization_le husable
    unfold setAside
    omega
  · unfold setAside MemoryProfile.claimedBytes
    rw [mul_comm profile.numGpuBlocks]
    have hlora : (Worker.profileArgs config options card groups).loraBytes =
      Worker.loraBytes config options card := rfl
    rw [hlora] at hpool
    omega

/-- The books of a start. For a card whose parameters are derived, an engine starts exactly where
its profile is resolved, a block takes something and the pools fit in the device. With the blocks
that are derived they always do, and leave what is set aside and less than one more block. Each
pool then holds what the profile says, and the cache has its blocks. -/
theorem startup_books {card : ModelCard} {profile : MemoryProfile}
    (hcard : Worker.initDevice config options load = .ok card)
    (hprofile : Worker.memoryProfile config options load device card = .ok profile)
    (hderived : card.numParametersOverride = none) :
    ((∃ kvCacheConfig ledger, initializeKVCaches load config device options =
        .ok (kvCacheConfig, ledger)) ↔
      0 < profile.kvBytesPerBlock ∧ profile.claimedBytes ≤ device.memoryBytes) ∧
    (options.numGpuBlocksOverride = none →
      0 < profile.kvBytesPerBlock ∧
      (device.memoryBytes ≤ 2 ^ 53 → 0 ≤ setAside config options device card profile) ∧
      ∃ rest : ℤ, 0 ≤ rest ∧ rest < profile.kvBytesPerBlock ∧ (device.memoryBytes : ℤ) =
        profile.claimedBytes + setAside config options device card profile + rest) ∧
    ∀ kvCacheConfig ledger, initializeKVCaches load config device options =
        .ok (kvCacheConfig, ledger) →
      (kvCacheConfig.numBlocks : ℤ) = profile.numGpuBlocks ∧
      (∀ pool, (ledger.get pool : ℤ) = MemoryLedger.claimedFor profile.pools pool) ∧
      ledger.freeBytes = device.memoryBytes - profile.claimedBytes := by
  have hresolved := hprofile
  unfold Worker.memoryProfile at hresolved
  obtain ⟨specs, hspecs, hresolved⟩ := except_bind_iff.mp hresolved
  obtain ⟨groups, hgroups, hresolved⟩ := except_bind_iff.mp hresolved
  obtain ⟨hroom, -, -, -, -, hweights⟩ := computeMemoryProfile_ok hresolved
  have hblocks : 0 ≤ profile.numGpuBlocks := le_trans (by positivity) hroom
  -- every profile an engine starts with is this one
  have hsame : ∀ {kvCacheConfig ledger}, initializeKVCaches load config device options =
      .ok (kvCacheConfig, ledger) → kvCacheConfig.numBlocks = profile.numGpuBlocks.toNat ∧
        0 < profile.kvBytesPerBlock ∧
        (MemoryLedger.init device.memoryBytes).allocateAll profile.pools = .ok ledger := by
    intro kvCacheConfig ledger hstart
    obtain ⟨card', groups', profile', hstarted⟩ := initializeKVCaches_ok hstart
    obtain rfl := Except.ok.inj (hstarted.loaded.symm.trans hcard)
    obtain rfl := Except.ok.inj
      (hstarted.grouped.symm.trans (except_bind_iff.mpr ⟨specs, hspecs, hgroups⟩))
    obtain rfl := Except.ok.inj (hstarted.resolved.symm.trans hresolved)
    have hclaimed := hstarted.claimed
    rw [MemoryLedger.applyMemoryProfile_eq] at hclaimed
    exact ⟨by rw [hstarted.layout]; rfl, hstarted.page_pos, hclaimed⟩
  have hclaims : (∃ ledger, (MemoryLedger.init device.memoryBytes).allocateAll profile.pools =
      .ok ledger) ↔ profile.claimedBytes ≤ device.memoryBytes := by
    rw [MemoryLedger.allocateAll_ok_iff (MemoryLedger.fits_init _), MemoryProfile.sum_pools,
      MemoryLedger.freeBytes_init, and_iff_right]
    exact profile.pools_nonneg (hweights hderived) hblocks
  refine ⟨⟨?_, ?_⟩, derived_rest hresolved, ?_⟩
  · rintro ⟨kvCacheConfig, ledger, hstart⟩
    obtain ⟨-, hpos, hclaimed⟩ := hsame hstart
    exact ⟨hpos, hclaims.mp ⟨ledger, hclaimed⟩⟩
  · rintro ⟨hpos, hfits⟩
    obtain ⟨ledger, hclaimed⟩ := hclaims.mpr hfits
    rw [← MemoryLedger.applyMemoryProfile_eq] at hclaimed
    obtain ⟨kvCacheConfig, hstart⟩ := initializeKVCaches_of_claimed hcard hprofile hpos hclaimed
    exact ⟨kvCacheConfig, ledger, hstart⟩
  · intro kvCacheConfig ledger hstart
    obtain ⟨hnum, -, hclaimed⟩ := hsame hstart
    obtain ⟨hfree, hget⟩ := MemoryLedger.allocateAll_books hclaimed
    rw [MemoryProfile.sum_pools, MemoryLedger.freeBytes_init] at hfree
    refine ⟨by omega, fun pool => ?_, hfree⟩
    rw [hget, MemoryLedger.get_init, Nat.cast_zero, zero_add]

def tinyHybrid : ModelCard where
  name := "tiny-hybrid"
  numHiddenLayers := 2
  hiddenSize := 8
  numAttentionHeads := 2
  numKeyValueHeads := 2
  headDim := 4
  intermediateSize := 16
  vocabSize := 64
  maxPositionEmbeddings := 64
  slidingWindow := some 5
  slidingWindowPattern := some 2
  latent := noLatent

def loadTiny (_ : String) : Except PyError ModelCard := .ok tinyHybrid

def tinyDevice : DeviceCard := ⟨1 <<< 31⟩

/-- The float next to `0.9`. -/
def nineTenths : Binary64 := ⟨8106479329266893, -53, by norm_num⟩

theorem nineTenths_pos : 0 < nineTenths.value := by
  unfold nineTenths BinaryFloat.value
  norm_num

theorem nineTenths_le : nineTenths.value ≤ 1 := by
  unfold nineTenths BinaryFloat.value
  norm_num

def tinyOptions (numGpuBlocksOverride : Option ℤ) : MemoryOptions :=
  ⟨nineTenths, "0.9", numGpuBlocksOverride, false, 16, 4, nineTenths_pos, nineTenths_le⟩

def tinyConfig : Except PyError VllmConfig := do
  let modelConfig ← ModelConfig.init loadTiny "tiny-hybrid" none "auto" (some 32)
  let cacheConfig ← CacheConfig.init 2 "auto" none true
  let parallelConfig ← ParallelConfig.init 1 1 1
  let schedulerConfig ← { maxNumBatchedTokens := some 16 : SchedulerConfigArgs }.postInit
  VllmConfig.init loadTiny
    ⟨modelConfig, cacheConfig, parallelConfig, some schedulerConfig, none, 0, none, none, none,
      true⟩

def tinyProfile : Except PyError (VllmConfig × ModelCard × MemoryProfile) := do
  let config ← tinyConfig
  let card ← Worker.initDevice config (tinyOptions none) loadTiny
  let profile ← Worker.memoryProfile config (tinyOptions none) loadTiny tinyDevice card
  return (config, card, profile)

theorem startup_books_tiny : ∃ (config : VllmConfig) (profile : MemoryProfile)
    (kvCacheConfig : KVCacheConfig) (ledger : MemoryLedger),
    initializeKVCaches loadTiny config tinyDevice (tinyOptions none) =
      .ok (kvCacheConfig, ledger) ∧ 1 <<< 21 ≤ kvCacheConfig.numBlocks ∧
    ledger.freeBytes = tinyDevice.memoryBytes - profile.claimedBytes := by
  obtain ⟨⟨config, card, profile⟩, hrun, hcheck⟩ := @exists_of_okAnd _ tinyProfile
    (fun (_, card, profile) => card.numParametersOverride = none ∧
      1 <<< 21 ≤ profile.numGpuBlocks ∧ 0 < profile.kvBytesPerBlock ∧
      profile.claimedBytes ≤ tinyDevice.memoryBytes) (by decide +kernel)
  obtain ⟨hderived, hmany, hpos, hfits⟩ := of_decide_eq_true hcheck
  unfold tinyProfile at hrun
  obtain ⟨_, -, hrun⟩ := except_bind_iff.mp hrun
  obtain ⟨_, hcard, hrun⟩ := except_bind_iff.mp hrun
  obtain ⟨_, hprofile, hrun⟩ := except_bind_iff.mp hrun
  cases hrun
  obtain ⟨hstarts, -, hbooks⟩ := startup_books hcard hprofile hderived
  obtain ⟨kvCacheConfig, ledger, hstart⟩ := hstarts.mpr ⟨hpos, hfits⟩
  obtain ⟨hnum, -, hfree⟩ := hbooks kvCacheConfig ledger hstart
  exact ⟨config, profile, kvCacheConfig, ledger, hstart, by omega, hfree⟩

/-- An engine that starts has room for one request at its peak, where the guard sees the
groups that shed. -/
theorem Started.ample {card : ModelCard} {groups : List KVCacheGroup} {profile : MemoryProfile}
    (h : Started load config device options kvCacheConfig ledger card groups profile)
    (hsees : SeesShedding config groups) :
    config.forScheduler.peakBlocks kvCacheConfig ≤ kvCacheConfig.numBlocks := by
  obtain ⟨hroom, -⟩ := computeMemoryProfile_ok h.resolved
  have hneed := @MemoryProfileArgs.peakBlocks_le_requestNeed
    (Worker.profileArgs config options card groups) config.cacheConfig.blockSize_pos
    fun group hgroup => (h.asked group hgroup).2
  have hnonneg := h.nonneg
  have hsheds : kvCacheConfig.kvCacheGroups.any (·.isSkipping) = groups.any (·.sheds) := by
    rw [h.layout]
    unfold cacheLayout
    dsimp only
    rw [List.any_map]
    congr 1
    funext group
    unfold KVCacheGroup.sheds KVCacheSpec.isSkipping KVCacheSpec.isFullAttention LayerSpec.managed
    simp
  have hpeak : (kvCacheConfig.kvCacheGroups.map fun spec => spec.peakBlocks
      config.schedulerConfig.maxModelLen config.schedulerConfig.maxNumBatchedTokens).sum ≤
        (Worker.profileArgs config options card groups).requestNeed.1 := by
    rw [h.layout]
    unfold cacheLayout
    dsimp only
    rw [List.map_map]
    exact hneed
  have hnum : kvCacheConfig.numBlocks = profile.numGpuBlocks.toNat := by rw [h.layout]; rfl
  unfold SchedulerConfig.peakBlocks VllmConfig.forScheduler
  dsimp only
  rw [hnum, hsheds]
  split
  · rename_i hany
    have hone := @SeesShedding.takesOff _ options _ hsees hany card
    omega
  · omega

/-- Whatever is let through serves a request that runs on its own: in every run of plain requests
of an engine that starts, under either policy, no call of `allocate_slots` declines while no
other request runs. -/
theorem run_startup_alone {H : Type} [DecidableEq H] {groups : List KVCacheGroup}
    {hashFn : HashInput H → H} {seed : ℕ} {s₀ : Scheduler H} {e : Engine H} {events : List Event}
    (hstart : initializeKVCaches load config device options = .ok (kvCacheConfig, ledger))
    (hgroups : (getKVCacheSpec load config >>= getKVCacheGroups) = .ok groups)
    (hsees : SeesShedding config groups)
    (hinit : Scheduler.init config.forScheduler kvCacheConfig
      config.cacheConfig.enablePrefixCaching hashFn seed none = .ok s₀)
    (hrun : Run Engine.Step ⟨s₀, none⟩ events e)
    (htame : Tame config.schedulerConfig.maxModelLen events) (hnone : e.inFlight = none) :
    ∀ l, StepState.Loops (StepState.start e.scheduler) l → ∀ r n k hits, l.Asks r n k hits →
      (∀ r' ∈ l.scheduler.running, r' = r) → ∃ blocks kv,
        l.scheduler.kvCacheManager.allocateSlots (l.scheduler.request r) n k hits 0 false =
          .ok (some blocks, kv) := by
  intro l hloops r n k hits hasks halone
  obtain ⟨card, groups', profile, hstarted⟩ := initializeKVCaches_ok hstart
  obtain rfl := Except.ok.inj (hstarted.grouped.symm.trans hgroups)
  exact hloops.alone (Engine.run_roomy (hstarted.ample hsees) hinit hrun htame hnone) hasks halone

/-- The engine starts with no block to spare, and a prompt is about to be given its blocks. -/
def startupAsk : Except PyError (VllmConfig × KVCacheConfig × MemoryLedger × List KVCacheGroup ×
    Scheduler Digest × Request Digest × StepState Digest × StepState Digest) := do
  let config ← tinyConfig
  let (kvCacheConfig, ledger) ← initializeKVCaches loadTiny config tinyDevice
    (tinyOptions (some 28))
  let specs ← getKVCacheSpec loadTiny config
  let groups ← getKVCacheGroups specs
  let s₀ ← Scheduler.init config.forScheduler kvCacheConfig
    config.cacheConfig.enablePrefixCaching Digest.hash 0 none
  let request ← Request.init (.text 1 (List.range 24) 8)
  let l ← (StepState.start (s₀.addRequest request)).advance
  let l' ← l.advance
  return (config, kvCacheConfig, ledger, groups, s₀, request, l, l')

theorem run_startup_alone_tiny : ∃ (l : StepState Digest) (kv : KVCacheManager Digest)
    (blocks : List (List BlockId)), l.Asks 1 16 0 (some [[], []]) ∧
      l.scheduler.kvCacheManager.allocateSlots (l.scheduler.request 1) 16 0 (some [[], []]) 0
        false = .ok (some blocks, kv) := by
  obtain ⟨⟨config, kvCacheConfig, ledger, groups, s₀, request, l, l'⟩, hrun, hcheck⟩ :=
    exists_of_okAnd (x := startupAsk)
      (p := fun (config, _, _, groups, _, _, _, l') => decide
        (config.schedulerConfig.maxModelLen = 32 ∧ 1 < groups.length ∧
          (∃ group ∈ groups, group.kvCacheSpec.window = some 5) ∧
          l'.phase = .admitting 1 [[], []] 0 0 16 [] ∧ l'.scheduler.running = []))
      (by decide +kernel)
  obtain ⟨hlength, hmany, ⟨group, hgroup, hwindow⟩, hphase, hrunning⟩ := of_decide_eq_true hcheck
  unfold startupAsk at hrun
  obtain ⟨_, -, hrun⟩ := except_bind_iff.mp hrun
  obtain ⟨_, hstart, hrun⟩ := except_bind_iff.mp hrun
  obtain ⟨_, hspecs, hrun⟩ := except_bind_iff.mp hrun
  obtain ⟨_, hgroups, hrun⟩ := except_bind_iff.mp hrun
  obtain ⟨_, hinit, hrun⟩ := except_bind_iff.mp hrun
  obtain ⟨_, hrequest, hrun⟩ := except_bind_iff.mp hrun
  obtain ⟨_, hfirst, hrun⟩ := except_bind_iff.mp hrun
  obtain ⟨_, hsecond, hrun⟩ := except_bind_iff.mp hrun
  cases hrun
  have hfresh : (RequestArgs.text 1 (List.range 24) 8).requestId ∉ s₀.requests := by
    rw [(Scheduler.init_settled hinit).2.1]
    exact List.not_mem_nil
  have hsees : SeesShedding config groups := fun _ =>
    Or.inl ⟨hmany, group, hgroup, Or.inr ⟨5, hwindow, by omega⟩⟩
  have htame :
      Tame config.schedulerConfig.maxModelLen [.addRequest (.text 1 (List.range 24) 8)] := by
    refine Tame.of_text fun args hmem => ?_
    obtain rfl : args = .text 1 (List.range 24) 8 := by simpa using hmem
    exact ⟨1, _, 8, rfl, by decide, by decide, by rw [hlength]; decide⟩
  have hasks : l'.Asks 1 16 0 (some [[], []]) := .admission hphase
  obtain ⟨blocks, kv, hok⟩ := run_startup_alone hstart
    (except_bind_iff.mpr ⟨_, hspecs, hgroups⟩) hsees hinit
    (Run.nil.snoc (.call (.addRequest hrequest hfresh) rfl)) htame rfl l'
    (.tail (.single hfirst) hsecond) 1 16 0 _ hasks fun r' hr' => by
      rw [hrunning] at hr'
      exact absurd hr' List.not_mem_nil
  exact ⟨l', kv, blocks, hasks, hok⟩

end EngineCore

end Pvllm
