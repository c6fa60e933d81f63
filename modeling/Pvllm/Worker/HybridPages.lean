import Pvllm.Worker.AttnUtils

/-!
The block size of a model with recurrent states.

The platform grows the block until a page of attention covers a state, and pads the state's
page to it. A second alignment finds a block that covers the state already, and the specs
built from the aligned block have one page size, so that there is nothing to unify.
-/

namespace Pvllm

open Config

namespace Config

/-! ### The aligned block -/

/-- The least multiple of the alignment that covers the state, or the block itself. -/
def alignedBlockSize (stateBytes perToken blockSize : ℕ) : ℕ :=
  max blockSize (max 16 blockSize * ceilDiv stateBytes (max 16 blockSize * perToken))

theorem stateBytes_le_page {stateBytes perToken blockSize : ℕ} (hper : 0 < perToken) :
    stateBytes ≤ alignedBlockSize stateBytes perToken blockSize * perToken := by
  set alignment := max 16 blockSize with halign
  have hpos : 0 < alignment * perToken := Nat.mul_pos (by omega) hper
  calc stateBytes
      ≤ ceilDiv stateBytes (alignment * perToken) * (alignment * perToken) :=
        (ceilDiv_le_iff hpos).mp le_rfl
    _ = alignment * ceilDiv stateBytes (alignment * perToken) * perToken := by
        rw [Nat.mul_left_comm, ← Nat.mul_assoc]
    _ ≤ alignedBlockSize stateBytes perToken blockSize * perToken :=
        Nat.mul_le_mul_right _ (Nat.le_max_right ..)

theorem sixteen_le_alignedBlockSize {stateBytes perToken : ℕ} (hstate : 0 < stateBytes)
    (hper : 0 < perToken) (blockSize : ℕ) :
    16 ≤ alignedBlockSize stateBytes perToken blockSize := by
  have hpos : 0 < max 16 blockSize * perToken := Nat.mul_pos (by omega) hper
  have hpages : 0 < ceilDiv stateBytes (max 16 blockSize * perToken) := by
    apply Nat.pos_of_ne_zero
    intro hzero
    have hle := (ceilDiv_le_iff hpos).mp hzero.le
    omega
  calc 16 ≤ max 16 blockSize := Nat.le_max_left ..
    _ ≤ max 16 blockSize * ceilDiv stateBytes (max 16 blockSize * perToken) :=
        Nat.le_mul_of_pos_right _ hpages
    _ ≤ alignedBlockSize stateBytes perToken blockSize := Nat.le_max_right ..

theorem alignedBlockSize_idem {stateBytes perToken : ℕ} (hper : 0 < perToken) (blockSize : ℕ) :
    alignedBlockSize stateBytes perToken (alignedBlockSize stateBytes perToken blockSize) =
      alignedBlockSize stateBytes perToken blockSize := by
  have hcovers := @stateBytes_le_page stateBytes perToken blockSize hper
  set aligned := alignedBlockSize stateBytes perToken blockSize with haligned
  have hpos : 0 < max 16 aligned * perToken := Nat.mul_pos (by omega) hper
  apply Nat.max_eq_left
  rcases Nat.eq_zero_or_pos stateBytes with hzero | hstate
  · have hnone : ceilDiv stateBytes (max 16 aligned * perToken) = 0 :=
      Nat.le_zero.mp ((ceilDiv_le_iff hpos).mpr (by omega))
    rw [hnone]
    exact Nat.zero_le _
  · have hleast : max 16 aligned = aligned :=
      Nat.max_eq_right (sixteen_le_alignedBlockSize hstate hper blockSize)
    rw [hleast] at hpos ⊢
    have hone : ceilDiv stateBytes (aligned * perToken) ≤ 1 :=
      (ceilDiv_le_iff hpos).mpr (by rwa [Nat.one_mul])
    exact (Nat.mul_le_mul_left _ hone).trans_eq (Nat.mul_one _)

/-! ### The alignment -/

/-- The deployment and the model were given one card. -/
structure OneCard (load : String → Except PyError ModelCard) (args : VllmConfigArgs)
    (card : ModelCard) : Prop where
  loads : load (cardName args.modelCard args.modelConfig.model) = .ok card
  hfConfig : args.modelConfig.hfConfig = card

theorem oneCard_of_init {load : String → Except PyError ModelCard} {args : VllmConfigArgs}
    {model : String} {modelCard : Option String} {dtype : String} {maxModelLen : Option ℤ}
    (hmodel : ModelConfig.init load model modelCard dtype maxModelLen = .ok args.modelConfig)
    (hcard : args.modelCard = modelCard) : OneCard load args args.modelConfig.hfConfig := by
  unfold ModelConfig.init at hmodel
  obtain ⟨card, hload, hmodel⟩ := except_bind_iff.mp hmodel
  obtain ⟨_, -, hmodel⟩ := except_bind_iff.mp hmodel
  dsimp only at hmodel
  split at hmodel
  · cases hmodel
  · split at hmodel
    · have hbuilt := Except.ok.inj hmodel
      refine ⟨?_, rfl⟩
      rw [hcard, ← hbuilt]
      exact hload
    · cases hmodel

def perTokenOf (args : VllmConfigArgs) (card : ModelCard) : ℕ :=
  attentionBytesPerToken card args.parallelConfig.tensorParallelSize
    (args.cacheConfig.resolvedCacheDtype.getD args.modelConfig.resolvedDtype)

def alignedCache (cache : CacheConfig) (stateBytes perToken : ℕ) : CacheConfig := {
  cache with
  blockSize := alignedBlockSize stateBytes perToken cache.blockSize
  mambaPageSizePadded :=
    some (alignedBlockSize stateBytes perToken cache.blockSize * perToken)
  blockSize_pos := Nat.lt_of_lt_of_le cache.blockSize_pos (Nat.le_max_left ..) }

theorem alignedCache_idem (cache : CacheConfig) (stateBytes : ℕ) {perToken : ℕ}
    (hper : 0 < perToken) :
    alignedCache (alignedCache cache stateBytes perToken) stateBytes perToken =
      alignedCache cache stateBytes perToken := by
  have hblock := @alignedBlockSize_idem stateBytes perToken hper cache.blockSize
  unfold alignedCache
  simp only [hblock]

theorem alignHybridBlockSize_eq_ok {load : String → Except PyError ModelCard}
    {args : VllmConfigArgs} {card : ModelCard}
    (hload : load (cardName args.modelCard args.modelConfig.model) = .ok card)
    (hstate : card.isStateSpace = true) {cache : CacheConfig} :
    alignHybridBlockSize load args = .ok cache ↔
      ∃ stateBytes,
        card.mambaStateBytesPerLayer args.parallelConfig.tensorParallelSize = .ok stateBytes ∧
        0 < perTokenOf args card ∧
        alignedCache args.cacheConfig stateBytes (perTokenOf args card) = cache := by
  unfold alignHybridBlockSize
  rw [hload]
  dsimp only
  rw [if_neg (by simp [hstate]), except_bind_iff]
  apply exists_congr
  intro stateBytes
  apply and_congr_right
  intro _
  have hper : max 16 args.cacheConfig.blockSize * perTokenOf args card = 0 ↔
      ¬ 0 < perTokenOf args card := by
    rw [Nat.mul_eq_zero]
    omega
  by_cases hpos : 0 < perTokenOf args card
  · have hne : ¬ max 16 args.cacheConfig.blockSize * perTokenOf args card = 0 :=
      fun h => hper.mp h hpos
    unfold perTokenOf at hne
    rw [if_neg hne]
    exact ⟨fun h => ⟨hpos, Except.ok.inj h⟩, fun h => congrArg Except.ok h.2⟩
  · have hzero := hper.mpr hpos
    unfold perTokenOf at hzero
    rw [if_pos hzero]
    constructor
    · intro h
      cases h
    · intro h
      exact absurd h.1 hpos

theorem alignHybridBlockSize_again {load : String → Except PyError ModelCard}
    {args : VllmConfigArgs} {card : ModelCard}
    (hload : load (cardName args.modelCard args.modelConfig.model) = .ok card)
    (hstate : card.isStateSpace = true) {cache : CacheConfig}
    (h : alignHybridBlockSize load args = .ok cache) :
    alignHybridBlockSize load { args with cacheConfig := cache } = .ok cache := by
  obtain ⟨stateBytes, hbytes, hper, rfl⟩ := (alignHybridBlockSize_eq_ok hload hstate).mp h
  set cache := alignedCache args.cacheConfig stateBytes (perTokenOf args card)
  apply (@alignHybridBlockSize_eq_ok load { args with cacheConfig := cache } card hload hstate
    cache).mpr
  exact ⟨stateBytes, hbytes, hper, alignedCache_idem args.cacheConfig stateBytes hper⟩

end Config

/-! ### The pages of the specs -/

/-- Every layer has this page. -/
def Paged (page : ℕ) (specs : LayerSpecs) : Prop :=
  ∀ name spec, specs.find name = some spec → spec.pageSizeBytes = .ok page

theorem paged_store {page : ℕ} {specs : LayerSpecs} (h : Paged page specs) {spec : LayerSpec}
    (hspec : spec.pageSizeBytes = .ok page) (name : String) :
    Paged page (specs.store name spec) := by
  intro name' spec' hfind
  rw [Dict.find_store] at hfind
  split at hfind
  · obtain rfl := Option.some.inj hfind
    exact hspec
  · exact h name' spec' hfind

theorem unifyPageSizes_of_paged {page : ℕ} {specs : LayerSpecs} (h : Paged page specs) :
    unifyPageSizes specs = .ok specs := by
  have hpages : ∀ layers : List (String × LayerSpec), layers ⊆ specs.items →
      layers.mapM (fun layer => layer.2.pageSizeBytes) =
        .ok (List.replicate layers.length page) := by
    intro layers hsub
    induction layers with
    | nil => rfl
    | cons layer layers ih =>
        have hlayer := h layer.1 layer.2
          ((Dict.find_eq_some_iff ..).mpr (hsub List.mem_cons_self))
        rw [List.mapM_cons, hlayer, ih fun _ hmem => hsub (List.mem_cons_of_mem _ hmem)]
        rfl
  unfold unifyPageSizes
  split
  · rfl
  · rename_i hne
    rw [hpages specs.items (List.Subset.refl _)]
    apply if_pos
    apply List.all_eq_true.mpr
    intro size hsize
    have hmax : (List.replicate specs.items.length page).max? = some page :=
      List.max?_replicate_of_pos (List.length_pos_iff.mpr hne)
    rw [List.eq_of_mem_replicate hsize, hmax]
    exact decide_eq_true rfl

namespace KVCacheSpecs

theorem storeLayer_paged {page index : ℕ}
    {spec : ℕ → Except PyError (Option (String × LayerSpec))}
    (hspec : ∀ kind layer, spec index = .ok (some (kind, layer)) →
      layer.pageSizeBytes = .ok page)
    {specs next : LayerSpecs} (hspecs : Paged page specs)
    (h : storeLayer spec specs index = .ok next) : Paged page next := by
  obtain ⟨layer, hlayer, h⟩ := except_bind_iff.mp h
  cases layer with
  | none =>
      obtain rfl := Except.ok.inj h
      exact hspecs
  | some layer =>
      obtain rfl := Except.ok.inj h
      exact paged_store hspecs (hspec layer.1 layer.2 hlayer) _

theorem layered_paged {page start stop : ℕ}
    {spec : ℕ → Except PyError (Option (String × LayerSpec))}
    (hspec : ∀ index kind layer, spec index = .ok (some (kind, layer)) →
      layer.pageSizeBytes = .ok page)
    {specs : LayerSpecs} (h : layered start stop spec = .ok specs) : Paged page specs := by
  have hrun : ∀ (indices : List ℕ) (done : LayerSpecs), Paged page done →
      indices.foldlM (storeLayer spec) done = .ok specs → Paged page specs := by
    intro indices
    induction indices with
    | nil =>
        intro done hdone h
        obtain rfl := Except.ok.inj h
        exact hdone
    | cons index indices ih =>
        intro done hdone h
        rw [List.foldlM_cons] at h
        obtain ⟨next, hnext, h⟩ := except_bind_iff.mp h
        exact ih next (storeLayer_paged (hspec index) hdone hnext) h
  apply hrun _ Dict.empty _ h
  intro name layer hfind
  cases hfind

section Card

variable {config : VllmConfig} {card : ModelCard} {page : ℕ}

/-- The cache of a deployment of this card was aligned, to this page. -/
structure Aligned (config : VllmConfig) (card : ModelCard) (page : ℕ) : Prop where
  hfConfig : config.modelConfig.hfConfig = card
  page_eq : page = config.cacheConfig.blockSize *
    attentionBytesPerToken card config.parallelConfig.tensorParallelSize (kvCacheDtype config)
  padded : config.cacheConfig.mambaPageSizePadded = some page
  covers : ∃ stateBytes,
    card.mambaStateBytesPerLayer config.parallelConfig.tensorParallelSize = .ok stateBytes ∧
      stateBytes ≤ page

theorem headShape_paged (h : Aligned config card page) (hmla : card.useMla = false) :
    ∃ shape, headShape config = .ok shape ∧ LayerSpec.keysAndValues shape = page := by
  refine ⟨shape config (max 1
    (card.numKeyValueHeads / config.parallelConfig.tensorParallelSize)) card.headDim, ?_, ?_⟩
  · unfold headShape ModelConfig.getHeadSize ModelConfig.getNumKvHeads
    rw [h.hfConfig, hmla]
    rfl
  · rw [h.page_eq]
    unfold LayerSpec.keysAndValues shape attentionBytesPerToken
    simp only [Nat.mul_assoc, Nat.mul_left_comm]

theorem latentShape_none (hmla : card.useMla = false) :
    latentShape config (some card) = .ok none := by
  unfold latentShape
  dsimp only
  rw [hmla]
  rfl

theorem full_paged (h : Aligned config card page) (hmla : card.useMla = false) {spec : LayerSpec}
    (hspec : full config (some card) = .ok spec) : spec.pageSizeBytes = .ok page := by
  obtain ⟨shape, hshape, hpage⟩ := headShape_paged h hmla
  unfold full at hspec
  rw [latentShape_none hmla, hshape] at hspec
  obtain rfl := Except.ok.inj hspec
  exact congrArg Except.ok hpage

theorem windowed_paged (h : Aligned config card page) (hmla : card.useMla = false)
    {window : ℕ} {spec : LayerSpec} (hspec : windowed config (some card) window = .ok spec) :
    spec.pageSizeBytes = .ok page := by
  obtain ⟨shape, hshape, hpage⟩ := headShape_paged h hmla
  unfold windowed at hspec
  split at hspec
  · rw [latentShape_none hmla, hshape] at hspec
    obtain rfl := Except.ok.inj hspec
    exact congrArg Except.ok hpage
  · cases hspec

theorem stateSpec_paged (h : Aligned config card page) {spec : LayerSpec}
    (hspec : stateSpec config card = .ok spec) : spec.pageSizeBytes = .ok page := by
  obtain ⟨stateBytes, hbytes, hle⟩ := h.covers
  unfold stateSpec at hspec
  rw [hbytes, h.padded] at hspec
  obtain rfl := Except.ok.inj hspec
  show (pyAssert (decide (stateBytes ≤ page)) "" >>= fun _ => pure page) = _
  rw [decide_eq_true hle]
  rfl

theorem build_paged (h : Aligned config card page) (hmla : card.useMla = false)
    (hstate : card.isStateSpace = true) {start stop : ℕ} {specs : LayerSpecs}
    (hspecs : build config (some card) start stop = .ok specs) : Paged page specs := by
  have huniform : ∀ {spec : LayerSpec} {specs : LayerSpecs}, spec.pageSizeBytes = .ok page →
      layered start stop (fun _ => .ok (some ("self_attn", spec))) = .ok specs →
      Paged page specs := by
    intro spec specs hpage hlayered
    apply layered_paged _ hlayered
    intro index kind layer hlayer
    obtain ⟨-, rfl⟩ := Prod.mk.inj (Option.some.inj (Except.ok.inj hlayer))
    exact hpage
  unfold build at hspecs
  dsimp only at hspecs
  split at hspecs
  · obtain ⟨spec, hspec, hlayered⟩ := except_bind_iff.mp hspecs
    exact huniform (windowed_paged h hmla hspec) hlayered
  · rename_i heq
    cases heq
  · rename_i hybrid _ heq
    obtain rfl := Option.some.inj heq
    rw [if_pos hstate] at hspecs
    split at hspecs
    · cases hspecs
    · rename_i pattern _
      obtain ⟨stateLayer, hstateSpec, hspecs⟩ := except_bind_iff.mp hspecs
      obtain ⟨attentionLayer, hfull, hlayered⟩ := except_bind_iff.mp hspecs
      apply layered_paged _ hlayered
      intro index kind layer hlayer
      unfold patternSpec at hlayer
      split at hlayer
      · cases hlayer
      · obtain ⟨-, rfl⟩ := Prod.mk.inj (Option.some.inj (Except.ok.inj hlayer))
        exact stateSpec_paged h hstateSpec
      · obtain ⟨-, rfl⟩ := Prod.mk.inj (Option.some.inj (Except.ok.inj hlayer))
        exact full_paged h hmla hfull
      · cases hlayer

end Card

end KVCacheSpecs

/-! ### The deployment -/

theorem bindingStage_mem (best : ℕ × LayerSpecs) (stages : List (ℕ × LayerSpecs)) :
    bindingStage best stages ∈ best :: stages := by
  induction stages generalizing best with
  | nil => exact List.mem_cons_self
  | cons stage stages ih =>
      unfold bindingStage
      rcases List.mem_cons.mp (ih (if best.1 < stage.1 then stage else best)) with heq | hmem
      · rw [heq]
        split
        · exact List.mem_cons_of_mem _ List.mem_cons_self
        · exact List.mem_cons_self
      · exact List.mem_cons_of_mem _ (List.mem_cons_of_mem _ hmem)

theorem getKVCacheSpec_paged {load : String → Except PyError ModelCard} {config : VllmConfig}
    {card : ModelCard} {page : ℕ} (hcard : load config.resolvedCard = .ok card)
    (h : KVCacheSpecs.Aligned config card page) (hmla : card.useMla = false)
    (hstate : card.isStateSpace = true) {specs : LayerSpecs}
    (hspecs : getKVCacheSpec load config = .ok specs) : Paged page specs := by
  unfold getKVCacheSpec resolveModelCard at hspecs
  rw [hcard] at hspecs
  obtain ⟨resolved, hresolved, hspecs⟩ := except_bind_iff.mp hspecs
  obtain rfl := Except.ok.inj hresolved
  split at hspecs
  · exact KVCacheSpecs.build_paged h hmla hstate hspecs
  · obtain ⟨built, hbuilt, hspecs⟩ := except_bind_iff.mp hspecs
    have hall : ∀ stage ∈ built, Paged page stage.2 := by
      intro stage hstage
      obtain ⟨range, -, hstage⟩ := exists_of_mem_right (mapM_ok hbuilt) hstage
      obtain ⟨specs, hspecs, hstage⟩ := except_bind_iff.mp hstage
      obtain ⟨total, -, hstage⟩ := except_bind_iff.mp hstage
      obtain rfl := Except.ok.inj hstage
      exact KVCacheSpecs.build_paged h hmla hstate hspecs
    split at hspecs
    · cases hspecs
    · rename_i first rest
      obtain rfl := Except.ok.inj hspecs
      exact hall _ (bindingStage_mem first rest)

theorem cacheConfig_of_init {load : String → Except PyError ModelCard} {args : VllmConfigArgs}
    {cache : CacheConfig} (hcache : alignHybridBlockSize load args = .ok cache)
    {config : VllmConfig} (h : VllmConfig.init load args = .ok config) :
    config.cacheConfig = cache := by
  unfold VllmConfig.init at h
  obtain ⟨_, -, h⟩ := except_bind_iff.mp h
  obtain ⟨cache', hcache', h⟩ := except_bind_iff.mp h
  obtain ⟨_, -, h⟩ := except_bind_iff.mp h
  obtain rfl := Except.ok.inj h
  exact Except.ok.inj (hcache'.symm.trans hcache)

theorem aligned_of_init {load : String → Except PyError ModelCard} {args : VllmConfigArgs}
    {card : ModelCard} (hone : OneCard load args card) (hstate : card.isStateSpace = true)
    {config : VllmConfig} (h : VllmConfig.init load args = .ok config) :
    load config.resolvedCard = .ok card ∧
      KVCacheSpecs.Aligned config card (config.cacheConfig.blockSize * perTokenOf args card) := by
  unfold VllmConfig.init at h
  obtain ⟨_, -, h⟩ := except_bind_iff.mp h
  obtain ⟨cache, hcache, h⟩ := except_bind_iff.mp h
  obtain ⟨_, -, h⟩ := except_bind_iff.mp h
  obtain rfl := Except.ok.inj h
  obtain ⟨stateBytes, hbytes, hper, rfl⟩ :=
    (alignHybridBlockSize_eq_ok hone.loads hstate).mp hcache
  exact ⟨hone.loads, hone.hfConfig, rfl, rfl, stateBytes, hbytes, stateBytes_le_page hper⟩

/-- The groups of the layers that are accepted share them out, by type, in groups none above
the chosen size, with one page; and for a card with recurrent states a page of attention covers
a state once the block is aligned, the specs need no unifying, and a second alignment changes
nothing. -/
theorem layerGroups_and_hybridPages :
    (∀ specs groups, getKVCacheGroups specs = .ok groups →
      ∃ unified buckets, unifyPageSizes specs = .ok unified ∧ bucketLayers unified = .ok buckets ∧
        WellGrouped specs (chosenGroupSize (buckets.items.map fun bucket => bucket.2.length))
          groups) ∧
    ∀ load args card, OneCard load args card → card.isStateSpace = true → card.useMla = false →
      ∀ cache, alignHybridBlockSize load args = .ok cache →
        (∃ stateBytes,
          card.mambaStateBytesPerLayer args.parallelConfig.tensorParallelSize = .ok stateBytes ∧
            stateBytes ≤ cache.blockSize * perTokenOf args card) ∧
        (∀ config specs, VllmConfig.init load args = .ok config →
          getKVCacheSpec load config = .ok specs →
          Paged (cache.blockSize * perTokenOf args card) specs ∧
            unifyPageSizes specs = .ok specs) ∧
        alignHybridBlockSize load { args with cacheConfig := cache } = .ok cache := by
  refine ⟨fun _ _ h => wellGrouped_of_getKVCacheGroups h, ?_⟩
  intro load args card hone hstate hmla cache hcache
  refine ⟨?_, ?_, alignHybridBlockSize_again hone.loads hstate hcache⟩
  · obtain ⟨stateBytes, hbytes, hper, rfl⟩ :=
      (alignHybridBlockSize_eq_ok hone.loads hstate).mp hcache
    exact ⟨stateBytes, hbytes, stateBytes_le_page hper⟩
  · intro config specs hinit hspecs
    obtain ⟨hload, haligned⟩ := aligned_of_init hone hstate hinit
    have hpaged := getKVCacheSpec_paged hload haligned hmla hstate hspecs
    rw [cacheConfig_of_init hcache hinit] at hpaged
    exact ⟨hpaged, unifyPageSizes_of_paged hpaged⟩

/-- Five layers of full attention, two with a window and two with a smaller state. -/
def mixedSpecs : LayerSpecs :=
  let shape : AttentionShape := ⟨16, 1, 1, "int8", 1⟩
  let full := LayerSpec.fullAttention shape
  let windowed := LayerSpec.slidingWindow shape 8 (Nat.succ_pos 7)
  let state := LayerSpec.mamba 16 20 none
  [("0", full), ("1", state), ("2", windowed), ("3", full), ("4", state), ("5", full),
    ("6", windowed), ("7", full), ("8", full)].foldl
    (fun specs layer => specs.store layer.1 layer.2) Dict.empty

theorem noLatent : (none : Option ℕ).isNone = (none : Option ℕ).isNone := rfl

/-- The bundled card with recurrent states. -/
def hybridSsm8b : ModelCard where
  name := "hybrid-ssm-8b"
  numHiddenLayers := 52
  hiddenSize := 4096
  numAttentionHeads := 32
  numKeyValueHeads := 8
  headDim := 128
  intermediateSize := 21504
  vocabSize := 131072
  maxPositionEmbeddings := 8192
  architecture := "NemotronHForCausalLM"
  hybridOverridePattern := some "M-M-M-M*-M-M-M-M-M*-M-M-M-M-M*-M-M-M-M-M*-M-M-M-M-M-"
  mambaNumHeads := some 128
  mambaHeadDim := some 64
  mambaStateSize := some 128
  mambaNGroups := 8
  mambaSsmCacheDtype := some .float32
  latent := noLatent

def loadHybrid (_ : String) : Except PyError ModelCard := .ok hybridSsm8b

def hybridArgs : Except PyError VllmConfigArgs := do
  let modelConfig ← ModelConfig.init loadHybrid "hybrid-ssm-8b" none "auto" none
  let cacheConfig ← CacheConfig.init 16 "auto" none true
  let parallelConfig ← ParallelConfig.init 2 1 1
  return ⟨modelConfig, cacheConfig, parallelConfig, none, none, 0, none, none, none, true⟩

theorem oneCard_hybrid {args : VllmConfigArgs} (h : hybridArgs = .ok args) :
    OneCard loadHybrid args hybridSsm8b := by
  unfold hybridArgs at h
  obtain ⟨modelConfig, hmodel, h⟩ := except_bind_iff.mp h
  obtain ⟨_, -, h⟩ := except_bind_iff.mp h
  obtain ⟨_, -, h⟩ := except_bind_iff.mp h
  have hargs := Except.ok.inj h
  have hone : OneCard loadHybrid args args.modelConfig.hfConfig := by
    apply @oneCard_of_init _ _ "hybrid-ssm-8b" none "auto" none
    · rw [← hargs]
      exact hmodel
    · rw [← hargs]
  have hcard : hybridSsm8b = args.modelConfig.hfConfig := Except.ok.inj hone.loads
  rwa [← hcard] at hone

def hybridRun : Except PyError (VllmConfigArgs × CacheConfig × VllmConfig × LayerSpecs) := do
  let args ← hybridArgs
  let cache ← alignHybridBlockSize loadHybrid args
  let config ← VllmConfig.init loadHybrid args
  let specs ← getKVCacheSpec loadHybrid config
  return (args, cache, config, specs)

theorem layerGroups_and_hybridPages_run :
    (∃ (groups : List KVCacheGroup) (buckets : List (String × List String)),
      groups.map (fun group => group.layerNames) =
        [["0", "7"], ["3", "8"], ["5"], ["1", "4"], ["2", "6"]] ∧
      WellGrouped mixedSpecs
        (chosenGroupSize (buckets.map fun bucket => bucket.2.length)) groups) ∧
    ∃ args cache specs, hybridArgs = .ok args ∧ cache.blockSize = 1040 ∧
      alignHybridBlockSize loadHybrid args = .ok cache ∧
      alignHybridBlockSize loadHybrid { args with cacheConfig := cache } = .ok cache ∧
      specs.items.length = 14 ∧ unifyPageSizes specs = .ok specs := by
  constructor
  · obtain ⟨groups, hgroups, hnames⟩ := @exists_of_okAnd _ (getKVCacheGroups mixedSpecs)
      (fun groups => groups.map (fun group => group.layerNames) =
        [["0", "7"], ["3", "8"], ["5"], ["1", "4"], ["2", "6"]]) (by decide +kernel)
    obtain ⟨_, buckets, -, -, hgrouped⟩ := layerGroups_and_hybridPages.1 mixedSpecs groups hgroups
    exact ⟨groups, buckets.items, of_decide_eq_true hnames, hgrouped⟩
  · obtain ⟨⟨args, cache, config, specs⟩, hrun, hcheck⟩ := @exists_of_okAnd _ hybridRun
      (fun (_, cache, _, specs) => cache.blockSize = 1040 ∧ specs.items.length = 14)
      (by decide +kernel)
    obtain ⟨hblock, hlength⟩ := of_decide_eq_true hcheck
    unfold hybridRun at hrun
    obtain ⟨args', hargs, hrun⟩ := except_bind_iff.mp hrun
    obtain ⟨cache', hcache, hrun⟩ := except_bind_iff.mp hrun
    obtain ⟨config', hinit, hrun⟩ := except_bind_iff.mp hrun
    obtain ⟨specs', hspecs, hrun⟩ := except_bind_iff.mp hrun
    cases hrun
    obtain ⟨-, hunified, hagain⟩ := layerGroups_and_hybridPages.2 loadHybrid args hybridSsm8b
      (oneCard_hybrid hargs) (by decide +kernel) (by decide +kernel) cache hcache
    exact ⟨args, cache, specs, hargs, hblock, hcache, hagain, hlength,
      (hunified config specs hinit hspecs).2⟩

end Pvllm
