import Pvllm.Config.Vllm
import Pvllm.Core.LayerGroups

/-!
The specs of the layers of a deployment.

One spec for each layer that caches something. Under a pipeline they are the layers of the
stage that needs the most.
-/

namespace Pvllm

open Config

/-- The card this deployment resolved to, if it has one. -/
def resolveModelCard (load : String → Except PyError ModelCard) (config : VllmConfig) :
    Except PyError (Option ModelCard) :=
  match load config.resolvedCard with
  | .ok card => .ok (some card)
  | .error (.keyError _) => .ok none
  | .error (.fileNotFoundError _) => .ok none
  | .error e => .error e

namespace KVCacheSpecs

variable (config : VllmConfig) (card : Option ModelCard)

def kvCacheDtype : Dtype :=
  config.cacheConfig.resolvedCacheDtype.getD config.modelConfig.resolvedDtype

def shape (numKvHeads headSize : ℕ) : AttentionShape where
  blockSize := config.cacheConfig.blockSize
  numKvHeads := numKvHeads
  headSize := headSize
  dtype := (kvCacheDtype config).name
  dtypeBytes := (kvCacheDtype config).bytes

def latentShape : Except PyError (Option AttentionShape) :=
  match card with
  | none => .ok none
  | some card =>
    if card.useMla then do
      let headSize ← card.mlaHeadSize
      pure (some (shape config 1 headSize))
    else .ok none

def headShape : Except PyError AttentionShape := do
  let headSize ← config.modelConfig.getHeadSize
  pure (shape config
    (config.modelConfig.getNumKvHeads config.parallelConfig.tensorParallelSize) headSize)

def full : Except PyError LayerSpec := do
  match ← latentShape config card with
  | some shape => pure (.mlaAttention shape)
  | none => do
    let shape ← headShape config
    pure (.fullAttention shape)

def windowed (window : ℕ) : Except PyError LayerSpec := do
  if h : 1 ≤ window then
    match ← latentShape config card with
    | some shape => pure (.slidingWindowMLA shape window h)
    | none => do
      let shape ← headShape config
      pure (.slidingWindow shape window h)
  else .error (.valueError s!"sliding_window must be positive, got {window}")

def storeLayer (spec : ℕ → Except PyError (Option (String × LayerSpec))) (specs : LayerSpecs)
    (index : ℕ) : Except PyError LayerSpecs := do
  match ← spec index with
  | none => pure specs
  | some layer => pure (specs.store s!"model.layers.{index}.{layer.1}" layer.2)

/-- The layers of `[start, stop)`. -/
def layered (start stop : ℕ) (spec : ℕ → Except PyError (Option (String × LayerSpec))) :
    Except PyError LayerSpecs :=
  (List.range' start (stop - start)).foldlM (storeLayer spec) Dict.empty

def stateSpec (card : ModelCard) : Except PyError LayerSpec := do
  let stateBytes ← card.mambaStateBytesPerLayer config.parallelConfig.tensorParallelSize
  pure (.mamba config.cacheConfig.blockSize stateBytes config.cacheConfig.mambaPageSizePadded)

/-- The spec of a layer by its letter in the card's pattern. -/
def patternSpec (pattern : String) (stateSpec attentionSpec : LayerSpec) (index : ℕ) :
    Except PyError (Option (String × LayerSpec)) :=
  match pattern.toList[index]? with
  | none => .error (.indexError "string index out of range")
  | some 'M' => .ok (some ("mixer", stateSpec))
  | some '*' => .ok (some ("self_attn", attentionSpec))
  | some _ => .ok none

def build (start stop : ℕ) : Except PyError LayerSpecs := do
  let uniform := fun spec => layered start stop fun _ => .ok (some ("self_attn", spec))
  match config.cacheConfig.slidingWindow, card with
  | some window, _ => windowed config card window >>= uniform
  | none, none => full config card >>= uniform
  | none, some hybrid =>
    if hybrid.isStateSpace then
      match hybrid.hybridOverridePattern with
      | none => .error (.assertionError "")
      | some pattern => do
        let stateSpec ← stateSpec config hybrid
        let attentionSpec ← full config card
        layered start stop (patternSpec pattern stateSpec attentionSpec)
    else
      match hybrid.slidingWindow with
      | none => full config card >>= uniform
      | some window =>
        if hybrid.isHybridAttention = false then windowed config card window >>= uniform
        else if config.schedulerConfig.disableHybridKVCacheManager then
          full config card >>= uniform
        else do
          let fullSpec ← full config card
          let windowSpec ← windowed config card window
          layered start stop fun index => do
            let isFull ← hybrid.layerIsFullAttention index
            pure (some ("self_attn", if isFull then fullSpec else windowSpec))

end KVCacheSpecs

def totalPageSize (specs : LayerSpecs) : Except PyError ℕ := do
  let pages ← specs.items.mapM fun layer => layer.2.pageSizeBytes
  pure pages.sum

/-- The first of the stages that need the most. -/
def bindingStage (best : ℕ × LayerSpecs) : List (ℕ × LayerSpecs) → ℕ × LayerSpecs
  | [] => best
  | stage :: stages => bindingStage (if best.1 < stage.1 then stage else best) stages

def getKVCacheSpec (load : String → Except PyError ModelCard) (config : VllmConfig) :
    Except PyError LayerSpecs := do
  let card ← resolveModelCard load config
  match config.modelConfig.pipelineStageRanges config.parallelConfig.pipelineParallelSize with
  | [stage] => KVCacheSpecs.build config card stage.1 stage.2
  | stages => do
    let built ← stages.mapM fun stage => do
      let specs ← KVCacheSpecs.build config card stage.1 stage.2
      let total ← totalPageSize specs
      pure (total, specs)
    match built with
    | [] => .error (.valueError "max() iterable argument is empty")
    | first :: rest => pure (bindingStage first rest).2

end Pvllm
