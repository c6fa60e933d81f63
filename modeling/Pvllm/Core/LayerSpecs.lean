import Pvllm.Core.SingleType
import Pvllm.Library.Separated
import Pvllm.Library.Slices

/-!
How each layer uses the KV cache, and how the layers are grouped.

A layer's spec says how many bytes one block takes in it. `unifyPageSizes` makes these the
same for all layers or refuses them, and `getKVCacheGroups` splits the layers into groups of
one spec type that share a block table.
-/

namespace Pvllm

structure AttentionShape where
  blockSize : ℕ
  numKvHeads : ℕ
  headSize : ℕ
  dtype : String
  dtypeBytes : ℕ
deriving DecidableEq

/-- The spec of a layer, by its class. -/
inductive LayerSpec where
  | fullAttention (shape : AttentionShape)
  | mlaAttention (shape : AttentionShape)
  | slidingWindow (shape : AttentionShape) (window : ℕ) (positive : 1 ≤ window)
  | slidingWindowMLA (shape : AttentionShape) (window : ℕ) (positive : 1 ≤ window)
  | mamba (blockSize stateBytes : ℕ) (pageSizePadded : Option ℕ)
deriving DecidableEq

namespace LayerSpec

/-- `type(spec).__name__`. -/
def className : LayerSpec → String
  | .fullAttention _ => "FullAttentionSpec"
  | .mlaAttention _ => "MLAAttentionSpec"
  | .slidingWindow _ _ _ => "SlidingWindowSpec"
  | .slidingWindowMLA _ _ _ => "SlidingWindowMLASpec"
  | .mamba _ _ _ => "MambaSpec"

def blockSize : LayerSpec → ℕ
  | .fullAttention shape => shape.blockSize
  | .mlaAttention shape => shape.blockSize
  | .slidingWindow shape _ _ => shape.blockSize
  | .slidingWindowMLA shape _ _ => shape.blockSize
  | .mamba blockSize _ _ => blockSize

def keysAndValues (shape : AttentionShape) : ℕ :=
  2 * shape.blockSize * shape.numKvHeads * shape.headSize * shape.dtypeBytes

def latent (shape : AttentionShape) : ℕ :=
  shape.blockSize * shape.numKvHeads * shape.headSize * shape.dtypeBytes

def pageSizeBytes : LayerSpec → Except PyError ℕ
  | .fullAttention shape => .ok (keysAndValues shape)
  | .mlaAttention shape => .ok (latent shape)
  | .slidingWindow shape _ _ => .ok (keysAndValues shape)
  | .slidingWindowMLA shape _ _ => .ok (latent shape)
  | .mamba _ stateBytes none => .ok stateBytes
  | .mamba _ stateBytes (some padded) => do
    pyAssert (stateBytes ≤ padded) ""
    pure padded

def window : LayerSpec → Option ℕ
  | .slidingWindow _ window _ => some window
  | .slidingWindowMLA _ window _ => some window
  | _ => none

def windowSuffix (spec : LayerSpec) : String :=
  match spec.window with
  | none => ""
  | some window => s!"_sw{window}"

def typeId (spec : LayerSpec) : Except PyError String := do
  let page ← spec.pageSizeBytes
  pure (s!"{spec.className}_{spec.blockSize}_{page}" ++ spec.windowSuffix)

/-- A state-space page is padded, and any other is not. -/
def padTo (maxPage : ℕ) (name : String) (spec : LayerSpec) : Except PyError LayerSpec := do
  let page ← spec.pageSizeBytes
  if page = maxPage then pure spec
  else
    match spec with
    | .mamba blockSize stateBytes _ => pure (.mamba blockSize stateBytes (some maxPage))
    | _ => .error (.notImplementedError (s!"layer '{name}' has a {page}-byte page against a "
        ++ s!"{maxPage}-byte common page, and only a state-space page can be padded to fit. An "
        ++ "attention page has to be *grown* by raising block_size, which the platform does "
        ++ "before specs are built."))

end LayerSpec

abbrev LayerSpecs := Dict String LayerSpec

/-- Make every layer occupy the same bytes per block. -/
def unifyPageSizes (specs : LayerSpecs) : Except PyError LayerSpecs :=
  if specs.items = [] then .ok specs
  else do
    let pages ← specs.items.mapM fun layer => layer.2.pageSizeBytes
    let maxPage := pages.max?.getD 0
    if pages.all (· = maxPage) then .ok specs
    else
      specs.items.foldlM (fun unified layer => do
        let spec ← layer.2.padTo maxPage layer.1
        pure (unified.store layer.1 spec)) Dict.empty

/-- Layers that share a block table. -/
structure KVCacheGroup where
  layerNames : List String
  kvCacheSpec : LayerSpec
deriving DecidableEq

def bucketLayers (specs : LayerSpecs) : Except PyError (Dict String (List String)) :=
  specs.items.foldlM (fun buckets layer => do
    let typeId ← layer.2.typeId
    pure (buckets.store typeId (buckets.findD typeId [] ++ [layer.1]))) Dict.empty

/-- The smallest bucket, or the largest when that is less than half as large again. -/
def chosenGroupSize (sizes : List ℕ) : ℕ :=
  let least := sizes.min?.getD 0
  let greatest := sizes.max?.getD 0
  if 2 * greatest < 3 * least then greatest else least

/-- A bucket in groups of at most `groupSize` layers, dealt out in turn. -/
def stripeLayers (groupSize : ℕ) (layers : List String) : List (List String) :=
  let numGroups := ceilDiv layers.length groupSize
  (List.range numGroups).map fun index => slice layers index numGroups

def groupOf (specs : LayerSpecs) (layerNames : List String) : Except PyError KVCacheGroup :=
  match layerNames with
  | [] => .error (.indexError "list index out of range")
  | first :: _ =>
    match specs.find first with
    | none => .error (.keyError first)
    | some spec => .ok ⟨layerNames, spec⟩

def checkPages (groups : List KVCacheGroup) : Except PyError Unit := do
  let pages ← groups.mapM fun group => group.kvCacheSpec.pageSizeBytes
  if pages.dedup.length = 1 then .ok ()
  else .error (.notImplementedError ("this model's attention layers would need pages of "
    ++ s!"{pages.dedup.mergeSort} bytes each. Every layer must occupy the same bytes per block, "
    ++ "or the pool fragments; upstream assumes the same."))

def getKVCacheGroups (specs : LayerSpecs) : Except PyError (List KVCacheGroup) :=
  if specs.items = [] then .error (.valueError "the model reported no attention layers")
  else do
    let specs ← unifyPageSizes specs
    let buckets ← bucketLayers specs
    match buckets.items with
    | [bucket] => do
      let group ← groupOf specs bucket.2
      pure [group]
    | items => do
      let groupSize := chosenGroupSize (items.map fun bucket => bucket.2.length)
      let grouped := items.flatMap fun bucket => stripeLayers groupSize bucket.2
      let groups ← grouped.mapM (groupOf specs)
      checkPages groups
      pure groups

end Pvllm
