import Pvllm.Basic

/-!
Model cards: the architecture a name stands for.

Cards are files, so how a name is resolved to one is a parameter wherever it is
needed. A card is read with what its own check leaves possible: a latent is declared
whole or not at all. The keys a card file may hold beyond these are kept apart by the
source and read by nothing.
-/

namespace Pvllm

/-- The element types there are bytes for. -/
inductive Dtype where
  | float32
  | float16
  | bfloat16
  | float8E4m3
  | float8E5m2
  | int8
deriving Repr, DecidableEq

namespace Dtype

def name : Dtype → String
  | .float32 => "float32"
  | .float16 => "float16"
  | .bfloat16 => "bfloat16"
  | .float8E4m3 => "float8_e4m3"
  | .float8E5m2 => "float8_e5m2"
  | .int8 => "int8"

def bytes : Dtype → ℕ
  | .float32 => 4
  | .float16 => 2
  | .bfloat16 => 2
  | .float8E4m3 => 1
  | .float8E5m2 => 1
  | .int8 => 1

theorem name_injective : Function.Injective name := by
  intro dtype dtype' h
  cases dtype <;> cases dtype' <;> first | rfl | exact absurd h (by decide)

/-- The type of a name, `DTYPE_BYTES[...]`. -/
def ofName (name : String) : Option Dtype :=
  [float32, float16, bfloat16, float8E4m3, float8E5m2, int8].find? (·.name = name)

end Dtype

structure ModelCard where
  name : String
  numHiddenLayers : ℕ
  hiddenSize : ℕ
  numAttentionHeads : ℕ
  numKeyValueHeads : ℕ
  headDim : ℕ
  intermediateSize : ℕ
  vocabSize : ℕ
  maxPositionEmbeddings : ℕ
  dtype : Dtype := .bfloat16
  architecture : String := "LlamaForCausalLM"
  tieWordEmbeddings : Bool := false
  numExperts : ℕ := 0
  numExpertsPerToken : ℕ := 0
  slidingWindow : Option ℕ := none
  slidingWindowPattern : Option ℕ := none
  kvLoraRank : Option ℕ := none
  qkRopeHeadDim : Option ℕ := none
  hybridOverridePattern : Option String := none
  mambaNumHeads : Option ℕ := none
  mambaHeadDim : Option ℕ := none
  mambaStateSize : Option ℕ := none
  mambaNGroups : ℕ := 1
  mambaConvKernel : ℕ := 4
  mambaSsmCacheDtype : Option Dtype := none
  numParametersOverride : Option ℕ := none
  provenance : String := "uncalibrated approximation"
  latent : kvLoraRank.isNone = qkRopeHeadDim.isNone
deriving DecidableEq

namespace ModelCard

variable (card : ModelCard)

def numMambaLayers : ℕ :=
  match card.hybridOverridePattern with
  | none => 0
  | some pattern => pattern.toList.count 'M'

def isStateSpace : Bool := 0 < card.numMambaLayers

/-- One Mamba layer's recurrent state for one request. -/
def mambaStateBytesPerLayer (tpSize : ℕ) : Except PyError ℕ :=
  match card.mambaNumHeads, card.mambaHeadDim, card.mambaStateSize with
  | some mambaNumHeads, some mambaHeadDim, some mambaStateSize =>
    let convBytes := card.dtype.bytes
    let ssmBytes := (card.mambaSsmCacheDtype.getD card.dtype).bytes
    let dInner := mambaNumHeads * mambaHeadDim
    let convDim := dInner + 2 * card.mambaNGroups * mambaStateSize
    let convElems := (card.mambaConvKernel - 1) * max 1 (convDim / tpSize)
    let ssmElems := max 1 (mambaNumHeads / tpSize) * mambaHeadDim * mambaStateSize
    .ok (convElems * convBytes + ssmElems * ssmBytes)
  | _, _, _ => .error (.assertionError "")

def useMla : Bool := card.kvLoraRank.isSome && card.qkRopeHeadDim.isSome

def mlaHeadSize : Except PyError ℕ :=
  match card.kvLoraRank, card.qkRopeHeadDim with
  | some kvLoraRank, some qkRopeHeadDim => .ok (kvLoraRank + qkRopeHeadDim)
  | _, _ => .error (.assertionError "")

def isHybridAttention : Bool := card.slidingWindow.isSome && card.slidingWindowPattern.isSome

/-- The last layer of each repeat attends to the whole context. -/
def layerIsFullAttention (layerIndex : ℕ) : Except PyError Bool :=
  if card.isHybridAttention = false then
    .ok card.slidingWindow.isNone
  else
    match card.slidingWindowPattern with
    | none => .error (.assertionError "")
    | some 0 => .error (.zeroDivisionError "integer modulo by zero")
    | some pattern => .ok ((layerIndex + 1) % pattern = 0)

/-! ### Parameters -/

def isMoe : Bool := 0 < card.numExperts

def embeddingParameters : ℕ :=
  let params := card.vocabSize * card.hiddenSize
  if card.tieWordEmbeddings then params else params + card.vocabSize * card.hiddenSize

def attentionParametersPerLayer : ℕ :=
  let q := card.hiddenSize * card.numAttentionHeads * card.headDim
  let kv := 2 * card.hiddenSize * card.numKeyValueHeads * card.headDim
  let o := card.numAttentionHeads * card.headDim * card.hiddenSize
  q + kv + o

def mlpParametersPerLayer : ℕ :=
  let oneExpert := 3 * card.hiddenSize * card.intermediateSize
  if card.isMoe = false then oneExpert
  else
    let router := card.hiddenSize * card.numExperts
    card.numExperts * oneExpert + router

def routerParametersPerLayer : ℕ := if card.isMoe then card.hiddenSize * card.numExperts else 0

def expertParametersPerLayer : ℕ := card.mlpParametersPerLayer - card.routerParametersPerLayer

def derivedParameters : ℕ :=
  let perLayer :=
    card.attentionParametersPerLayer + card.mlpParametersPerLayer + 2 * card.hiddenSize
  card.embeddingParameters + card.numHiddenLayers * perLayer + card.hiddenSize

def numParameters : ℕ := card.numParametersOverride.getD card.derivedParameters

def numAttentionLayers : ℕ :=
  match card.hybridOverridePattern with
  | none => card.numHiddenLayers
  | some pattern => if pattern = "" then card.numHiddenLayers else pattern.toList.count '*'

def kvBytesPerToken (kvDtype : Option Dtype) (tpSize : ℕ) : Except PyError ℕ := do
  let dtypeBytes := (kvDtype.getD card.dtype).bytes
  let layers := card.numAttentionLayers
  if card.useMla then
    let headSize ← card.mlaHeadSize
    pure (headSize * dtypeBytes * layers)
  else
    let kvHeadsLocal := max 1 (card.numKeyValueHeads / tpSize)
    pure (2 * kvHeadsLocal * card.headDim * dtypeBytes * layers)

end ModelCard

end Pvllm
