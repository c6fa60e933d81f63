import Pvllm.Config.Vllm
import Pvllm.Library.Separated

/-!
How a connector is built, and the keys it uses.

The store is shared by name, and a block hash says nothing of the model that computed
the KV, so the key of a block is its hash under a name space made of the
configuration. The parts of the name space are joined by a bar, which none of them
but the model's name can hold: `keySpaceOf_inj` reads them back. The model's name is
taken as it was given, while the card it stands for may be another one's.
-/

namespace Pvllm

open Config

variable {H : Type} [DecidableEq H]

namespace SimSharedStoreConnector

/-- `str` of a dtype that may be absent. -/
def printedDtype : Option Dtype → String
  | none => "None"
  | some dtype => dtype.name

/-- The parts of the name space after the model's name. -/
def keySpaceParts (config : VllmConfig) : List String := [
  config.modelConfig.resolvedDtype.name,
  printedDtype config.cacheConfig.resolvedCacheDtype,
  s!"{config.cacheConfig.blockSize}",
  s!"{config.parallelConfig.tensorParallelSize}",
  s!"{config.parallelConfig.pipelineParallelSize}"]

/-- `_namespace`. -/
def keySpaceOf (config : VllmConfig) : String :=
  "|".intercalate (config.modelConfig.model :: keySpaceParts config)

/-- The effective window: the flag's, or the one of the card. -/
def windowed (load : String → Except PyError ModelCard) (config : VllmConfig) :
    Except PyError Bool :=
  if config.cacheConfig.slidingWindow.isSome then
    .ok true
  else
    match load config.resolvedCard with
    | .ok card => .ok card.slidingWindow.isSome
    | .error (.keyError _) => .ok false
    | .error (.fileNotFoundError _) => .ok false
    | .error e => .error e

/-- `SimSharedStoreConnector.__init__`. The store is the one of the name given. -/
def init (load : String → Except PyError ModelCard) (config : VllmConfig)
    (store : SimKVStore H) : Except PyError (SimSharedStoreConnector H) := do
  raiseFirst [(!config.cacheConfig.enablePrefixCaching, .valueError
    ("a KV connector requires prefix caching: the store is keyed by block hash, and no block "
      ++ "hashes are computed with --no-enable-prefix-caching. Nothing would be published or "
      ++ "matched."))]
  let windowed ← windowed load config
  raiseFirst [(windowed, .notImplementedError
    ("a KV connector with sliding-window attention is not implemented. A windowed request drops "
      ++ "blocks behind its window, so its published prefix is not a prefix any consumer can "
      ++ "use, and upstream's connectors do not model this pairing either."))]
  let role := (config.kvTransferConfig.bind (·.kvRole)).getD .both
  return {
    blockSize := config.cacheConfig.blockSize
    store := store
    keySpace := keySpaceOf config
    mayLoad := role = .consumer ∨ role = .both
    maySave := role = .producer ∨ role = .both
    blockBytes := 0
    pendingLoads := .empty }

def setBlockBytes (connector : SimSharedStoreConnector H) (blockBytes : ℕ) :
    SimSharedStoreConnector H :=
  { connector with blockBytes := blockBytes }

/-- `_key`, kept as a pair. -/
def storeKey (connector : SimSharedStoreConnector H) (blockHash : H) : StoreKey H :=
  (connector.keySpace, blockHash)

/-- The bytes of a key: the name space, a bar, and the bytes of the hash. -/
def key (connector : SimSharedStoreConnector H) (digest : H → ByteArray) (blockHash : H) :
    ByteArray :=
  connector.keySpace.toUTF8 ++ "|".toUTF8 ++ digest blockHash

omit [DecidableEq H] in
theorem init_ok {load : String → Except PyError ModelCard} {config : VllmConfig}
    {store : SimKVStore H} {connector : SimSharedStoreConnector H}
    (h : init load config store = .ok connector) :
    config.cacheConfig.enablePrefixCaching = true ∧ connector.keySpace = keySpaceOf config ∧
      connector.blockSize = config.cacheConfig.blockSize ∧ connector.pendingLoads = .empty := by
  unfold init at h
  obtain ⟨_, hcaching, h⟩ := except_bind_iff.mp h
  obtain ⟨_, -, h⟩ := except_bind_iff.mp h
  obtain ⟨_, -, h⟩ := except_bind_iff.mp h
  rw [← Except.ok.inj h]
  refine ⟨?_, rfl, rfl, rfl⟩
  simpa using raiseFirst_eq_ok.mp hcaching

/-! ### The name space -/

theorem printedDtype_injective : Function.Injective printedDtype := by
  intro dtype dtype' h
  rcases dtype with _ | _ | _ | _ | _ | _ | _ <;> rcases dtype' with _ | _ | _ | _ | _ | _ | _ <;>
    first | rfl | exact absurd h (by decide)

theorem bar_not_mem_name (dtype : Dtype) : '|' ∉ dtype.name.toList := by
  cases dtype <;> decide

theorem bar_not_mem_printedDtype (dtype : Option Dtype) : '|' ∉ (printedDtype dtype).toList := by
  cases dtype with
  | none => decide
  | some dtype => exact bar_not_mem_name dtype

theorem bar_not_mem_toString (n : ℕ) : '|' ∉ (toString n).toList := by
  rw [toList_toString_nat]
  exact not_mem_toDigits (by decide) n

theorem toString_nat_injective : Function.Injective (toString : ℕ → String) := by
  intro n n' h
  apply toDigits_injective
  rw [← toList_toString_nat, ← toList_toString_nat, h]

/-- What two configurations agree on when their name spaces are one. -/
structure SameKeySpace (config config' : VllmConfig) : Prop where
  model : config.modelConfig.model = config'.modelConfig.model
  dtype : config.modelConfig.resolvedDtype = config'.modelConfig.resolvedDtype
  cacheDtype : config.cacheConfig.resolvedCacheDtype = config'.cacheConfig.resolvedCacheDtype
  blockSize : config.cacheConfig.blockSize = config'.cacheConfig.blockSize
  tensorParallelSize :
    config.parallelConfig.tensorParallelSize = config'.parallelConfig.tensorParallelSize
  pipelineParallelSize :
    config.parallelConfig.pipelineParallelSize = config'.parallelConfig.pipelineParallelSize

theorem bar_not_mem_keySpaceParts (config : VllmConfig) :
    ∀ part ∈ (keySpaceParts config).map String.toList, '|' ∉ part := by
  intro part hpart
  simp only [keySpaceParts, List.map_cons, List.map_nil, List.mem_cons, List.not_mem_nil,
    or_false] at hpart
  rcases hpart with rfl | rfl | rfl | rfl | rfl
  · exact bar_not_mem_name _
  · exact bar_not_mem_printedDtype _
  · exact bar_not_mem_toString _
  · exact bar_not_mem_toString _
  · exact bar_not_mem_toString _

theorem keySpaceOf_inj {config config' : VllmConfig} :
    keySpaceOf config = keySpaceOf config' ↔ SameKeySpace config config' := by
  have hlist : ∀ config : VllmConfig, (keySpaceOf config).toList =
      separated '|' config.modelConfig.model.toList
        ((keySpaceParts config).map String.toList) := by
    intro config
    unfold keySpaceOf
    rw [String.toList_intercalate, List.map_cons]
    exact intercalate_eq_separated _ _
  have hlength : ((keySpaceParts config).map String.toList).length =
      ((keySpaceParts config').map String.toList).length := rfl
  rw [← String.toList_inj, hlist, hlist, separated_inj hlength (bar_not_mem_keySpaceParts config)
    (bar_not_mem_keySpaceParts config'), String.toList_inj,
    List.map_inj_right fun _ _ h => String.toList_inj.mp h]
  unfold keySpaceParts
  simp only [List.cons.injEq, and_true]
  constructor
  · rintro ⟨hmodel, hdtype, hcache, hblock, htp, hpp⟩
    exact ⟨hmodel, Dtype.name_injective hdtype, printedDtype_injective hcache,
      toString_nat_injective hblock, toString_nat_injective htp, toString_nat_injective hpp⟩
  · intro h
    rw [h.model, h.dtype, h.cacheDtype, h.blockSize, h.tensorParallelSize, h.pipelineParallelSize]
    simp

omit [DecidableEq H] in
/-- With digests of one width, the bytes of two keys are equal just when the pairs
are. -/
theorem key_inj {connector connector' : SimSharedStoreConnector H} {digest : H → ByteArray}
    {width : ℕ} (hinjective : Function.Injective digest) (hwidth : ∀ h, (digest h).size = width)
    {x y : H} : connector.key digest x = connector'.key digest y ↔
      connector.storeKey x = connector'.storeKey y := by
  unfold storeKey
  rw [Prod.mk.injEq]
  constructor
  · intro h
    have hsize := congrArg ByteArray.size h
    unfold key at h hsize
    simp only [ByteArray.size_append, hwidth, Nat.add_right_cancel_iff] at hsize
    have hspace := ByteArray.append_inj_left h (by simpa using hsize)
    rw [hspace, ByteArray.append_right_inj] at h
    rw [ByteArray.append_left_inj] at hspace
    exact ⟨String.toByteArray_inj.mp hspace, hinjective h⟩
  · rintro ⟨hspace, rfl⟩
    unfold key
    rw [hspace]

end SimSharedStoreConnector

end Pvllm
