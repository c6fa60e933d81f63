import Pvllm.KVTransfer.Namespace
import Pvllm.Core.Sched.Loads
import Pvllm.Core.Sched.Rows

/-!
Two engines on one store.

An engine is a configuration, the connector built from it, and a run of a scheduler
with both. A key of the one is a key of the other just when the configurations have
one name space and one seed, and the requests have blocks of one content at one
index. The name space holds the model by the name it was given under, so that two
engines of one name and of different cards share their keys.
-/

namespace Pvllm

open Config

variable {H : Type} [DecidableEq H]

/-- A state that an engine of a configuration reaches, on some store. The worker of
the engine found the card it simulates. -/
def Deployed (load : String → Except PyError ModelCard) (hashFn : HashInput H → H)
    (config : VllmConfig) (s : Scheduler H) : Prop :=
  (∃ args, VllmConfig.init load args = .ok config) ∧
    (∃ card, load config.resolvedCard = .ok card) ∧
    ∃ (store : SimKVStore H) (connector : SimSharedStoreConnector H) (blockBytes : ℕ)
      (kvCacheConfig : KVCacheConfig) (s₀ : Scheduler H) (events : List Event),
      SimSharedStoreConnector.init load config store = .ok connector ∧
        kvCacheConfig.blockSize = config.cacheConfig.blockSize ∧
        Scheduler.init config.forScheduler kvCacheConfig config.cacheConfig.enablePrefixCaching
          hashFn config.seed (some (connector.setBlockBytes blockBytes)) = .ok s₀ ∧
        Run Scheduler.Step s₀ events s

/-- Two blocks computed by the same model in the same layout, from the same input. -/
structure SameOrigin (load : String → Except PyError ModelCard) (config config' : VllmConfig)
    (i j : ℕ) (a b : Request H) : Prop where
  card : load config.resolvedCard = load config'.resolvedCard
  dtype : config.modelConfig.resolvedDtype = config'.modelConfig.resolvedDtype
  cacheDtype : config.cacheConfig.resolvedCacheDtype = config'.cacheConfig.resolvedCacheDtype
  blockSize : config.cacheConfig.blockSize = config'.cacheConfig.blockSize
  tensorParallelSize :
    config.parallelConfig.tensorParallelSize = config'.parallelConfig.tensorParallelSize
  pipelineParallelSize :
    config.parallelConfig.pipelineParallelSize = config'.parallelConfig.pipelineParallelSize
  index : i = j
  agree : a.AgreeTo config.cacheConfig.blockSize i b

/-- Two blocks of one key that should have two: the cards behind the one name differ,
or the hasher confuses the requests. -/
structure Mistaken (load : String → Except PyError ModelCard) (config config' : VllmConfig)
    (i j : ℕ) (a b : Request H) : Prop where
  space : SimSharedStoreConnector.SameKeySpace config config'
  seed : config.seed = config'.seed
  index : i = j
  blocks : a.AgreeTo config.cacheConfig.blockSize i b ∨
    a.Confused config.cacheConfig.blockSize i b
  differs : load config.resolvedCard ≠ load config'.resolvedCard ∨
    a.Confused config.cacheConfig.blockSize i b

namespace Deployed

variable {load : String → Except PyError ModelCard} {hashFn : HashInput H → H}
  {config config' : VllmConfig} {s s' : Scheduler H}

theorem keySpace_eq (h : Deployed load hashFn config s) {connector : SimSharedStoreConnector H}
    (hconnector : s.connector = some connector) :
    connector.keySpace = SimSharedStoreConnector.keySpaceOf config := by
  obtain ⟨-, -, store, asked, blockBytes, kvCacheConfig, s₀, events, hasked, -, hinit, hrun⟩ := h
  obtain ⟨-, hspace, -, hnone⟩ := SimSharedStoreConnector.init_ok hasked
  have hstart := Scheduler.init_connector hinit
  have hrests := Scheduler.run_rests hrun (by
    rw [hstart]
    intro loads hloads
    rw [← Option.some.inj hloads]
    exact hnone)
  have hsame := hrests.same
  rw [hstart, hconnector] at hsame
  rw [← hspace]
  exact congrArg (fun setup => setup.2.1) (Option.some.inj hsame)

/-- The hashes of its known requests are chains, over blocks of its size. -/
theorem hashed (h : Deployed load hashFn config s) : ∃ hasher : BlockHasher H,
    hasher.hashFn = hashFn ∧ hasher.seed = config.seed ∧
      hasher.blockSize = config.cacheConfig.blockSize ∧
      ∀ r ∈ s.requests, (s.request r).Hashed hasher := by
  obtain ⟨-, -, store, asked, blockBytes, kvCacheConfig, s₀, events, hasked, hsize, hinit, hrun⟩ :=
    h
  obtain ⟨hcaching, -⟩ := SimSharedStoreConnector.init_ok hasked
  rw [hcaching] at hinit
  obtain ⟨hsettled, hstart, -⟩ := Scheduler.init_settled hinit
  exact ⟨_, rfl, rfl, hsize, Scheduler.run_hashed hrun hsettled hstart
    (Scheduler.init_blockHasher hinit)⟩

end Deployed

namespace Scheduler

variable {load : String → Except PyError ModelCard} {hashFn : HashInput H → H}
  {config config' : VllmConfig} {s s' : Scheduler H}

theorem storeKey_eq_iff (hinjective : Function.Injective hashFn)
    (h : Deployed load hashFn config s) (h' : Deployed load hashFn config' s')
    {connector connector' : SimSharedStoreConnector H} (hconnector : s.connector = some connector)
    (hconnector' : s'.connector = some connector') {a b : RequestId} (ha : a ∈ s.requests)
    (hb : b ∈ s'.requests) {i j : ℕ} {x y : H} (hi : (s.request a).blockHashes[i]? = some x)
    (hj : (s'.request b).blockHashes[j]? = some y) :
    connector.storeKey x = connector'.storeKey y ↔
      SimSharedStoreConnector.SameKeySpace config config' ∧ config.seed = config'.seed ∧ i = j ∧
        ((s.request a).AgreeTo config.cacheConfig.blockSize i (s'.request b) ∨
          (s.request a).Confused config.cacheConfig.blockSize i (s'.request b)) := by
  obtain ⟨hasher, hfn, hseed, hsize, hhashed⟩ := h.hashed
  obtain ⟨hasher', hfn', hseed', hsize', hhashed'⟩ := h'.hashed
  have hsame : hasher'.hashFn = hasher.hashFn := by rw [hfn, hfn']
  have hinj : Function.Injective hasher.hashFn := by rwa [hfn]
  obtain ⟨hlt, -⟩ := List.getElem?_eq_some_iff.mp hi
  obtain ⟨hlt', -⟩ := List.getElem?_eq_some_iff.mp hj
  have hhashes := Request.blockHashes_inj hsame hinj (hhashed a ha) (hhashed' b hb) hlt hlt'
  rw [hi, hj, Option.some.injEq, hseed, hseed', hsize, hsize'] at hhashes
  unfold SimSharedStoreConnector.storeKey
  rw [Prod.mk.injEq, h.keySpace_eq hconnector, h'.keySpace_eq hconnector',
    SimSharedStoreConnector.keySpaceOf_inj, hhashes]
  refine and_congr_right fun hspace => and_congr_right fun _ => and_congr_right fun _ => ?_
  rw [← hspace.blockSize]
  exact Request.blockContents_agree_iff config.cacheConfig.blockSize_pos

/-- With a hash without collisions: one key says that the two blocks are of one
origin, if and only if neither the name nor the hasher mistakes the one for the
other. -/
theorem keys_isolated_iff (hinjective : Function.Injective hashFn)
    (h : Deployed load hashFn config s) (h' : Deployed load hashFn config' s')
    {connector connector' : SimSharedStoreConnector H} (hconnector : s.connector = some connector)
    (hconnector' : s'.connector = some connector') {a b : RequestId} (ha : a ∈ s.requests)
    (hb : b ∈ s'.requests) {i j : ℕ} {x y : H} (hi : (s.request a).blockHashes[i]? = some x)
    (hj : (s'.request b).blockHashes[j]? = some y) :
    (connector.storeKey x = connector'.storeKey y →
        SameOrigin load config config' i j (s.request a) (s'.request b)) ↔
      ¬ Mistaken load config config' i j (s.request a) (s'.request b) := by
  rw [storeKey_eq_iff hinjective h h' hconnector hconnector' ha hb hi hj]
  constructor
  · intro horigin hmistaken
    have hsame := horigin
      ⟨hmistaken.space, hmistaken.seed, hmistaken.index, hmistaken.blocks⟩
    rcases hmistaken.differs with hcards | hconfused
    · exact hcards hsame.card
    · exact hsame.agree.not_confused hconfused
  · rintro hnot ⟨hspace, hseed, hindex, hblocks⟩
    have hclear : ¬ (load config.resolvedCard ≠ load config'.resolvedCard ∨
        (s.request a).Confused config.cacheConfig.blockSize i (s'.request b)) :=
      fun hdiffers => hnot ⟨hspace, hseed, hindex, hblocks, hdiffers⟩
    rw [not_or, not_not] at hclear
    exact {
      card := hclear.1
      dtype := hspace.dtype
      cacheDtype := hspace.cacheDtype
      blockSize := hspace.blockSize
      tensorParallelSize := hspace.tensorParallelSize
      pipelineParallelSize := hspace.pipelineParallelSize
      index := hindex
      agree := hblocks.resolve_right hclear.2 }

/-! ### Two engines of one name -/

def dense8b : ModelCard where
  name := "dense-8b"
  numHiddenLayers := 32
  hiddenSize := 4096
  numAttentionHeads := 32
  numKeyValueHeads := 8
  headDim := 128
  intermediateSize := 14336
  vocabSize := 128256
  maxPositionEmbeddings := 131072
  latent := rfl

def dense06b : ModelCard where
  name := "dense-0.6b"
  numHiddenLayers := 28
  hiddenSize := 1024
  numAttentionHeads := 16
  numKeyValueHeads := 8
  headDim := 128
  intermediateSize := 3072
  vocabSize := 151936
  maxPositionEmbeddings := 40960
  architecture := "Qwen3ForCausalLM"
  tieWordEmbeddings := true
  latent := rfl

def bundled (name : String) : Except PyError ModelCard :=
  if name = "dense-8b" then .ok dense8b
  else if name = "dense-0.6b" then .ok dense06b
  else .error (.fileNotFoundError s!"no model card for {quoted name}.")

/-- An engine for the larger model, with a card of its own or none, and blocks of two
tokens. -/
def storeArgs (modelCard : Option String) : Except PyError VllmConfigArgs := do
  let modelConfig ← ModelConfig.init bundled "dense-8b" modelCard "auto" (some 32)
  let cacheConfig ← CacheConfig.init 2 "auto" none true
  let parallelConfig ← ParallelConfig.init 1 1 1
  let schedulerConfig ← { maxModelLen := 32 : SchedulerConfigArgs }.postInit
  let kvTransferConfig ← KVTransferConfig.init (some "SimSharedStoreConnector") none
  return ⟨modelConfig, cacheConfig, parallelConfig, some schedulerConfig, modelCard, 0, none, none,
    some kvTransferConfig, true⟩

def storePrompt : RequestArgs := .text 1 [1, 2, 3, 4, 5] 1

def storeRun (modelCard : Option String) (store : SimKVStore Digest) : Except PyError
    (VllmConfig × SchedulerOutput × Scheduler Digest × Scheduler Digest) := do
  let args ← storeArgs modelCard
  let config ← VllmConfig.init bundled args
  let connector ← SimSharedStoreConnector.init bundled config store
  let s₀ ← init config.forScheduler (shortKVConfig 8) config.cacheConfig.enablePrefixCaching
    Digest.hash config.seed (some (connector.setBlockBytes 1))
  let request ← Request.init storePrompt
  let (output, s₁) ← (s₀.addRequest request).schedule
  let (_, s₂) ← s₁.updateFromOutput output (rowAnswer [7])
  return (config, output, s₁, s₂)

theorem storeRun_deployed {modelCard : Option String} {store : SimKVStore Digest}
    {config : VllmConfig} {output : SchedulerOutput} {s₁ s₂ : Scheduler Digest} {card : ModelCard}
    (h : storeRun modelCard store = .ok (config, output, s₁, s₂))
    (hcard : bundled config.resolvedCard = .ok card)
    (hsize : (shortKVConfig 8).blockSize = config.cacheConfig.blockSize) :
    Deployed bundled Digest.hash config s₁ ∧ Deployed bundled Digest.hash config s₂ ∧
      ∃ s : Scheduler Digest, s.schedule = .ok (output, s₁) := by
  unfold storeRun at h
  obtain ⟨args, -, h⟩ := except_bind_iff.mp h
  obtain ⟨_, hconfig, h⟩ := except_bind_iff.mp h
  obtain ⟨connector, hconnector, h⟩ := except_bind_iff.mp h
  obtain ⟨s₀, hinit, h⟩ := except_bind_iff.mp h
  obtain ⟨request, hrequest, h⟩ := except_bind_iff.mp h
  obtain ⟨⟨_, _⟩, hschedule, h⟩ := except_bind_iff.mp h
  obtain ⟨⟨_, _⟩, hupdate, h⟩ := except_bind_iff.mp h
  cases h
  have hfresh : storePrompt.requestId ∉ s₀.requests := by
    unfold init at hinit
    split at hinit
    · cases hinit
    split at hinit
    · cases hinit
    rw [← Except.ok.inj hinit]
    exact List.not_mem_nil
  have hrun := (Run.nil.snoc (Step.addRequest hrequest hfresh)).snoc (Step.schedule hschedule)
  exact ⟨⟨⟨args, hconfig⟩, ⟨card, hcard⟩, store, connector, 1, _, s₀, _, hconnector, hsize, hinit,
      hrun⟩,
    ⟨⟨args, hconfig⟩, ⟨card, hcard⟩, store, connector, 1, _, s₀, _, hconnector, hsize, hinit,
      hrun.snoc (Step.updateFromOutput hupdate)⟩, _, hschedule⟩

def heldStore (s : Scheduler Digest) : SimKVStore Digest :=
  (s.connector.map (·.store)).getD ⟨none, [], 0, 0⟩

def twoEngines (modelCard : Option String) : Except PyError
    ((VllmConfig × SchedulerOutput × Scheduler Digest × Scheduler Digest) ×
      VllmConfig × SchedulerOutput × Scheduler Digest × Scheduler Digest) := do
  let first ← storeRun none ⟨none, [], 0, 0⟩
  let second ← storeRun modelCard (heldStore first.2.2.2)
  return (first, second)

theorem bundled_dense8b : bundled "dense-8b" = .ok dense8b := rfl

theorem bundled_dense06b : bundled "dense-0.6b" = .ok dense06b := rfl

theorem dense8b_ne : (.ok dense8b : Except PyError ModelCard) ≠ .ok dense06b := by
  intro h
  have hname := congrArg ModelCard.name (Except.ok.inj h)
  exact absurd hname (by decide)

def storeDigest : Digest := .block (.noneHash 0) [1, 2] none

/-- The second engine takes up the prompt of the first, which has written the first
block of it. -/
structure Handover (card : ModelCard) (config config' : VllmConfig) (s s' : Scheduler Digest)
    (connector connector' : SimSharedStoreConnector Digest) : Prop where
  deployed : Deployed bundled Digest.hash config s
  deployed' : Deployed bundled Digest.hash config' s'
  connector_eq : s.connector = some connector
  connector_eq' : s'.connector = some connector'
  mem : 1 ∈ s.requests
  mem' : 1 ∈ s'.requests
  hash : (s.request 1).blockHashes[0]? = some storeDigest
  hash' : (s'.request 1).blockHashes[0]? = some storeDigest
  key : connector.storeKey storeDigest = connector'.storeKey storeDigest
  card_eq : bundled config.resolvedCard = .ok dense8b
  card_eq' : bundled config'.resolvedCard = .ok card
  salt : (s.request 1).cacheSalt = (s'.request 1).cacheSalt
  adapter : (s.request 1).adapter = (s'.request 1).adapter
  written : ∃ (s₂ : Scheduler Digest) (connector₂ : SimSharedStoreConnector Digest),
    Deployed bundled Digest.hash config s₂ ∧ s₂.connector = some connector₂ ∧
      connector₂.storeKey storeDigest ∈ connector₂.store.resident
  loaded : ∃ (s₀ : Scheduler Digest) (output : SchedulerOutput),
    s₀.schedule = .ok (output, s') ∧ output.loadOf 1 = some ([0], 2)

def handedOver (modelCard : Option String) (name : String) : Bool :=
  okAnd (twoEngines modelCard) fun ((config, _, s, s₂), config', output', s', _) =>
    decide (config.resolvedCard = "dense-8b" ∧ config'.resolvedCard = name) &&
    decide ((shortKVConfig 8).blockSize = config.cacheConfig.blockSize ∧
      (shortKVConfig 8).blockSize = config'.cacheConfig.blockSize) &&
    decide (1 ∈ s.requests ∧ 1 ∈ s'.requests) &&
    decide ((s.request 1).blockHashes[0]? = some storeDigest ∧
      (s'.request 1).blockHashes[0]? = some storeDigest) &&
    decide (s.connector.isSome = true ∧ s₂.connector.isSome = true ∧ s'.connector.isSome = true) &&
    decide (s.connector.map (·.storeKey storeDigest) = s'.connector.map (·.storeKey storeDigest)) &&
    decide (s₂.connector.all fun connector =>
      decide (connector.storeKey storeDigest ∈ connector.store.resident)) &&
    decide (output'.loadOf 1 = some ([0], 2)) &&
    decide ((s.request 1).cacheSalt = (s'.request 1).cacheSalt ∧
      (s.request 1).adapter = (s'.request 1).adapter)

theorem exists_handover (modelCard : Option String) {name : String} {card : ModelCard}
    (hcard : bundled name = .ok card) (h : handedOver modelCard name = true) :
    ∃ config config' s s' connector connector',
      Handover card config config' s s' connector connector' := by
  obtain ⟨⟨⟨config, output, s, s₂⟩, config', output', s', s₂'⟩, hrun, hcheck⟩ := exists_of_okAnd h
  unfold twoEngines at hrun
  obtain ⟨first, hfirst, hrun⟩ := except_bind_iff.mp hrun
  obtain ⟨second, hsecond, hrun⟩ := except_bind_iff.mp hrun
  cases hrun
  simp only [Bool.and_eq_true, decide_eq_true_eq] at hcheck
  obtain ⟨⟨⟨⟨⟨⟨⟨⟨⟨hname, hname'⟩, hsize, hsize'⟩, hmem, hmem'⟩, hhash, hhash'⟩, hsome, hsome₂,
    hsome'⟩, hkey⟩, hheld⟩, hload⟩, hsalt, hadapter⟩ := hcheck
  obtain ⟨connector, hconnector⟩ := Option.isSome_iff_exists.mp hsome
  obtain ⟨connector₂, hconnector₂⟩ := Option.isSome_iff_exists.mp hsome₂
  obtain ⟨connector', hconnector'⟩ := Option.isSome_iff_exists.mp hsome'
  have hcard₀ : bundled config.resolvedCard = .ok dense8b := by
    rw [hname, bundled_dense8b]
  have hcard' : bundled config'.resolvedCard = .ok card := by
    rw [hname', hcard]
  obtain ⟨hdeployed, hdeployed₂, -⟩ := storeRun_deployed hfirst hcard₀ hsize
  obtain ⟨hdeployed', -, s₀, hschedule⟩ := storeRun_deployed hsecond hcard' hsize'
  rw [hconnector, hconnector', Option.map_some, Option.map_some, Option.some.injEq] at hkey
  rw [hconnector₂, Option.all_some, decide_eq_true_eq] at hheld
  exact ⟨config, config', s, s', connector, connector', hdeployed, hdeployed', hconnector,
    hconnector', hmem, hmem', hhash, hhash', hkey, hcard₀, hcard', hsalt, hadapter,
    ⟨s₂, connector₂, hdeployed₂, hconnector₂, hheld⟩, s₀, output', hschedule, hload⟩

/-- Two engines of one card: the second one loads what the first one computed, and
the two blocks are of one origin. -/
theorem keys_isolated_same : ∃ (config config' : VllmConfig) (s s' : Scheduler Digest)
    (connector connector' : SimSharedStoreConnector Digest),
    Handover dense8b config config' s s' connector connector' ∧
      SameOrigin bundled config config' 0 0 (s.request 1) (s'.request 1) := by
  obtain ⟨config, config', s, s', connector, connector', h⟩ :=
    exists_handover none bundled_dense8b (by decide +kernel)
  refine ⟨config, config', s, s', connector, connector', h, ?_⟩
  refine (keys_isolated_iff Digest.hash_injective h.deployed h.deployed' h.connector_eq
    h.connector_eq' h.mem h.mem' h.hash h.hash').mpr ?_ h.key
  intro hmistaken
  rcases hmistaken.differs with hcards | ⟨-, -, ⟨-, hsalt, -⟩ | ⟨-, -, hpasses | hpasses⟩⟩
  · exact hcards (by rw [h.card_eq, h.card_eq'])
  · exact hsalt h.salt
  · exact hpasses.ne h.adapter
  · exact hpasses.ne h.adapter.symm

/-- Two engines of one name, the second one with a card of its own: it loads the block
that the first one computed with another model. -/
theorem keys_mistaken : ∃ (config config' : VllmConfig) (s s' : Scheduler Digest)
    (connector connector' : SimSharedStoreConnector Digest),
    Handover dense06b config config' s s' connector connector' ∧
      ¬ SameOrigin bundled config config' 0 0 (s.request 1) (s'.request 1) := by
  obtain ⟨config, config', s, s', connector, connector', h⟩ :=
    exists_handover (some "dense-0.6b") bundled_dense06b (by decide +kernel)
  refine ⟨config, config', s, s', connector, connector', h, fun hsame => dense8b_ne ?_⟩
  rw [← h.card_eq, ← h.card_eq', hsame.card]

end Scheduler

end Pvllm
