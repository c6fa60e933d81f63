import Pvllm.KVTransfer.Lookup
import Pvllm.Core.Adoption
import Pvllm.Core.Sched.Hashes

/-!
What the connector is told to load, over runs of the scheduler.

`Admits` is one admission of a call of `schedule`: the point of the loops at which
the head of the queue is to be given slots, with its local and its external hit, and
the step that puts it in the batch. The connector notes the blocks to fill at that
step, from the count the request carries. That count is brought up to the hits only
afterwards, so it is still zero, and the blocks named are the first ones of the
table, whatever the local hit.
-/

namespace Pvllm

variable {H : Type} [DecidableEq H]

/-! ### What stays of a connector -/

namespace SimSharedStoreConnector

variable (connector : SimSharedStoreConnector H) (request : Request H)

theorem getNumNewMatchedTokens_setup (n : ℕ) :
    (connector.getNumNewMatchedTokens request n).2.setup = connector.setup := by
  obtain ⟨lookups, hits, heq⟩ := connector.getNumNewMatchedTokens_frame request n
  rw [heq]
  rfl

omit [DecidableEq H] in
theorem updateStateAfterAlloc_frame (blocks : List (List BlockId)) (n : ℕ) :
    ∃ loads, connector.updateStateAfterAlloc request blocks n =
      { connector with pendingLoads := loads } := by
  unfold updateStateAfterAlloc
  split
  · exact ⟨_, rfl⟩
  · exact ⟨_, rfl⟩

omit [DecidableEq H] in
theorem updateStateAfterAlloc_pendingLoads (blocks : List (List BlockId)) {n : ℕ} (hn : n ≠ 0) :
    (connector.updateStateAfterAlloc request blocks n).pendingLoads =
      connector.pendingLoads.store request.requestId
        (((blocks.headD []).drop (request.numComputedTokens / connector.blockSize)).take
          (n / connector.blockSize), n) := by
  unfold updateStateAfterAlloc
  rw [if_neg hn]

theorem requestFinished_frame :
    ∃ store, connector.requestFinished request = { connector with store := store } := by
  unfold requestFinished
  split
  · exact ⟨_, rfl⟩
  · dsimp only
    split
    · exact ⟨_, rfl⟩
    · exact ⟨_, rfl⟩

end SimSharedStoreConnector

/-- Two connectors that are built alike. -/
def SameConnector (connector connector' : Option (SimSharedStoreConnector H)) : Prop :=
  connector'.map (·.setup) = connector.map (·.setup)

def pendingLoads (connector : Option (SimSharedStoreConnector H)) :
    Option (Dict RequestId (List BlockId × ℕ)) :=
  connector.map (·.pendingLoads)

omit [DecidableEq H] in
theorem pendingLoads_admitted (connector : Option (SimSharedStoreConnector H))
    (request : Request H) (blocks : List (List BlockId)) (numExternal : ℕ) (r : RequestId) :
    (pendingLoads (if numExternal = 0 then connector
        else connector.map (·.updateStateAfterAlloc request blocks numExternal))).map (·.find r) =
      connector.map fun connector =>
        if numExternal ≠ 0 ∧ r = request.requestId then
          some (((blocks.headD []).drop (request.numComputedTokens / connector.blockSize)).take
            (numExternal / connector.blockSize), numExternal)
        else connector.pendingLoads.find r := by
  unfold pendingLoads
  by_cases hzero : numExternal = 0
  · simp [hzero, Function.comp_def]
  · rw [if_neg hzero, Option.map_map, Option.map_map]
    congr 1
    funext asked
    simp [hzero, asked.updateStateAfterAlloc_pendingLoads request blocks hzero, Dict.find_store]

namespace StepState

variable {l l' : StepState H} {connector connector' : Option (SimSharedStoreConnector H)}

theorem Asked.sameConnector (h : Asked connector connector') :
    SameConnector connector connector' := by
  unfold SameConnector
  rcases h with rfl | ⟨asked, request, n, rfl, rfl⟩
  · rfl
  · rw [Option.map_some, Option.map_some, asked.getNumNewMatchedTokens_setup]

theorem Asked.pendingLoads_eq (h : Asked connector connector') :
    pendingLoads connector' = pendingLoads connector := by
  unfold pendingLoads
  rcases h with rfl | ⟨asked, request, n, rfl, rfl⟩
  · rfl
  · obtain ⟨lookups, hits, heq⟩ := asked.getNumNewMatchedTokens_frame request n
    rw [Option.map_some, Option.map_some, heq]

theorem Outcome.sameConnector (h : Outcome l l') :
    SameConnector l.scheduler.connector l'.scheduler.connector := by
  have hsame : SameConnector l.scheduler.connector l.scheduler.connector := rfl
  cases h with
  | rest hphase => exact hsame
  | enter hphase => exact hsame
  | pass hphase hr =>
      rw [disableSpeculation_frame]
      exact hsame
  | takeUp hphase hr hn hbudget hspec hlen =>
      rw [disableSpeculation_frame]
      exact hsame
  | commit hphase hok =>
      rw [commitRunning_request]
      exact hsame
  | preempt hphase hok hvictim hstatus hfree hbatch hinputs => exact hsame
  | close hphase hs =>
      rcases hs with rfl | ⟨r, hs⟩
      · exact hsame
      · exact hs.connector.sameConnector
  | setAside hphase hs hfree hpop => exact hs.connector.sameConnector
  | lookUp hphase hs hpreempted hhits hexternal hrunning hn hbudget hlen =>
      exact hs.connector.sameConnector
  | decline hphase hok => exact hsame
  | @accept r r' hits blocks numLocal numExternal n inputs kv waiting connector loras hphase hok
      hpop hstatus hconnector =>
      subst hconnector
      unfold SameConnector
      dsimp only
      split
      · rfl
      · rw [Option.map_map]
        congr 1
        funext asked
        obtain ⟨loads, heq⟩ := asked.updateStateAfterAlloc_frame (l.scheduler.request r')
          (kv.getBlocks r') numExternal
        show (asked.updateStateAfterAlloc ..).setup = asked.setup
        rw [heq]
        rfl

theorem Loops.sameConnector (hloops : Loops l l') :
    SameConnector l.scheduler.connector l'.scheduler.connector :=
  hloops.invariant (P := fun l' => SameConnector l.scheduler.connector l'.scheduler.connector)
    rfl fun _ _ hstep h => hstep.sameConnector.trans h

/-! ### A request that is in -/

/-- What a call has fixed for a request it admitted: its tables, and what is noted to
be loaded for it. -/
structure Fixed (r : RequestId) (blocks : List (List BlockId))
    (load : Option (Option (List BlockId × ℕ))) (l : StepState H) : Prop where
  batch : Batch l
  ahead : l.phase.overWaiting = true ∨ l.phase = .finished
  running : r ∈ l.scheduler.running
  blocks_eq : l.scheduler.kvCacheManager.getBlocks r = blocks
  load_eq : (pendingLoads l.scheduler.connector).map (·.find r) = load

variable {r : RequestId} {blocks : List (List BlockId)}
  {load : Option (Option (List BlockId × ℕ))}

theorem Prepared.getBlocks {s s' : Scheduler H} {r' : RequestId} (h : Prepared s s' r')
    (horder : ∃ free, s.kvCacheManager.InOrder free) (r : RequestId) :
    s'.kvCacheManager.getBlocks r = s.kvCacheManager.getBlocks r := by
  obtain ⟨free, horder⟩ := horder
  rcases h.lookup with heq | ⟨result, hok⟩
  · rw [heq]
  · exact KVCacheManager.getComputedBlocks_getBlocks horder hok r

/-- The head of the queue is not running. -/
theorem Batch.ne_head (hb : Batch l) {r' : RequestId}
    (hhead : l.scheduler.waiting.items.head? = some r') (hr : r ∈ l.scheduler.running) :
    r ≠ r' := by
  rintro rfl
  exact hb.partition.not_running_of_waiting
    (List.mem_append_left _ (List.mem_of_mem_head? hhead)) hr

theorem Outcome.fixed (h : Outcome l l') (hf : Fixed r blocks load l) :
    Fixed r blocks load l' := by
  have hb := hf.batch
  have hb' := h.batch hb
  have horder := hb.partition.order
  have hprepared : ∀ {s : Scheduler H} {r'}, Prepared l.scheduler s r' →
      r ∈ s.running ∧ s.kvCacheManager.getBlocks r = blocks ∧
        (pendingLoads s.connector).map (·.find r) = load := by
    intro s r' hs
    refine ⟨hs.running_eq ▸ hf.running, ?_, ?_⟩
    · rw [hs.getBlocks horder, hf.blocks_eq]
    · rw [hs.connector.pendingLoads_eq, hf.load_eq]
  -- in the first loop nobody is admitted yet
  have hfirst : ∀ {phase : Phase}, l.phase = phase → phase.overWaiting = false →
      phase ≠ .finished → Fixed r blocks load l' := by
    intro phase hphase hover hfinished
    rcases hf.ahead with hwaiting | hdone
    · rw [hphase, hover] at hwaiting
      cases hwaiting
    · exact absurd (hphase.symm.trans hdone) hfinished
  cases h with
  | rest hphase => exact hf
  | enter hphase => exact hfirst hphase rfl nofun
  | pass hphase hr => exact hfirst hphase rfl nofun
  | takeUp hphase hr hn hbudget hspec hlen => exact hfirst hphase rfl nofun
  | commit hphase hok => exact hfirst hphase rfl nofun
  | preempt hphase hok hvictim hstatus hfree hbatch hinputs => exact hfirst hphase rfl nofun
  | close hphase hs =>
      rcases hs with rfl | ⟨r', hs⟩
      · exact ⟨hb', Or.inr rfl, hf.running, hf.blocks_eq, hf.load_eq⟩
      · obtain ⟨hrunning, hblocks, hload⟩ := hprepared hs
        exact ⟨hb', Or.inr rfl, hrunning, hblocks, hload⟩
  | setAside hphase hs hfree hpop =>
      obtain ⟨hrunning, hblocks, hload⟩ := hprepared hs
      refine ⟨hb', Or.inl rfl, hrunning, ?_, hload⟩
      rcases hfree with rfl | hfree
      · exact hblocks
      · obtain ⟨free, horder'⟩ := (hs.continues horder).order
        exact (KVCacheManager.free_getBlocks_of_ne horder' hfree
          (hb.ne_head hs.head hf.running)).trans hblocks
  | lookUp hphase hs hpreempted hhits hexternal hr hn hbudget hlen =>
      obtain ⟨hrunning, hblocks, hload⟩ := hprepared hs
      exact ⟨hb', Or.inl rfl, hrunning, hblocks, hload⟩
  | decline hphase hok => exact ⟨hb', Or.inr rfl, hf.running, hf.blocks_eq, hf.load_eq⟩
  | @accept r₁ r' hits blocks' numLocal numExternal n inputs kv waiting connector loras hphase hok
      hpop hstatus hconnector =>
      obtain ⟨-, hhead, hhits⟩ := hb.admitting _ _ _ _ _ _ hphase
      obtain rfl := RequestQueue.head_of_pop hhead hpop
      have hne := hb.ne_head hhead hf.running
      obtain ⟨-, hother⟩ := allocateSlots_others horder
        (fun _ heq => Option.some.inj heq ▸ hhits) hok
      rw [hb.partition.requestId] at hother
      refine ⟨hb', Or.inl rfl, List.mem_append_left _ hf.running, ?_, ?_⟩
      · exact (hother r hne).trans hf.blocks_eq
      · subst hconnector
        rw [← hf.load_eq]
        show (pendingLoads (if numExternal = 0 then _ else _)).map _ = _
        rw [pendingLoads_admitted]
        unfold pendingLoads
        rw [Option.map_map, hb.partition.requestId]
        simp [hne, Function.comp_def]

theorem Loops.fixed (hloops : Loops l l') (hf : Fixed r blocks load l) : Fixed r blocks load l' :=
  hloops.invariant hf fun _ _ hstep hf => hstep.fixed hf

/-! ### The request that is looked up -/

/-- What the lookups rely on: the hashes of every request are those of its full
blocks, under a policy of the connector's block size. -/
structure Linked (hasher : BlockHasher H) (s : Scheduler H) : Prop where
  blockHasher : s.kvCacheManager.blockHasher = some hasher
  hashed : ∀ r ∈ s.requests, (s.request r).Hashed hasher
  blockSize : ∀ connector, s.connector = some connector → connector.blockSize = hasher.blockSize

/-- What the lookups found for the head of the queue, before its allocation. -/
structure Looked (l : StepState H) (r : RequestId) (hits : List (List BlockId))
    (numLocal numExternal : ℕ) : Prop where
  dvd : l.scheduler.kvCacheManager.kvCacheConfig.blockSize ∣ numLocal
  lt : numLocal + numExternal < (l.scheduler.request r).numTokens
  found : l.scheduler.kvCacheManager.FoundBlocks
    (numLocal / l.scheduler.kvCacheManager.kvCacheConfig.blockSize) hits
  finds : ∀ connector, l.scheduler.connector = some connector →
    connector.Finds (l.scheduler.request r) numLocal numExternal
  alone : l.scheduler.connector = none → numExternal = 0

variable {hasher : BlockHasher H}

omit [DecidableEq H] in
theorem Linked.blockSize_eq {s : Scheduler H} (h : Linked hasher s) :
    hasher.blockSize = s.kvCacheManager.kvCacheConfig.blockSize ∧
      s.kvCacheManager.enableCaching = true := by
  have hpolicy := h.blockHasher
  unfold KVCacheManager.blockHasher at hpolicy
  split at hpolicy
  · rename_i hcaching
    rw [← Option.some.inj hpolicy]
    exact ⟨rfl, hcaching⟩
  · cases hpolicy

omit [DecidableEq H] in
theorem blockSize_of_sameConnector (h : SameConnector connector connector')
    (hsize : ∀ c, connector = some c → c.blockSize = hasher.blockSize) :
    ∀ c, connector' = some c → c.blockSize = hasher.blockSize := by
  rintro c rfl
  unfold SameConnector at h
  rw [Option.map_some] at h
  obtain ⟨c₀, hc₀, hsetup⟩ := Option.map_eq_some_iff.mp h.symm
  rw [← hsize c₀ hc₀]
  exact congrArg Prod.fst hsetup.symm

theorem Loops.linked (hloops : Loops l l') (hb : Batch l) (h : Linked hasher l.scheduler) :
    Linked hasher l'.scheduler := by
  obtain ⟨-, hrequests, -⟩ := hloops.static
  refine ⟨?_, fun r hr => ?_, blockSize_of_sameConnector hloops.sameConnector h.blockSize⟩
  · rw [(hloops.continues hb).setup.blockHasher, h.blockHasher]
  · rw [hrequests] at hr
    exact (h.hashed r hr).reworks (hloops.reworks r)

theorem Asked.finds {request : Request H} {numLocal numExternal : ℕ}
    (h : Asked connector connector')
    (hfinds : ∀ c, connector = some c → c.Finds request numLocal numExternal) :
    ∀ c, connector' = some c → c.Finds request numLocal numExternal := by
  rcases h with rfl | ⟨asked, request', n, rfl, rfl⟩
  · exact hfinds
  · intro c hc
    obtain rfl := Option.some.inj hc
    obtain ⟨lookups, hits, heq⟩ := asked.getNumNewMatchedTokens_frame request' n
    have h := hfinds asked rfl
    rw [heq]
    exact ⟨h.dvd, h.held, h.left⟩

theorem Outcome.looked (h : Outcome l l') (hb : Batch l) (hlinked : Linked hasher l.scheduler)
    (hlinked' : Linked hasher l'.scheduler) {r : RequestId} {hits : List (List BlockId)}
    {numLocal numExternal n : ℕ} {inputs : List ℕ}
    (hphase' : l'.phase = .admitting r hits numLocal numExternal n inputs) :
    Looked l' r hits numLocal numExternal := by
  cases h with
  | rest hphase =>
      rw [hphase] at hphase'
      cases hphase'
  | enter hphase =>
      dsimp only at hphase'
      split at hphase' <;> cases hphase'
  | pass hphase hr =>
      dsimp only at hphase'
      rw [hphase] at hphase'
      cases hphase'
  | takeUp hphase hr hn hbudget hspec hlen => cases hphase'
  | commit hphase hok =>
      unfold commitRunning at hphase'
      cases hphase'
  | preempt hphase hok hvictim hstatus hfree hbatch hinputs =>
      dsimp only at hphase'
      split at hphase' <;> cases hphase'
  | close hphase hs => cases hphase'
  | setAside hphase hs hfree hpop => cases hphase'
  | decline hphase hok => cases hphase'
  | accept hphase hok hpop hstatus hconnector => cases hphase'
  | @lookUp s r' hits' numLocal' numExternal' n' inputs' budget hphase hs hpreempted hhits hexternal
      hrunning hn hbudget hlen =>
      -- only a lookup leads to an admission
      obtain ⟨rfl, rfl, rfl, rfl, -, -⟩ := Phase.admitting.inj hphase'
      obtain ⟨free, horder⟩ := hb.partition.order
      obtain ⟨hsetup, hpool, hmanagers, -⟩ := KVCacheManager.getComputedBlocks_ok horder hhits
      have hknown : r' ∈ s.requests := by
        rw [hs.frame]
        exact hb.partition.known_of_waiting
          (List.mem_append_left _ (List.mem_of_mem_head? hs.head))
      have hhashed := hlinked'.hashed r' hknown
      obtain ⟨hsize, -⟩ := hlinked.blockSize_eq
      have hcover : l.scheduler.kvCacheManager.enableCaching = true →
          (s.request r').numTokens / l.scheduler.kvCacheManager.kvCacheConfig.blockSize ≤
            (s.request r').blockHashes.length := fun _ => by
        rw [hhashed.length, hsize]
      obtain ⟨hits, k, m', hok, -, hdvd, hshaped⟩ :=
        KVCacheManager.getComputedBlocks_shaped horder hcover
      rw [hhits] at hok
      obtain ⟨⟨rfl, rfl⟩, rfl⟩ := Prod.mk.inj (Except.ok.inj hok) |>.imp Prod.mk.inj id
      refine ⟨?_, by dsimp only; omega, ?_, ?_, ?_⟩
      · rwa [hsetup.kvCacheConfig]
      · unfold KVCacheManager.FoundBlocks
        rwa [hsetup.kvCacheConfig, hpool, hmanagers]
      · refine hs.connector.finds fun c hc => ?_
        have hpos : 0 < c.blockSize := by
          rw [hlinked.blockSize c hc]
          exact hasher.blockSize_pos
        rw [hexternal, matchExternal, hc]
        exact c.getNumNewMatchedTokens_finds _ _ hpos
      · intro hnone
        have hnone' : l.scheduler.connector = none := by
          rcases hs.connector with heq | ⟨asked, request, n, -, heq⟩
          · rw [← heq]
            exact hnone
          · rw [heq] at hnone
            cases hnone
        rw [hexternal, matchExternal, hnone']

theorem Loops.looked {s : Scheduler H} (hpart : s.Partitioned) (hlinked : Linked hasher s)
    (hloops : Loops (start s) l) {r : RequestId} {hits : List (List BlockId)}
    {numLocal numExternal n : ℕ} {inputs : List ℕ}
    (hphase : l.phase = .admitting r hits numLocal numExternal n inputs) :
    Looked l r hits numLocal numExternal := by
  rcases Relation.ReflTransGen.cases_tail hloops with rfl | ⟨l₀, hbefore, hstep⟩
  · cases hphase
  · exact (advance_outcome hstep).looked (Loops.batch hpart hbefore)
      (Loops.linked hbefore (batch_start hpart) hlinked)
      (Loops.linked hloops (batch_start hpart) hlinked) hphase

/-! ### An admission -/

/-- In the loops from `s`, `r` came into the batch before `l`, with these hits. -/
def Entered (s : Scheduler H) (r : RequestId) (hits : List (List BlockId))
    (numLocal numExternal : ℕ) (connector : Option (SimSharedStoreConnector H))
    (l : StepState H) : Prop :=
  ∃ l₁ l₂ n inputs, Loops (start s) l₁ ∧
    l₁.phase = .admitting r hits numLocal numExternal n inputs ∧
    l₁.scheduler.connector = connector ∧ l₁.advance = .ok l₂ ∧ l₂.phase = .admission ∧ Loops l₂ l

theorem Entered.mono {s : Scheduler H} {r : RequestId} {hits : List (List BlockId)}
    {numLocal numExternal : ℕ} {connector : Option (SimSharedStoreConnector H)}
    (h : Entered s r hits numLocal numExternal connector l) (hloops : Loops l l') :
    Entered s r hits numLocal numExternal connector l' := by
  obtain ⟨l₁, l₂, n, inputs, hbefore, hphase, hconnector, hstep, hadmission, hafter⟩ := h
  exact ⟨l₁, l₂, n, inputs, hbefore, hphase, hconnector, hstep, hadmission, hafter.trans hloops⟩

theorem advance_accepted {r : RequestId} {hits : List (List BlockId)} {numLocal numExternal n : ℕ}
    {inputs : List ℕ} (hb : Batch l)
    (hphase : l.phase = .admitting r hits numLocal numExternal n inputs)
    (hstep : l.advance = .ok l') (hadmission : l'.phase = .admission) :
    ∃ blocks kv, l.scheduler.kvCacheManager.allocateSlots (l.scheduler.request r) n
        (numLocal + numExternal) (some hits) 0 false = .ok (some blocks, kv) ∧
      l'.scheduler.kvCacheManager = kv ∧ r ∈ l'.scheduler.running ∧
      l'.scheduler.connector = if numExternal = 0 then l.scheduler.connector
        else l.scheduler.connector.map
          (·.updateStateAfterAlloc (l.scheduler.request r) (kv.getBlocks r) numExternal) := by
  have hother : ∀ {phase : Phase}, l.phase = phase → (∀ r hits a b n inputs,
      phase ≠ .admitting r hits a b n inputs) → False := fun heq hne =>
    hne _ _ _ _ _ _ (heq.symm.trans hphase)
  cases advance_outcome hstep with
  | rest hphase' => exact (hother hphase' nofun).elim
  | enter hphase' => exact (hother hphase' nofun).elim
  | pass hphase' hr => exact (hother hphase' nofun).elim
  | takeUp hphase' hr hn hbudget hspec hlen => exact (hother hphase' nofun).elim
  | commit hphase' hok => exact (hother hphase' nofun).elim
  | preempt hphase' hok hvictim hstatus hfree hbatch hinputs => exact (hother hphase' nofun).elim
  | close hphase' hs => exact (hother hphase' nofun).elim
  | setAside hphase' hs hfree hpop => exact (hother hphase' nofun).elim
  | lookUp hphase' hs hpreempted hhits hexternal hr hn hbudget hlen =>
      exact (hother hphase' nofun).elim
  | decline hphase' hok => cases hadmission
  | @accept r₁ r' hits' blocks numLocal' numExternal' n' inputs' kv waiting connector loras hphase'
      hok hpop hstatus hconnector =>
      obtain ⟨rfl, rfl, rfl, rfl, rfl, -⟩ := Phase.admitting.inj (hphase'.symm.trans hphase)
      obtain ⟨-, hhead, -⟩ := hb.admitting _ _ _ _ _ _ hphase'
      obtain rfl := RequestQueue.head_of_pop hhead hpop
      exact ⟨blocks, kv, hok, rfl, List.mem_append_right _ (List.mem_singleton_self _), hconnector⟩

/-- Where an admission leaves its request: its tables are the hits, and behind them
blocks of which none is a hit; what is noted for it to load is taken from their
front. -/
theorem Entered.fixed {s : Scheduler H} (hpart : s.Partitioned) (hlinked : Linked hasher s)
    {r : RequestId} {hits : List (List BlockId)} {numLocal numExternal : ℕ}
    {connector : Option (SimSharedStoreConnector H)}
    (h : Entered s r hits numLocal numExternal connector l) :
    ∃ l₁ news, Loops (start s) l₁ ∧ Batch l₁ ∧ l₁.scheduler.connector = connector ∧
      l₁.scheduler.waiting.items.head? = some r ∧ Looked l₁ r hits numLocal numExternal ∧
      news.length = hits.length ∧ (∀ b ∈ hits.flatten, b ∉ news.flatten) ∧
      Fixed r (hits.zipWith (· ++ ·) news) (connector.map fun connector =>
        if numExternal ≠ 0 then
          some (((hits.zipWith (· ++ ·) news).headD []).take (numExternal / connector.blockSize),
            numExternal)
        else connector.pendingLoads.find r) l := by
  obtain ⟨l₁, l₂, n, inputs, hbefore, hphase, rfl, hstep, hadmission, hafter⟩ := h
  have hb := Loops.batch hpart hbefore
  have hlooked := hbefore.looked hpart hlinked hphase
  obtain ⟨-, hhead, hhits⟩ := hb.admitting _ _ _ _ _ _ hphase
  have hwaiting : r ∈ l₁.scheduler.queued :=
    List.mem_append_left _ (List.mem_of_mem_head? hhead)
  have hqueued := hb.partition.queued r hwaiting
  have hid := hb.partition.requestId r
  obtain ⟨blocks, kv, hok, hkv, hrunning, hconnector⟩ :=
    advance_accepted hb hphase hstep hadmission
  obtain ⟨free, horder⟩ := hb.partition.order
  have hidle : l₁.scheduler.kvCacheManager.Idle (l₁.scheduler.request r).requestId := by
    rw [hid]
    exact hb.partition.idle r (hb.partition.not_running_of_waiting hwaiting)
  obtain ⟨news, htable, hlength, hfresh⟩ :=
    KVCacheManager.allocateSlots_getBlocks horder hidle hhits hlooked.found hok
  rw [hid] at htable
  refine ⟨l₁, news, hbefore, hb, rfl, hhead, hlooked, hlength, hfresh, ?_⟩
  have hb₂ := Loops.batch hpart (hbefore.tail hstep)
  refine hafter.fixed ⟨hb₂, Or.inl (by rw [hadmission]; rfl), hrunning, ?_, ?_⟩
  · rw [hkv, htable]
  · rw [hconnector, pendingLoads_admitted, hid, htable, hqueued.numComputedTokens]
    simp

/-- A step notes nothing, unless it puts a request with an external hit in the
batch. -/
theorem Outcome.pendingLoads (h : Outcome l l') (hb : Batch l) :
    pendingLoads l'.scheduler.connector = pendingLoads l.scheduler.connector ∨
      ∃ r hits numLocal numExternal n inputs entry,
        l.phase = .admitting r hits numLocal numExternal n inputs ∧ l'.phase = .admission ∧
        numExternal ≠ 0 ∧ pendingLoads l'.scheduler.connector =
          (pendingLoads l.scheduler.connector).map (·.store r entry) := by
  cases h with
  | rest hphase => exact Or.inl rfl
  | enter hphase => exact Or.inl rfl
  | pass hphase hr =>
      rw [disableSpeculation_frame]
      exact Or.inl rfl
  | takeUp hphase hr hn hbudget hspec hlen =>
      rw [disableSpeculation_frame]
      exact Or.inl rfl
  | commit hphase hok =>
      rw [commitRunning_request]
      exact Or.inl rfl
  | preempt hphase hok hvictim hstatus hfree hbatch hinputs => exact Or.inl rfl
  | close hphase hs =>
      rcases hs with rfl | ⟨r, hs⟩
      · exact Or.inl rfl
      · exact Or.inl hs.connector.pendingLoads_eq
  | setAside hphase hs hfree hpop => exact Or.inl hs.connector.pendingLoads_eq
  | lookUp hphase hs hpreempted hhits hexternal hrunning hn hbudget hlen =>
      exact Or.inl hs.connector.pendingLoads_eq
  | decline hphase hok => exact Or.inl rfl
  | @accept r₁ r' hits blocks numLocal numExternal n inputs kv waiting connector loras hphase hok
      hpop hstatus hconnector =>
      obtain ⟨-, hhead, -⟩ := hb.admitting _ _ _ _ _ _ hphase
      obtain rfl := RequestQueue.head_of_pop hhead hpop
      have hid := hb.partition.requestId r'
      subst hconnector
      by_cases hzero : numExternal = 0
      · exact Or.inl (by rw [if_pos hzero])
      · rw [if_neg hzero]
        cases hconnector : l.scheduler.connector with
        | none => exact Or.inl rfl
        | some asked =>
            have hstore := asked.updateStateAfterAlloc_pendingLoads (l.scheduler.request r')
              (kv.getBlocks r') hzero
            rw [hid] at hstore
            exact Or.inr ⟨r', hits, numLocal, numExternal, n, inputs, _, hphase, rfl, hzero,
              congrArg some hstore⟩

/-- What is noted to be loaded is for a request that came into the batch. -/
theorem Loops.noted {s : Scheduler H} (hpart : s.Partitioned)
    (hempty : ∀ loads, Pvllm.pendingLoads s.connector = some loads → loads = .empty)
    (hloops : Loops (start s) l) : ∀ loads, Pvllm.pendingLoads l.scheduler.connector = some loads →
      ∀ r ∈ loads.keys, ∃ hits numLocal numExternal asked,
        Entered s r hits numLocal numExternal asked l ∧ numExternal ≠ 0 := by
  induction hloops with
  | refl =>
      intro loads hloads r hr
      rw [hempty loads hloads] at hr
      cases hr
  | @tail l l' hbefore hstep ih =>
      have hone : Loops l l' := Relation.ReflTransGen.single hstep
      intro loads hloads r hr
      rcases (advance_outcome hstep).pendingLoads (Loops.batch hpart hbefore) with
        heq | ⟨r', hits, numLocal, numExternal, n, inputs, entry, hphase, hadmission, hne, heq⟩
      · rw [heq] at hloads
        obtain ⟨hits, numLocal, numExternal, asked, hentered, hne⟩ := ih loads hloads r hr
        exact ⟨hits, numLocal, numExternal, asked, hentered.mono hone, hne⟩
      · rw [heq, Option.map_eq_some_iff] at hloads
        obtain ⟨loads, hloads, rfl⟩ := hloads
        by_cases hr' : r = r'
        · subst hr'
          exact ⟨hits, numLocal, numExternal, _,
            ⟨l, l', n, inputs, hbefore, hphase, rfl, hstep, hadmission, .refl⟩, hne⟩
        · rw [Dict.mem_keys_store] at hr
          obtain ⟨hits, numLocal, numExternal, asked, hentered, hne⟩ :=
            ih loads hloads r (hr.resolve_left hr')
          exact ⟨hits, numLocal, numExternal, asked, hentered.mono hone, hne⟩

end StepState

omit [DecidableEq H] in
def SchedulerOutput.loadOf (output : SchedulerOutput) (r : RequestId) :
    Option (List BlockId × ℕ) :=
  output.kvConnectorMetadata.bind (·.loads.find r)

namespace Scheduler

open StepState (Loops Entered Linked batch_start)

variable {s s' : Scheduler H} {output : SchedulerOutput}

/-- The call of `schedule` admits `r`, with these hits; `connector` is the connector
with the store as it was asked. -/
def Admits (s : Scheduler H) (output : SchedulerOutput) (s' : Scheduler H) (r : RequestId)
    (hits : List (List BlockId)) (numLocal numExternal : ℕ)
    (connector : SimSharedStoreConnector H) : Prop :=
  s.schedule = .ok (output, s') ∧ ∃ l,
    Entered s r hits numLocal numExternal (some connector) l ∧ l.phase = .finished ∧
      l.finish = .ok (output, s')

/-- The loads of a call are what they should be for an admission: the blocks named
are those behind the local hit, as many as the external hit fills; the store held
their keys; every load is of a request the call admits with an external hit; and no
block of a local hit is among those to be loaded. -/
structure LoadsRight (s : Scheduler H) (output : SchedulerOutput) (s' : Scheduler H)
    (r : RequestId) (hits : List (List BlockId)) (numLocal numExternal : ℕ)
    (connector : SimSharedStoreConnector H) : Prop where
  dvd : connector.blockSize ∣ numLocal ∧ connector.blockSize ∣ numExternal
  named : output.loadOf r = if numExternal = 0 then none else
    some ((((s'.kvCacheManager.getBlocks r).headD []).drop
      (numLocal / connector.blockSize)).take
        ((numLocal + numExternal) / connector.blockSize - numLocal / connector.blockSize),
          numExternal)
  held : ∀ i, numLocal / connector.blockSize ≤ i →
    i < (numLocal + numExternal) / connector.blockSize → connector.Holds (s.request r) i
  admitted : ∀ r', output.loadOf r' ≠ none → ∃ hits' numLocal' numExternal' connector',
    Admits s output s' r' hits' numLocal' numExternal' connector' ∧ numExternal' ≠ 0
  apart : ∀ ids n, output.loadOf r = some (ids, n) → ∀ b ∈ hits.headD [], b ∉ ids

omit [DecidableEq H] in
theorem loadOf_of_finish {l : StepState H} (hfinish : l.finish = .ok (output, s'))
    (r : RequestId) : output.loadOf r =
      ((pendingLoads l.scheduler.connector).map (·.find r)).join := by
  unfold SchedulerOutput.loadOf
  rw [(StepState.finish_ok hfinish).metadata]
  unfold pendingLoads
  cases l.scheduler.connector <;> rfl

variable {hasher : BlockHasher H} {r : RequestId} {hits : List (List BlockId)}
  {numLocal numExternal : ℕ} {connector : SimSharedStoreConnector H}

theorem loadOf_admitted (hpart : s.Partitioned) (hlinked : Linked hasher s)
    (hempty : ∀ loads, pendingLoads s.connector = some loads → loads = .empty)
    (hok : s.schedule = .ok (output, s')) {l : StepState H} (hloops : Loops (.start s) l)
    (hphase : l.phase = .finished) (hfinish : l.finish = .ok (output, s'))
    (hload : output.loadOf r ≠ none) :
    ∃ hits numLocal numExternal asked, Admits s output s' r hits numLocal numExternal asked ∧
      numExternal ≠ 0 := by
  obtain ⟨entry, hentry⟩ := Option.ne_none_iff_exists'.mp hload
  rw [loadOf_of_finish hfinish, Option.join_eq_some_iff, Option.map_eq_some_iff] at hentry
  obtain ⟨loads, hloads, hfind⟩ := hentry
  obtain ⟨hits, numLocal, numExternal, asked, hentered, hne⟩ :=
    hloops.noted hpart hempty loads hloads r ((loads.mem_keys_iff r).mpr ⟨entry, hfind⟩)
  obtain ⟨l₁, -, -, -, hasked, -, hlooked, -⟩ := hentered.fixed hpart hlinked
  obtain ⟨connector, rfl⟩ : ∃ connector, asked = some connector := by
    cases asked with
    | none => exact absurd (hlooked.alone hasked) hne
    | some connector => exact ⟨connector, rfl⟩
  exact ⟨hits, numLocal, numExternal, connector, ⟨hok, l, hentered, hphase, hfinish⟩, hne⟩

/-- What an admission makes of the loads: the first blocks of the table, as many as
the external hit fills. -/
theorem Admits.loadOf (hpart : s.Partitioned) (hlinked : Linked hasher s)
    (hempty : ∀ loads, pendingLoads s.connector = some loads → loads = .empty)
    (h : Admits s output s' r hits numLocal numExternal connector) :
    ∃ news, news.length = hits.length ∧ (∀ b ∈ hits.flatten, b ∉ news.flatten) ∧
      s'.kvCacheManager.getBlocks r = hits.zipWith (· ++ ·) news ∧
      output.loadOf r = if numExternal = 0 then none else
        some (((s'.kvCacheManager.getBlocks r).headD []).take (numExternal / connector.blockSize),
          numExternal) := by
  obtain ⟨hok, l, hentered, hphase, hfinish⟩ := h
  obtain ⟨l₁, news, hbefore, hb, hasked, hhead, -, hlength, hfresh, hfixed⟩ :=
    hentered.fixed hpart hlinked
  have htable : s'.kvCacheManager.getBlocks r = hits.zipWith (· ++ ·) news := by
    rw [(StepState.finish_ok hfinish).state, StepState.restoreSkippedWaiting_frame,
      ← hfixed.blocks_eq]
  refine ⟨news, hlength, hfresh, htable, ?_⟩
  rw [loadOf_of_finish hfinish, hfixed.load_eq, Option.map_some, Option.join_some, htable]
  by_cases hzero : numExternal = 0
  · rw [if_pos hzero, if_neg (not_not.mpr hzero)]
    -- Nothing is noted for a request that is still in the queue.
    by_contra hsome
    obtain ⟨entry, hentry⟩ := Option.ne_none_iff_exists'.mp hsome
    obtain ⟨_, _, _, _, hearlier, -⟩ := hbefore.noted hpart hempty connector.pendingLoads
      (by rw [hasked]; rfl) r ((connector.pendingLoads.mem_keys_iff r).mpr ⟨entry, hentry⟩)
    obtain ⟨_, _, -, -, -, -, -, -, -, hrunning⟩ := hearlier.fixed hpart hlinked
    exact hb.ne_head hhead hrunning.running rfl
  · rw [if_neg hzero, if_pos hzero]

/-- What is known at the admission, read at the state the call was made in. -/
theorem Admits.found (hpart : s.Partitioned) (hlinked : Linked hasher s)
    (h : Admits s output s' r hits numLocal numExternal connector) :
    connector.blockSize = hasher.blockSize ∧ hasher.blockSize ∣ numLocal ∧
      numLocal + numExternal < (s.request r).numTokens ∧
      connector.Finds (s.request r) numLocal numExternal ∧
      ∃ first rest, hits = first :: rest ∧ first.length = numLocal / hasher.blockSize := by
  obtain ⟨-, l, hentered, -, -⟩ := h
  obtain ⟨l₁, -, hbefore, -, hasked, -, hlooked, -⟩ := hentered.fixed hpart hlinked
  have hlinked₁ := Loops.linked hbefore (batch_start hpart) hlinked
  have hreworks := hbefore.reworks r
  obtain ⟨hsize, -⟩ := hlinked₁.blockSize_eq
  refine ⟨hlinked₁.blockSize connector hasked, ?_, ?_, ?_, ?_⟩
  · rw [hsize]
    exact hlooked.dvd
  · have hlt := hlooked.lt
    rw [hreworks.numTokens_eq] at hlt
    exact hlt
  · have hfinds := hlooked.finds connector hasked
    rw [hreworks.eq] at hfinds
    exact ⟨hfinds.dvd, hfinds.held, hfinds.left⟩
  · have hfound := hlooked.found
    rw [← hsize] at hfound
    obtain ⟨free, horder⟩ := (Loops.batch hpart hbefore).partition.order
    obtain ⟨manager, managers, hmanagers⟩ := List.exists_cons_of_ne_nil horder.managers_ne_nil
    unfold KVCacheManager.FoundBlocks at hfound
    rw [hmanagers] at hfound
    cases hfound with
    | cons hfirst hrest => exact ⟨_, _, rfl, hfirst.1⟩

/-- For an admission from any state that keeps what the lookups rely on: the loads
are right if and only if one of the two hits is empty. -/
theorem Admits.loadsRight_iff (hpart : s.Partitioned) (hlinked : Linked hasher s)
    (hempty : ∀ loads, pendingLoads s.connector = some loads → loads = .empty)
    (h : Admits s output s' r hits numLocal numExternal connector) :
    LoadsRight s output s' r hits numLocal numExternal connector ↔
      numLocal = 0 ∨ numExternal = 0 := by
  obtain ⟨news, hlength, hfresh, htable, hload⟩ := h.loadOf hpart hlinked hempty
  obtain ⟨hsize, hdvd, -, hfinds, first, rest, rfl, hfirst⟩ := h.found hpart hlinked
  have hpos := hasher.blockSize_pos
  rw [← hsize] at hdvd hfirst hpos
  obtain ⟨fresh, others, rfl⟩ := List.exists_cons_of_ne_nil
    (List.ne_nil_of_length_pos (by rw [hlength]; exact Nat.succ_pos _) : news ≠ [])
  rw [List.zipWith_cons_cons] at htable
  have hsum : (numLocal + numExternal) / connector.blockSize =
      numLocal / connector.blockSize + numExternal / connector.blockSize := by
    obtain ⟨k, hk⟩ := hdvd
    rw [hk, Nat.mul_add_div hpos, Nat.mul_div_cancel_left _ hpos]
  have hblocks : (numLocal + numExternal) / connector.blockSize - numLocal / connector.blockSize =
      numExternal / connector.blockSize := by
    rw [hsum, Nat.add_sub_cancel_left]
  constructor
  · intro hright
    by_contra hboth
    rw [not_or] at hboth
    obtain ⟨hlocal, hexternal⟩ := hboth
    have hnamed := hright.named
    rw [hload, if_neg hexternal, if_neg hexternal, htable, hblocks, List.headD_cons,
      ← hfirst, List.drop_left, Option.some.injEq, Prod.mk.injEq] at hnamed
    obtain ⟨b, bs, rfl⟩ := List.exists_cons_of_ne_nil (List.ne_nil_of_length_pos
      (by rw [hfirst]; exact Nat.div_pos (Nat.le_of_dvd (by omega) hdvd) hpos) : first ≠ [])
    obtain ⟨k, hk⟩ := Nat.exists_eq_succ_of_ne_zero (Nat.pos_iff_ne_zero.mp
      (Nat.div_pos (Nat.le_of_dvd (by omega) hfinds.dvd) hpos))
    -- The first block named is a hit, and all that should be are fresh.
    have hmem : b ∈ fresh.take (numExternal / connector.blockSize) := by
      rw [← hnamed.1, hk, List.cons_append, List.take_succ_cons]
      exact List.mem_cons_self
    exact hfresh b (List.mem_flatten.mpr ⟨_, List.mem_cons_self, List.mem_cons_self⟩)
      (List.mem_flatten.mpr ⟨_, List.mem_cons_self, List.mem_of_mem_take hmem⟩)
  · intro hone
    obtain ⟨hok, l, hentered, hphase, hfinish⟩ := h
    obtain ⟨l₁, l₂, n, inputs, hbefore, -, -, hstep, -, hafter⟩ := hentered
    have hloops : Loops (.start s) l := (hbefore.tail hstep).trans hafter
    refine ⟨⟨hdvd, hfinds.dvd⟩, ?_, fun i hle hlt => ?_, fun r' hr' => ?_, ?_⟩
    · rw [hload, hblocks]
      rcases hone with rfl | rfl
      · rw [Nat.zero_div, List.drop_zero]
      · rfl
    · rw [hsum] at hlt
      exact hfinds.held i hle hlt
    · exact loadOf_admitted hpart hlinked hempty hok hloops hphase hfinish hr'
    · intro ids n hids b hb
      rcases hone with rfl | rfl
      · rw [Nat.zero_div] at hfirst
        rw [List.headD_cons, List.length_eq_zero_iff.mp hfirst] at hb
        cases hb
      · rw [hload, if_pos rfl] at hids
        cases hids

/-! ### Over runs -/

/-- A connector that is built as another, and has nothing to load. -/
structure Rests (connector connector' : Option (SimSharedStoreConnector H)) : Prop where
  same : SameConnector connector connector'
  empty : ∀ loads, pendingLoads connector' = some loads → loads = .empty

theorem Rests.requestFinished {connector connector' : Option (SimSharedStoreConnector H)}
    (h : Rests connector connector') (request : Request H) :
    Rests connector (connector'.map (·.requestFinished request)) := by
  cases connector' with
  | none => exact h
  | some asked =>
      obtain ⟨store, heq⟩ := asked.requestFinished_frame request
      rw [Option.map_some, heq]
      exact ⟨h.same, h.empty⟩

theorem Step.rests {event : Event} (hstep : Step s event s')
    {connector : Option (SimSharedStoreConnector H)} (h : Rests connector s.connector) :
    Rests connector s'.connector := by
  cases hstep with
  | addRequest hrequest hfresh =>
      rw [addRequest_eq]
      exact h
  | finishRequests hok =>
      obtain ⟨-, hall⟩ := finishRequests_ok hok
      refine finishAll_invariant (P := fun s' => Rests connector s'.connector) hall h
        fun _ _ _ _ hone h => ?_
      rcases finishOne_ok hone with ⟨-, rfl⟩ | ⟨-, _, _, _, _, _, -, -, rfl, rfl⟩
      · exact h
      · exact h.requestFinished _
  | schedule hok =>
      obtain ⟨l, hloops, -, hfinishes⟩ := schedule_ok hok
      have hsame := hloops.sameConnector.trans h.same
      rw [hfinishes.connector]
      refine ⟨?_, fun loads hloads => ?_⟩
      · unfold SameConnector
        rw [Option.map_map]
        exact hsame
      · obtain ⟨emptied, heq, rfl⟩ := Option.map_eq_some_iff.mp hloads
        obtain ⟨asked, -, rfl⟩ := Option.map_eq_some_iff.mp heq
        rfl
  | updateFromOutput hok =>
      obtain ⟨u, s₁, hall, hshed, -, rfl⟩ := updateFromOutput_ok hok
      obtain ⟨-, heq⟩ := shedAll_ok (P := fun _ => True) hshed trivial fun _ _ _ _ _ _ => trivial
      have hu : Rests connector u.scheduler.connector := by
        refine UpdateState.updateAll_invariant
          (P := fun u _ => Rests connector u.scheduler.connector) hall h fun _ _ _ _ hone h => ?_
        cases hone with
        | skip hscheduled => exact h
        | goOn hscheduled hfolds hkept hpooled houtputs => exact h
        | stop hscheduled hfolds hkept houtput hfree hconnector =>
            subst hconnector
            exact h.requestFinished _
      rw [heq]
      exact hu
  | resetPrefixCache => exact h
  | grammar hcompiling => exact h
  | @sharedStore asked store hconnector =>
      rw [hconnector] at h
      exact ⟨h.same, h.empty⟩

omit [DecidableEq H] in
theorem init_connector {config : SchedulerConfig} {kvCacheConfig : KVCacheConfig}
    {enableCaching : Bool} {hashFn : HashInput H → H} {seed : ℕ}
    {connector : Option (SimSharedStoreConnector H)} {s₀ : Scheduler H}
    (hinit : init config kvCacheConfig enableCaching hashFn seed connector = .ok s₀) :
    s₀.connector = connector := by
  unfold init at hinit
  split at hinit
  · cases hinit
  split at hinit
  · cases hinit
  rw [← Except.ok.inj hinit]

omit [DecidableEq H] in
theorem init_kvCacheConfig {config : SchedulerConfig} {kvCacheConfig : KVCacheConfig}
    {enableCaching : Bool} {hashFn : HashInput H → H} {seed : ℕ}
    {connector : Option (SimSharedStoreConnector H)} {s₀ : Scheduler H}
    (hinit : init config kvCacheConfig enableCaching hashFn seed connector = .ok s₀) :
    s₀.kvCacheManager.kvCacheConfig = kvCacheConfig := by
  unfold init at hinit
  split at hinit
  · cases hinit
  rename_i kv hkv
  split at hinit
  · cases hinit
  rw [← Except.ok.inj hinit]
  unfold KVCacheManager.init at hkv
  split at hkv
  · cases hkv
  split at hkv
  · cases hkv
  rw [← Except.ok.inj hkv]

/-- A run keeps the connector it begins with, and rests between steps. -/
theorem run_rests {s₀ : Scheduler H} {events : List Event} (hrun : Run Step s₀ events s)
    (hempty : ∀ loads, pendingLoads s₀.connector = some loads → loads = .empty) :
    Rests s₀.connector s.connector := by
  refine hrun.invariant (P := fun _ s => Rests s₀.connector s.connector) ?_
    fun _ _ _ _ _ h hstep => hstep.rests h
  exact ⟨rfl, hempty⟩

/-- What the lookups rely on holds in every state a run reaches, and nothing is left
to load between steps. -/
theorem run_linked {config : SchedulerConfig} {kvCacheConfig : KVCacheConfig}
    {hashFn : HashInput H → H} {seed : ℕ} {asked : SimSharedStoreConnector H} {s₀ : Scheduler H}
    {events : List Event} (hblock : asked.blockSize = kvCacheConfig.blockSize)
    (hnone : asked.pendingLoads = .empty)
    (hinit : init config kvCacheConfig true hashFn seed (some asked) = .ok s₀)
    (hrun : Run Step s₀ events s) :
    (∃ hasher, Linked hasher s) ∧
      ∀ loads, pendingLoads s.connector = some loads → loads = .empty := by
  obtain ⟨hsettled, hstart, -⟩ := init_settled hinit
  have hpolicy := init_blockHasher hinit
  have hconnector := init_connector hinit
  have hrests : Rests s₀.connector s.connector := by
    apply run_rests hrun
    rw [hconnector]
    intro loads hloads
    rw [← Option.some.inj hloads]
    exact hnone
  refine ⟨⟨_, ?_, run_hashed hrun hsettled hstart hpolicy,
    StepState.blockSize_of_sameConnector hrests.same ?_⟩, hrests.empty⟩
  · rw [(run_continues hrun hsettled).setup.blockHasher, hpolicy]
  · rintro c hc
    rw [hconnector] at hc
    rw [← Option.some.inj hc]
    exact hblock

/-- In every run with the connector: the loads of an admission are right if and only
if its local or its external hit is empty. -/
theorem run_loadsRight_iff {config : SchedulerConfig} {kvCacheConfig : KVCacheConfig}
    {hashFn : HashInput H → H} {seed : ℕ} {asked : SimSharedStoreConnector H} {s₀ : Scheduler H}
    {events : List Event} (hblock : asked.blockSize = kvCacheConfig.blockSize)
    (hnone : asked.pendingLoads = .empty)
    (hinit : init config kvCacheConfig true hashFn seed (some asked) = .ok s₀)
    (hrun : Run Step s₀ events s)
    (h : Admits s output s' r hits numLocal numExternal connector) :
    LoadsRight s output s' r hits numLocal numExternal connector ↔
      numLocal = 0 ∨ numExternal = 0 := by
  obtain ⟨⟨hasher, hlinked⟩, hempty⟩ := run_linked hblock hnone hinit hrun
  exact h.loadsRight_iff (run_settled hrun (init_settled hinit).1).partition hlinked hempty

/-! ### Two admissions -/

theorem loops_eq_of_finished {l l' : StepState H} (hloops : Loops l l')
    (hphase : l.phase = .finished) : l' = l := by
  induction hloops with
  | refl => rfl
  | tail _ hstep ih =>
      subst ih
      unfold StepState.advance at hstep
      rw [hphase] at hstep
      exact (Except.ok.inj hstep).symm

theorem Admits.of_points {l₁ l₂ : StepState H} {n : ℕ} {inputs : List ℕ}
    (hok : s.schedule = .ok (output, s')) (hbefore : Loops (.start s) l₁)
    (hphase : l₁.phase = .admitting r hits numLocal numExternal n inputs)
    (hconnector : l₁.scheduler.connector = some connector) (hstep : l₁.advance = .ok l₂)
    (hadmission : l₂.phase = .admission) :
    Admits s output s' r hits numLocal numExternal connector := by
  obtain ⟨l, hloops, hfinished, hfinish⟩ := schedule_finish hok
  have hunique : Relator.RightUnique fun l l' : StepState H => l.advance = .ok l' := by
    intro l l' l'' h h'
    rw [h] at h'
    exact Except.ok.inj h'
  refine ⟨hok, l, ⟨l₁, l₂, n, inputs, hbefore, hphase, hconnector, hstep, hadmission, ?_⟩,
    hfinished, hfinish⟩
  rcases Relation.ReflTransGen.total_of_right_unique hunique (hbefore.tail hstep) hloops with
    hafter | hafter
  · exact hafter
  · have heq := loops_eq_of_finished hafter hfinished
    rw [heq, hfinished] at hadmission
    cases hadmission

def advances (l : StepState H) : ℕ → Except PyError (StepState H)
  | 0 => .ok l
  | k + 1 => match l.advance with
    | .error e => .error e
    | .ok l => advances l k

theorem loops_of_advances {l l' : StepState H} {k : ℕ} (h : advances l k = .ok l') :
    Loops l l' := by
  induction k generalizing l with
  | zero =>
      obtain rfl := Except.ok.inj h
      exact .refl
  | succ k ih =>
      unfold advances at h
      split at h
      · cases h
      · rename_i l₁ hstep
        exact .head hstep (ih h)

/-- A connector whose store holds some blocks. -/
def storeConnector (resident : List (StoreKey Digest)) : SimSharedStoreConnector Digest where
  blockSize := 2
  store := ⟨none, resident, 0, 0⟩
  keySpace := "m"
  mayLoad := true
  maySave := true
  blockBytes := 1
  pendingLoads := .empty

def firstDigest : Digest := .block (.noneHash 0) [1, 2] none

def secondDigest : Digest := .block firstDigest [3, 4] none

/-- Two requests are admitted in one call; the point before the second of them is
given its slots. -/
def loadRun (first : List TokenId) (resident : List (StoreKey Digest)) :
    Except PyError (Scheduler Digest × Request Digest × Request Digest × SchedulerOutput ×
      Scheduler Digest × StepState Digest × StepState Digest) := do
  let s₀ ← init (shortConfig .fcfs) (shortKVConfig 8) true Digest.hash 0
    (some (storeConnector resident))
  let a ← Request.init (.text 1 first 8)
  let b ← Request.init (.text 2 [1, 2, 3, 4, 5, 6, 7] 8)
  let s := (s₀.addRequest a).addRequest b
  let (output, s') ← s.schedule
  let l₁ ← advances (.start s) 4
  let l₂ ← l₁.advance
  return (s₀, a, b, output, s', l₁, l₂)

theorem loadRun_reaches {first : List TokenId} {resident : List (StoreKey Digest)}
    {s₀ s' : Scheduler Digest} {a b : Request Digest} {output : SchedulerOutput}
    {l₁ l₂ : StepState Digest} {hits : List (List BlockId)} {numLocal numExternal n : ℕ}
    {inputs : List ℕ} {connector : SimSharedStoreConnector Digest}
    (h : loadRun first resident = .ok (s₀, a, b, output, s', l₁, l₂))
    (hphase : l₁.phase = .admitting 2 hits numLocal numExternal n inputs)
    (hconnector : l₁.scheduler.connector = some connector) (hadmission : l₂.phase = .admission) :
    init (shortConfig .fcfs) (shortKVConfig 8) true Digest.hash 0
        (some (storeConnector resident)) = .ok s₀ ∧
      Run Step s₀ [.addRequest (.text 1 first 8), .addRequest (.text 2 [1, 2, 3, 4, 5, 6, 7] 8)]
        ((s₀.addRequest a).addRequest b) ∧
      Admits ((s₀.addRequest a).addRequest b) output s' 2 hits numLocal numExternal connector := by
  unfold loadRun at h
  obtain ⟨_, hinit, h⟩ := except_bind_iff.mp h
  obtain ⟨_, hfirst, h⟩ := except_bind_iff.mp h
  obtain ⟨_, hsecond, h⟩ := except_bind_iff.mp h
  obtain ⟨⟨_, _⟩, hschedule, h⟩ := except_bind_iff.mp h
  obtain ⟨_, hbefore, h⟩ := except_bind_iff.mp h
  obtain ⟨_, hstep, h⟩ := except_bind_iff.mp h
  cases h
  obtain ⟨-, hnone, -⟩ := init_settled hinit
  have hid : a.requestId = 1 := (Request.init_ok hfirst).1
  have hfresh : (RequestArgs.text 1 first 8).requestId ∉ s₀.requests := by
    rw [hnone]
    exact List.not_mem_nil
  have hfresh' : (RequestArgs.text 2 [1, 2, 3, 4, 5, 6, 7] 8).requestId ∉
      (s₀.addRequest a).requests := by
    rw [addRequest_eq, hid, hnone]
    exact List.not_mem_cons_of_ne_of_not_mem (by decide) List.not_mem_nil
  exact ⟨hinit, (Run.nil.snoc (Step.addRequest hfirst hfresh)).snoc
    (Step.addRequest hsecond hfresh'),
    .of_points hschedule (loops_of_advances hbefore) hphase hconnector hstep hadmission⟩

/-- With the first block of a prompt in the store and none cached, the load names the
block it fills. -/
theorem run_loadsRight_external : ∃ (s s' : Scheduler Digest) (output : SchedulerOutput)
    (connector : SimSharedStoreConnector Digest),
    LoadsRight s output s' 2 [[]] 0 2 connector ∧ output.loadOf 2 = some ([2], 2) ∧
      s'.kvCacheManager.getBlocks 2 = [[2, 3, 4, 5]] := by
  obtain ⟨⟨s₀, a, b, output, s', l₁, l₂⟩, hrun, hcheck⟩ :=
    exists_of_okAnd (x := loadRun [8, 9, 9] [("m", firstDigest)])
      (p := fun (_, _, _, output, s', l₁, l₂) =>
        decide (l₁.phase = .admitting 2 [[]] 0 2 5 []) &&
        decide (l₁.scheduler.connector.isSome = true) && decide (l₂.phase = .admission) &&
        decide (output.loadOf 2 = some ([2], 2) ∧
          s'.kvCacheManager.getBlocks 2 = [[2, 3, 4, 5]])) (by decide +kernel)
  simp only [Bool.and_eq_true, decide_eq_true_eq] at hcheck
  obtain ⟨⟨⟨hphase, hsome⟩, hadmission⟩, hfacts⟩ := hcheck
  obtain ⟨connector, hconnector⟩ := Option.isSome_iff_exists.mp hsome
  obtain ⟨hinit, hsteps, hadmits⟩ := loadRun_reaches hrun hphase hconnector hadmission
  exact ⟨_, s', output, connector,
    (run_loadsRight_iff rfl rfl hinit hsteps hadmits).mpr (Or.inl rfl), hfacts⟩

/-- With the first block of a prompt cached and the second in the store, the load
names the cached block, which another request is using, and not the one behind it. -/
theorem run_loads_cached_block : ∃ (s₀ s s' : Scheduler Digest) (events : List Event)
    (output : SchedulerOutput) (connector : SimSharedStoreConnector Digest),
    init (shortConfig .fcfs) (shortKVConfig 8) true Digest.hash 0
        (some (storeConnector [("m", secondDigest)])) = .ok s₀ ∧
      Run Step s₀ events s ∧ Admits s output s' 2 [[0]] 2 2 connector ∧
      s'.kvCacheManager.getBlocks 1 = [[0, 1]] ∧
      s'.kvCacheManager.getBlocks 2 = [[0, 2, 3, 4]] ∧ output.loadOf 2 = some ([0], 2) ∧
      ¬ LoadsRight s output s' 2 [[0]] 2 2 connector := by
  obtain ⟨⟨s₀, a, b, output, s', l₁, l₂⟩, hrun, hcheck⟩ :=
    exists_of_okAnd (x := loadRun [1, 2, 3] [("m", secondDigest)])
      (p := fun (_, _, _, output, s', l₁, l₂) =>
        decide (l₁.phase = .admitting 2 [[0]] 2 2 3 []) &&
        decide (l₁.scheduler.connector.isSome = true) && decide (l₂.phase = .admission) &&
        decide (s'.kvCacheManager.getBlocks 1 = [[0, 1]] ∧
          s'.kvCacheManager.getBlocks 2 = [[0, 2, 3, 4]] ∧ output.loadOf 2 = some ([0], 2)))
      (by decide +kernel)
  simp only [Bool.and_eq_true, decide_eq_true_eq] at hcheck
  obtain ⟨⟨⟨hphase, hsome⟩, hadmission⟩, hother, hblocks, hload⟩ := hcheck
  obtain ⟨connector, hconnector⟩ := Option.isSome_iff_exists.mp hsome
  obtain ⟨hinit, hsteps, hadmits⟩ := loadRun_reaches hrun hphase hconnector hadmission
  refine ⟨s₀, _, s', _, output, connector, hinit, hsteps, hadmits, hother, hblocks, hload,
    fun hright => ?_⟩
  exact hright.apart [0] 2 hload 0 List.mem_cons_self List.mem_cons_self

end Scheduler

end Pvllm
