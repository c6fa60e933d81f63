import Pvllm.Core.PrefixClosure
import Pvllm.Core.Sched.CommonPrefix

/-!
The cache and its chains, over runs of the scheduler.

With one full-attention group, every call keeps parents before their children in the tables
and behind them in the free queue. A hash is in the cache only as long as its parent is, so
the scan of a chain that stops at its first miss has seen all that is cached of it.
-/

namespace Pvllm

variable {H : Type} [DecidableEq H]

/-! ### Chains -/

namespace BlockHasher

variable {hasher : BlockHasher H}

omit [DecidableEq H]

/-- One hash stands before the other in the chain of some blocks. -/
def Precedes (hasher : BlockHasher H) (p k : H) : Prop :=
  ∃ contents i, (hasher.chain none contents)[i]? = some p ∧
    (hasher.chain none contents)[i + 1]? = some k

theorem chain_descends (hinjective : Function.Injective hasher.hashFn)
    (contents : List BlockContent) : Descends hasher.Precedes (hasher.chain none contents) where
  nodup := by
    rw [List.nodup_iff_injective_getElem]
    rintro ⟨i, hi⟩ ⟨i', hi'⟩ heq
    have hsame : (hasher.chain none contents)[i]? = (hasher.chain none contents)[i']? := by
      rw [List.getElem?_eq_getElem hi, List.getElem?_eq_getElem hi']
      exact congrArg some heq
    rw [hasher.length_chain] at hi hi'
    exact Fin.ext ((hasher.chain_inj hasher rfl hinjective hi hi').mp hsame).2.1
  follows := by
    rintro p k i ⟨contents', i', hp, hk⟩ hi
    have hlt := (List.getElem?_eq_some_iff.mp hi).1
    have hlt' := (List.getElem?_eq_some_iff.mp hk).1
    rw [hasher.length_chain] at hlt hlt'
    obtain ⟨-, rfl, htake⟩ :=
      (hasher.chain_inj hasher rfl hinjective hlt hlt').mp (hi.trans hk.symm)
    refine ⟨i', rfl, ?_⟩
    rw [← hp]
    refine (hasher.chain_inj hasher rfl hinjective (by omega) (by omega)).mpr ⟨rfl, rfl, ?_⟩
    have hshorter := congrArg (List.take (i' + 1)) htake
    rwa [List.take_take, List.take_take, Nat.min_eq_left (Nat.le_succ _)] at hshorter

end BlockHasher

namespace Request

omit [DecidableEq H]

/-- Hashed under a policy, or not at all. -/
def HashedBy (policy : Option (BlockHasher H)) (request : Request H) : Prop :=
  request.HashedAs policy ∨ request.HashedAs none

theorem Lasting.or {P Q : Request H → Prop} (hP : Lasting P) (hQ : Lasting Q) :
    Lasting fun request => P request ∨ Q request where
  stands h heq := h.imp (hP.stands · heq) (hQ.stands · heq)
  append tokenId h := h.imp (hP.append tokenId) (hQ.append tokenId)

theorem HashedBy.lasting (policy : Option (BlockHasher H)) : Lasting (HashedBy policy) :=
  (HashedAs.lasting policy).or (HashedAs.lasting none)

theorem HashedBy.descends {hasher : BlockHasher H} (hinjective : Function.Injective hasher.hashFn)
    {request : Request H} (h : HashedBy (some hasher) request) :
    Descends hasher.Precedes request.blockHashes := by
  rcases h with h | ⟨-, hnone⟩
  · rw [h.blockHashes]
    exact BlockHasher.chain_descends hinjective _
  · rw [hnone]
    exact ⟨List.nodup_nil, fun _ hi => by cases hi⟩

end Request

theorem fullAttentionScan_getElem? {pool : BlockPool H} {groupId : ℕ} {hashes : List H}
    (hclosed : ∀ i, (cachedAt pool groupId hashes (i + 1)).isSome →
      (cachedAt pool groupId hashes i).isSome) (i : ℕ) :
    (fullAttentionScan pool groupId hashes)[i]? = cachedAt pool groupId hashes i := by
  obtain ⟨hentries, -, hmax⟩ := fullAttentionScan_spec pool groupId hashes
  cases hcached : cachedAt pool groupId hashes i with
  | none =>
      rw [Option.eq_none_iff_forall_ne_some]
      intro b hb
      rw [hentries i b hb] at hcached
      cases hcached
  | some b =>
      have hbefore : ∀ d ≤ i, (cachedAt pool groupId hashes (i - d)).isSome := by
        intro d hd
        induction d with
        | zero =>
            rw [Nat.sub_zero, hcached]
            rfl
        | succ d ih =>
            apply hclosed
            rw [show i - (d + 1) + 1 = i - d by omega]
            exact ih (by omega)
      have hlt : i < hashes.length := by
        by_contra hge
        unfold cachedAt at hcached
        rw [List.getElem?_eq_none (by omega)] at hcached
        cases hcached
      have hlength := hmax (i + 1) hlt fun j hj => by
        have hcached := hbefore (i - j) (Nat.sub_le ..)
        rwa [Nat.sub_sub_self (by omega)] at hcached
      have hget := List.getElem?_eq_getElem (Nat.lt_of_succ_le hlength)
      rw [hget, ← hentries i _ hget, hcached]

/-! ### The loops of `schedule` -/

namespace KVCacheManager

/-- The layers, with the free list that the queue spells out. -/
def Layers (parent : H → H → Prop) (hashes : RequestId → List H) (m : KVCacheManager H) : Prop :=
  ∃ free, Layered parent hashes m free

end KVCacheManager

namespace StepState

variable {s : Scheduler H} {l l' : StepState H} {parent : H → H → Prop}
  {hashes : RequestId → List H}

theorem Prepared.layers {s s' : Scheduler H} {r : RequestId} (h : Prepared s s' r)
    (hlayers : s.kvCacheManager.Layers parent hashes) :
    s'.kvCacheManager.Layers parent hashes := by
  obtain ⟨free, hlayered⟩ := hlayers
  rcases h.lookup with heq | ⟨result, hok⟩
  · rw [heq]
    exact ⟨free, hlayered⟩
  · exact ⟨free, hlayered.getComputedBlocks hok⟩

/-- Every step of the loops keeps the layers. -/
theorem Outcome.layers (h : Outcome l l') (hg : Granting s l)
    (hdescends : ∀ r, Descends parent (s.request r).blockHashes)
    (hlayers : l.scheduler.kvCacheManager.Layers parent fun r => (s.request r).blockHashes) :
    l'.scheduler.kvCacheManager.Layers parent fun r => (s.request r).blockHashes := by
  have hb := hg.batch
  have hsame : ∀ r, (s.request (l.scheduler.request r).requestId).blockHashes =
      (l.scheduler.request r).blockHashes := by
    intro r
    rw [hb.partition.requestId]
    exact (blockHashes_of_reworks (hg.reworks r)).symm
  cases h with
  | rest hphase => exact hlayers
  | enter hphase => exact hlayers
  | pass hphase hr =>
      rw [disableSpeculation_frame]
      exact hlayers
  | takeUp hphase hr hn hbudget hspec hlen =>
      rw [disableSpeculation_frame]
      exact hlayers
  | commit hphase hok =>
      rw [commitRunning_request]
      obtain ⟨free, hlayered⟩ := hlayers
      exact hlayered.allocateSlots (hsame _) (fun _ hnone => (by cases hnone))
        (fun _ hnone => (by cases hnone)) hok
  | preempt hphase hok hvictim hstatus hfree hbatch hinputs =>
      obtain ⟨free, hlayered⟩ := hlayers
      exact hlayered.of_free (hdescends _) hfree
  | close hphase hs =>
      rcases hs with rfl | ⟨r, hs⟩
      · exact hlayers
      · exact hs.layers hlayers
  | setAside hphase hs hfree hpop =>
      have hfirst := hs.layers hlayers
      rcases hfree with rfl | hfree
      · exact hfirst
      · obtain ⟨free, hlayered⟩ := hfirst
        exact hlayered.of_free (hdescends _) hfree
  | lookUp hphase hs hpreempted hhits hexternal hrunning hn hbudget hlen =>
      exact hs.layers hlayers
  | decline hphase hok => exact hlayers
  | accept hphase hok hpop hstatus hconnector =>
      obtain ⟨-, -, hhits⟩ := hb.admitting _ _ _ _ _ _ hphase
      obtain ⟨m, hbefore, hlookup⟩ := hg.found _ _ _ _ _ _ hphase
      obtain ⟨before, hm⟩ := hbefore.order
      have hfilled := KVCacheManager.getComputedBlocks_filled hm hlookup
      obtain ⟨free, hlayered⟩ := hlayers
      exact hlayered.allocateSlots (hsame _) (fun _ heq => Option.some.inj heq ▸ hhits)
        (fun _ heq => Option.some.inj heq ▸ hfilled) hok

theorem Loops.layers (hloops : Loops (start s) l) (hpart : s.Partitioned)
    (hdescends : ∀ r, Descends parent (s.request r).blockHashes)
    (hlayers : s.kvCacheManager.Layers parent fun r => (s.request r).blockHashes) :
    l.scheduler.kvCacheManager.Layers parent fun r => (s.request r).blockHashes :=
  (hloops.invariant (P := fun l => Granting s l ∧
      l.scheduler.kvCacheManager.Layers parent fun r => (s.request r).blockHashes)
    ⟨granting_start hpart, hlayers⟩ fun _ _ hstep h =>
      ⟨hstep.granting h.1, hstep.layers h.1 hdescends h.2⟩).2

end StepState

/-! ### Every call -/

namespace Scheduler

variable {s s' : Scheduler H} {parent : H → H → Prop} {hashes : RequestId → List H}

theorem updateFromOutput_layers {schedulerOutput : SchedulerOutput}
    {modelRunnerOutput : ModelRunnerOutput} {outputs : Dict ℕ (List EngineCoreOutput)}
    (hdescends : ∀ r, Descends parent (hashes r))
    (hok : s.updateFromOutput schedulerOutput modelRunnerOutput = .ok (outputs, s'))
    (hlayers : s.kvCacheManager.Layers parent hashes) :
    s'.kvCacheManager.Layers parent hashes := by
  obtain ⟨u, s₁, hall, hshed, -, rfl⟩ := updateFromOutput_ok hok
  have hfold := UpdateState.updateAll_invariant
    (P := fun u _ => u.scheduler.kvCacheManager.Layers parent hashes)
    hall hlayers fun _ _ _ _ hone hfold => by
      cases hone with
      | skip hscheduled => exact hfold
      | goOn hscheduled hfolds hkept hpooled houtputs => exact hfold
      | stop hscheduled hfolds hkept houtput hfree hconnector =>
          obtain ⟨free, hlayered⟩ := hfold
          exact hlayered.of_free (hdescends _) hfree
  refine (shedAll_ok (P := fun m => m.Layers parent hashes) hshed hfold
    fun _ _ _ _ hok hfold => ?_).1
  obtain ⟨free, hlayered⟩ := hfold
  rw [hlayered.removeSkippedBlocks hok]
  exact ⟨free, hlayered⟩

theorem finishRequests_layers {requestIds : List RequestId} {finishedStatus : RequestStatus}
    (hdescends : ∀ r, Descends parent (hashes r))
    (hok : s.finishRequests requestIds finishedStatus = .ok s')
    (hlayers : s.kvCacheManager.Layers parent hashes) :
    s'.kvCacheManager.Layers parent hashes := by
  obtain ⟨-, hall⟩ := finishRequests_ok hok
  refine finishAll_invariant (P := fun s' => s'.kvCacheManager.Layers parent hashes) hall
    hlayers fun _ _ _ _ hone hfold => ?_
  rcases finishOne_ok hone with ⟨-, rfl⟩ | ⟨-, _, _, _, _, _, -, hfree, -, rfl⟩
  · exact hfold
  · obtain ⟨free, hlayered⟩ := hfold
    exact hlayered.of_free (hdescends _) hfree

/-- The layers under the hashes of the requests. -/
def HasLayers (parent : H → H → Prop) (s : Scheduler H) : Prop :=
  s.kvCacheManager.Layers parent fun r => (s.request r).blockHashes

theorem Step.hasLayers {event : Event} (hstep : Step s event s') (h : s.Settled)
    (hdescends : ∀ r, Descends parent (s.request r).blockHashes) (hlayers : s.HasLayers parent) :
    s'.HasLayers parent := by
  have hbefore : s'.kvCacheManager.Layers parent fun r => (s.request r).blockHashes := by
    cases hstep with
    | addRequest hrequest hfresh =>
        rw [addRequest_eq]
        exact hlayers
    | finishRequests hok => exact finishRequests_layers hdescends hok hlayers
    | schedule hok =>
        obtain ⟨l, hloops, -, hfinishes⟩ := schedule_ok hok
        rw [hfinishes.state, StepState.restoreSkippedWaiting_frame]
        exact hloops.layers h.partition hdescends hlayers
    | updateFromOutput hok => exact updateFromOutput_layers hdescends hok hlayers
    | resetPrefixCache =>
        obtain ⟨free, hlayered⟩ := hlayers
        exact ⟨free, hlayered.resetPrefixCache⟩
    | grammar hcompiling => exact hlayers
    | sharedStore hconnector => exact hlayers
  -- the hashes have grown with the tokens
  obtain ⟨before, hlayered⟩ := hlayers
  obtain ⟨free, hlayered'⟩ := hbefore
  exact ⟨free, hlayered'.order, hstep.hashmarked h hlayered.marks, hlayered'.single,
    hlayered'.stacked, hlayered'.children⟩

/-- A new scheduler with one full-attention group. -/
theorem init_hasLayers {config : SchedulerConfig} {kvCacheConfig : KVCacheConfig}
    {enableCaching : Bool} {hashFn : HashInput H → H} {seed : ℕ}
    {connector : Option (SimSharedStoreConnector H)} {spec : KVCacheSpec}
    (hgroup : kvCacheConfig.kvCacheGroups = [spec]) (hfull : spec.isFullAttention = true)
    (hinit : init config kvCacheConfig enableCaching hashFn seed connector = .ok s) :
    s.HasLayers parent ∧ s.kvCacheManager.kvCacheConfig = kvCacheConfig ∧
      s.request = Request.vacant := by
  have hmarked := init_hashmarked hinit
  unfold init at hinit
  split at hinit
  · cases hinit
  rename_i kv hkv
  split at hinit
  · cases hinit
  obtain rfl := Except.ok.inj hinit
  obtain ⟨horder, hconfig, -, -, -, hnone⟩ := KVCacheManager.init_inOrder hkv
  refine ⟨⟨_, horder, hmarked, ?_, fun manager hm r i b c hb hc hne => ?_,
    fun c hc key hkey => ?_⟩, hconfig, rfl⟩
  · have hspecs := horder.specs
    rw [hconfig, hgroup, List.map_eq_singleton_iff] at hspecs
    obtain ⟨group, hgroups, hspec⟩ := hspecs
    exact ⟨group, hgroups, by rw [hspec, hfull]⟩
  · exact absurd (hnone c) hne
  · dsimp only at hkey
    rw [hnone] at hkey
    cases hkey

theorem run_hashedBy {s₀ : Scheduler H} {events : List Event} (hrun : Run Step s₀ events s)
    (hsettled : s₀.Settled) (hstart : s₀.request = Request.vacant) :
    s.kvCacheManager.blockHasher = s₀.kvCacheManager.blockHasher ∧
      ∀ r, (s.request r).HashedBy s₀.kvCacheManager.blockHasher := by
  refine (hrun.invariant (P := fun _ s => s.Settled ∧
    s.kvCacheManager.blockHasher = s₀.kvCacheManager.blockHasher ∧
      ∀ r, (s.request r).HashedBy s₀.kvCacheManager.blockHasher) ⟨hsettled, rfl, ?_⟩ ?_).2
  · rw [hstart]
    exact fun r => Or.inr ⟨rfl, rfl⟩
  intro events s event s' _ ⟨hs, hpolicy, hall⟩ hstep
  refine ⟨hstep.settled hs, ?_, fun r => ?_⟩
  · rw [(hstep.continues hs).setup.blockHasher, hpolicy]
  · by_cases hadded : event.added = some r
    · exact Or.inl (hpolicy ▸ hstep.hashed_added hadded)
    · exact hstep.lasting (Request.HashedBy.lasting _) hadded (hall r)

/-- In every state of a run with one full-attention group and a hash without collisions, the
cache holds the parent of every hash it holds, and a scan finds all that is cached of a chain. -/
theorem run_prefix_closed {config : SchedulerConfig} {kvCacheConfig : KVCacheConfig}
    {hashFn : HashInput H → H} {seed : ℕ} {connector : Option (SimSharedStoreConnector H)}
    {s₀ : Scheduler H} {events : List Event} {spec : KVCacheSpec}
    (hinjective : Function.Injective hashFn)
    (hgroup : kvCacheConfig.kvCacheGroups = [spec]) (hfull : spec.isFullAttention = true)
    (hinit : init config kvCacheConfig true hashFn seed connector = .ok s₀)
    (hrun : Run Step s₀ events s) :
    ∃ hasher, s.kvCacheManager.blockHasher = some hasher ∧ ∀ contents : List BlockContent,
      (∀ i, (cachedAt s.kvCacheManager.blockPool 0 (hasher.chain none contents) (i + 1)).isSome →
        (cachedAt s.kvCacheManager.blockPool 0 (hasher.chain none contents) i).isSome) ∧
      ∀ maxLength blocks found, findLongestCacheHit s.kvCacheManager.blockPool 0 spec
          (hasher.chain none contents) maxLength = .ok (blocks, found) →
        ∀ i < maxLength / spec.blockSize, blocks[i]? =
          cachedAt s.kvCacheManager.blockPool 0 (hasher.chain none contents) i := by
  obtain ⟨hsettled₀, -, -⟩ := init_settled hinit
  have hpolicy := init_blockHasher hinit
  set hasher : BlockHasher H :=
    ⟨kvCacheConfig.blockSize, kvCacheConfig.blockSize_pos, hashFn, seed⟩ with hhasher
  have hinj : Function.Injective hasher.hashFn := hinjective
  have hlayers : s₀.HasLayers hasher.Precedes ∧ s₀.kvCacheManager.kvCacheConfig = kvCacheConfig ∧
      s₀.request = Request.vacant := init_hasLayers hgroup hfull hinit
  obtain ⟨hlayers₀, -, hvacant⟩ := hlayers
  have hdescends : ∀ {events s}, Run Step s₀ events s →
      ∀ r, Descends hasher.Precedes (s.request r).blockHashes := by
    intro events s hrun r
    have hby := (run_hashedBy hrun hsettled₀ hvacant).2 r
    rw [hpolicy] at hby
    exact hby.descends hinj
  obtain ⟨-, free, hlayered⟩ := hrun.invariant
    (P := fun _ s => s.Settled ∧ s.HasLayers hasher.Precedes) ⟨hsettled₀, hlayers₀⟩
    fun _ _ _ _ hrun h hstep => ⟨hstep.settled h.1, hstep.hasLayers h.1 (hdescends hrun) h.2⟩
  have hindexed := hlayered.order.books.wf.toIndexed
  refine ⟨hasher, (run_hashedBy hrun hsettled₀ hvacant).1.trans hpolicy, fun contents => ?_⟩
  have hclosed : ∀ i,
      (cachedAt s.kvCacheManager.blockPool 0 (hasher.chain none contents) (i + 1)).isSome →
        (cachedAt s.kvCacheManager.blockPool 0 (hasher.chain none contents) i).isSome := by
    intro i hcached
    obtain ⟨c, hc⟩ := Option.isSome_iff_exists.mp hcached
    obtain ⟨k, hk, hkey⟩ := cachedAt_hash hindexed hc
    have hlt := (List.getElem?_eq_some_iff.mp hk).1
    have hp := List.getElem?_eq_getElem (Nat.lt_of_succ_lt hlt)
    obtain ⟨b, hb⟩ := hlayered.parent_cached (hdescends hrun) hkey ⟨contents, i, hp, hk⟩
    obtain ⟨b', hb'⟩ := hindexed.getCachedBlock_isSome hb
    rw [cachedAt_eq hp, hb']
    rfl
  refine ⟨hclosed, fun maxLength blocks found hfind i hi => ?_⟩
  have hkind : spec.kind = .fullAttention := of_decide_eq_true hfull
  unfold findLongestCacheHit at hfind
  rw [hkind] at hfind
  obtain ⟨rfl, -⟩ := Prod.mk.inj (Except.ok.inj hfind)
  -- a search sees no more of the hashes than it may take
  have hcut : ∀ j < maxLength / spec.blockSize,
      cachedAt s.kvCacheManager.blockPool 0
        ((hasher.chain none contents).take (maxLength / spec.blockSize)) j =
      cachedAt s.kvCacheManager.blockPool 0 (hasher.chain none contents) j := by
    intro j hj
    unfold cachedAt
    rw [List.getElem?_take, if_pos hj]
  rw [fullAttentionScan_getElem?, hcut i hi]
  intro j hcached
  by_cases hj : j + 1 < maxLength / spec.blockSize
  · rw [hcut _ hj] at hcached
    rw [hcut _ (by omega)]
    exact hclosed j hcached
  · unfold cachedAt at hcached
    rw [List.getElem?_take, if_neg hj] at hcached
    cases hcached

/-- A chain of three blocks comes and goes, and the next prompt takes up its last one. -/
def evictingRun : Except PyError (Request Digest × SchedulerOutput × Scheduler Digest ×
    Scheduler Digest × Request Digest × SchedulerOutput × Scheduler Digest) := do
  let s₀ ← init (shortConfig .fcfs) (shortKVConfig 5) true Digest.hash 0 none
  let first ← Request.init (.text 1 [1, 2, 3, 4, 5, 6, 7] 8)
  let (output₁, s₁) ← (s₀.addRequest first).schedule
  let s₂ ← s₁.finishRequests [1] .finishedAborted
  let second ← Request.init (.text 2 [8, 9, 10, 11, 12] 8)
  let (output₂, s₃) ← (s₂.addRequest second).schedule
  return (first, output₁, s₁, s₂, second, output₂, s₃)

/-- The first two blocks of the chain are left. -/
theorem run_prefix_closed_evicting : ∃ (s : Scheduler Digest) (hasher : BlockHasher Digest)
    (contents : List BlockContent), s.kvCacheManager.blockHasher = some hasher ∧
      (cachedAt s.kvCacheManager.blockPool 0 (hasher.chain none contents) 2).isSome = false ∧
      (cachedAt s.kvCacheManager.blockPool 0 (hasher.chain none contents) 1).isSome = true ∧
      (cachedAt s.kvCacheManager.blockPool 0 (hasher.chain none contents) 0).isSome = true := by
  obtain ⟨⟨first, output₁, s₁, s₂, second, output₂, s⟩, hrun, hcheck⟩ :=
    exists_of_okAnd (x := evictingRun) (p := fun (first, _, _, s₂, _, _, s) =>
      decide (2 ∉ s₂.requests) && (s.kvCacheManager.blockHasher.any fun hasher =>
        !(cachedAt s.kvCacheManager.blockPool 0
          (hasher.chain none (first.blocks hasher.blockSize)) 2).isSome &&
        (cachedAt s.kvCacheManager.blockPool 0
          (hasher.chain none (first.blocks hasher.blockSize)) 1).isSome))
      (by decide +kernel)
  rw [Bool.and_eq_true, decide_eq_true_eq, Option.any_eq_true] at hcheck
  obtain ⟨hfresh₂, hasher, hhasher, hcached⟩ := hcheck
  rw [Bool.and_eq_true, Bool.not_eq_true'] at hcached
  obtain ⟨hevicted, hcached⟩ := hcached
  unfold evictingRun at hrun
  obtain ⟨s₀, hinit, hrun⟩ := except_bind_iff.mp hrun
  obtain ⟨_, hfirst, hrun⟩ := except_bind_iff.mp hrun
  obtain ⟨⟨_, _⟩, hone, hrun⟩ := except_bind_iff.mp hrun
  obtain ⟨_, hfinish, hrun⟩ := except_bind_iff.mp hrun
  obtain ⟨_, hsecond, hrun⟩ := except_bind_iff.mp hrun
  obtain ⟨⟨_, _⟩, htwo, hrun⟩ := except_bind_iff.mp hrun
  cases hrun
  obtain ⟨-, hnone, -⟩ := init_settled hinit
  have hfresh₁ : 1 ∉ s₀.requests := by
    rw [hnone]
    exact List.not_mem_nil
  have hsteps := ((((Run.nil.snoc (Step.addRequest hfirst hfresh₁)).snoc (Step.schedule hone)).snoc
    (Step.finishRequests hfinish)).snoc (Step.addRequest hsecond hfresh₂)).snoc (Step.schedule htwo)
  obtain ⟨hasher', hhasher', hclosed⟩ :=
    run_prefix_closed Digest.hash_injective rfl rfl hinit hsteps
  obtain rfl := Option.some.inj (hhasher.symm.trans hhasher')
  exact ⟨s, hasher, _, hhasher, hevicted, hcached, (hclosed _).1 0 hcached⟩

end Scheduler

end Pvllm
