import Pvllm.Core.Sharing
import Pvllm.Core.Sched.Granted
import Pvllm.Core.Sched.Coherence

/-!
The common prefix of the tables, over runs of the scheduler.

The loops of `schedule` hand out hits under the hashes of the request they are for, and publish
under the same. The results that come back only add hashes. So in every state of a run the
blocks stand under their hashes, and the reference counts tell which blocks all tables share.
-/

namespace Pvllm

variable {H : Type} [DecidableEq H]

open KVCacheManager (Continues)

/-! ### A lookup -/

namespace KVCacheManager

variable {m m' : KVCacheManager H} {free : List BlockId} {request : Request H}
  {hits : List (List BlockId)} {n : ℕ} {hashes : RequestId → List H}

theorem Marks.getComputedBlocks (hmarks : m.Marks hashes) (h : m.InOrder free)
    (hok : m.getComputedBlocks request = .ok ((hits, n), m')) : m'.Marks hashes := by
  obtain ⟨-, hpool, hmanagers, -⟩ := getComputedBlocks_ok h hok
  rw [Marks, hpool, hmanagers]
  exact hmarks

/-- What a lookup finds for a full-attention group has no hole. -/
theorem getComputedBlocks_filled (h : m.InOrder free)
    (hok : m.getComputedBlocks request = .ok ((hits, n), m')) : m'.Filled hits := by
  obtain ⟨-, hpool, hmanagers, -⟩ := getComputedBlocks_ok h hok
  unfold Filled
  rw [hpool, hmanagers]
  refine (getComputedBlocks_kept h hok).imp fun manager blocks hkept hfull b hb => ?_
  obtain ⟨i, hi⟩ := List.getElem?_of_mem hb
  exact hkept i b hi (KVCacheSpec.attends_of_full hfull)

end KVCacheManager

/-! ### The loops of `schedule` -/

namespace StepState

variable {s : Scheduler H} {l l' : StepState H}

theorem Prepared.marks {s s' : Scheduler H} {r : RequestId} {hashes : RequestId → List H}
    (h : Prepared s s' r) (horder : ∃ free, s.kvCacheManager.InOrder free)
    (hmarks : s.kvCacheManager.Marks hashes) : s'.kvCacheManager.Marks hashes := by
  rcases h.lookup with heq | ⟨result, hok⟩
  · rwa [heq]
  · obtain ⟨free, horder⟩ := horder
    exact hmarks.getComputedBlocks horder hok

omit [DecidableEq H] in
theorem blockHashes_of_reworks {request request' : Request H} (h : request.Reworks request') :
    request'.blockHashes = request.blockHashes := by
  rw [h.eq]

/-- Every step of the loops leaves the blocks under their hashes. -/
theorem Outcome.marks (h : Outcome l l') (hg : Granting s l)
    (hmarks : l.scheduler.kvCacheManager.Marks fun r => (s.request r).blockHashes) :
    l'.scheduler.kvCacheManager.Marks fun r => (s.request r).blockHashes := by
  have hb := hg.batch
  have hsame : ∀ r, (s.request (l.scheduler.request r).requestId).blockHashes =
      (l.scheduler.request r).blockHashes := by
    intro r
    rw [hb.partition.requestId]
    exact (blockHashes_of_reworks (hg.reworks r)).symm
  have horder := hb.partition.order
  cases h with
  | rest hphase => exact hmarks
  | enter hphase => exact hmarks
  | pass hphase hr =>
      rw [disableSpeculation_frame]
      exact hmarks
  | takeUp hphase hr hn hbudget hspec hlen =>
      rw [disableSpeculation_frame]
      exact hmarks
  | commit hphase hok =>
      rw [commitRunning_request]
      obtain ⟨free, horder⟩ := horder
      exact hmarks.allocateSlots horder (hsame _) (fun _ hnone => (by cases hnone))
        (fun _ hnone => (by cases hnone)) hok
  | preempt hphase hok hvictim hstatus hfree hbatch hinputs =>
      obtain ⟨free, horder⟩ := horder
      exact hmarks.of_free horder hfree
  | close hphase hs =>
      rcases hs with rfl | ⟨r, hs⟩
      · exact hmarks
      · exact hs.marks horder hmarks
  | setAside hphase hs hfree hpop =>
      have hfirst := hs.marks horder hmarks
      rcases hfree with rfl | hfree
      · exact hfirst
      · obtain ⟨free, horder'⟩ := (hs.continues horder).order
        exact hfirst.of_free horder' hfree
  | lookUp hphase hs hpreempted hhits hexternal hrunning hn hbudget hlen =>
      exact hs.marks horder hmarks
  | decline hphase hok => exact hmarks
  | accept hphase hok hpop hstatus hconnector =>
      obtain ⟨-, -, hhits⟩ := hb.admitting _ _ _ _ _ _ hphase
      obtain ⟨m, hbefore, hlookup⟩ := hg.found _ _ _ _ _ _ hphase
      obtain ⟨free, hm⟩ := hbefore.order
      have hfilled := KVCacheManager.getComputedBlocks_filled hm hlookup
      obtain ⟨free, horder⟩ := horder
      exact hmarks.allocateSlots horder (hsame _) (fun _ heq => Option.some.inj heq ▸ hhits)
        (fun _ heq => Option.some.inj heq ▸ hfilled) hok

theorem Loops.marks (hloops : Loops (start s) l) (hpart : s.Partitioned)
    (hmarks : s.kvCacheManager.Marks fun r => (s.request r).blockHashes) :
    l.scheduler.kvCacheManager.Marks fun r => (s.request r).blockHashes :=
  (hloops.invariant (P := fun l => Granting s l ∧
      l.scheduler.kvCacheManager.Marks fun r => (s.request r).blockHashes)
    ⟨granting_start hpart, hmarks⟩ fun _ _ hstep h =>
      ⟨hstep.granting h.1, hstep.marks h.1 h.2⟩).2

end StepState

/-! ### Every call -/

namespace Scheduler

variable {s s' : Scheduler H}

theorem updateFromOutput_marks {schedulerOutput : SchedulerOutput}
    {modelRunnerOutput : ModelRunnerOutput} {outputs : Dict ℕ (List EngineCoreOutput)}
    {hashes : RequestId → List H} (h : s.Settled)
    (hok : s.updateFromOutput schedulerOutput modelRunnerOutput = .ok (outputs, s'))
    (hmarks : s.kvCacheManager.Marks hashes) : s'.kvCacheManager.Marks hashes := by
  obtain ⟨u, s₁, hall, hshed, -, rfl⟩ := updateFromOutput_ok hok
  have hfold := UpdateState.updateAll_invariant
    (P := fun u _ => (∃ free, u.scheduler.kvCacheManager.InOrder free) ∧
      u.scheduler.kvCacheManager.Marks hashes)
    hall ⟨h.partition.order, hmarks⟩ fun _ _ _ _ hone hfold => by
      cases hone with
      | skip hscheduled => exact hfold
      | goOn hscheduled hfolds hkept hpooled houtputs => exact hfold
      | stop hscheduled hfolds hkept houtput hfree hconnector =>
          obtain ⟨⟨free, horder⟩, hmarks⟩ := hfold
          exact ⟨(Continues.free ⟨free, horder⟩ hfree).order, hmarks.of_free horder hfree⟩
  refine (shedAll_ok (P := fun m => (∃ free, m.InOrder free) ∧ m.Marks hashes) hshed hfold
    fun _ _ _ _ hok hfold => ?_).1.2
  obtain ⟨⟨free, horder⟩, hmarks⟩ := hfold
  exact ⟨(Continues.removeSkippedBlocks ⟨free, horder⟩ hok).order,
    hmarks.removeSkippedBlocks horder hok⟩

theorem finishRequests_marks {requestIds : List RequestId} {finishedStatus : RequestStatus}
    {hashes : RequestId → List H} (h : s.Settled)
    (hok : s.finishRequests requestIds finishedStatus = .ok s')
    (hmarks : s.kvCacheManager.Marks hashes) : s'.kvCacheManager.Marks hashes := by
  obtain ⟨-, hall⟩ := finishRequests_ok hok
  refine (finishAll_invariant (P := fun s' => (∃ free, s'.kvCacheManager.InOrder free) ∧
    s'.kvCacheManager.Marks hashes) hall ⟨h.partition.order, hmarks⟩ fun _ _ _ _ hone hfold => ?_).2
  obtain ⟨⟨free, horder⟩, hmarks⟩ := hfold
  rcases finishOne_ok hone with ⟨-, rfl⟩ | ⟨-, _, _, _, _, _, -, hfree, -, rfl⟩
  · exact ⟨⟨free, horder⟩, hmarks⟩
  · exact ⟨(Continues.free ⟨free, horder⟩ hfree).order, hmarks.of_free horder hfree⟩

/-- The blocks in the tables stand under the hashes of their requests. -/
def Hashmarked (s : Scheduler H) : Prop :=
  s.kvCacheManager.Marks fun r => (s.request r).blockHashes

omit [DecidableEq H] in
theorem hashes_lasting (hashes : List H) :
    Request.Lasting fun request : Request H => hashes <+: request.blockHashes where
  stands h heq := by
    rw [heq]
    exact h
  append tokenId h := by
    unfold Request.appendOutputTokenIds Request.updateBlockHashes
    split
    · exact h
    · exact h.trans (List.prefix_append ..)

/-- Every step leaves the blocks under their hashes. -/
theorem Step.hashmarked {event : Event} (hstep : Step s event s') (h : s.Settled)
    (hmarked : s.Hashmarked) : s'.Hashmarked := by
  have hmarks : s'.kvCacheManager.Marks fun r => (s.request r).blockHashes := by
    cases hstep with
    | addRequest hrequest hfresh =>
        rw [addRequest_eq]
        exact hmarked
    | finishRequests hok => exact finishRequests_marks h hok hmarked
    | schedule hok =>
        obtain ⟨l, hloops, -, hfinishes⟩ := schedule_ok hok
        rw [hfinishes.state, StepState.restoreSkippedWaiting_frame]
        exact hloops.marks h.partition hmarked
    | updateFromOutput hok => exact updateFromOutput_marks h hok hmarked
    | resetPrefixCache =>
        obtain ⟨free, horder⟩ := h.partition.order
        exact KVCacheManager.Marks.resetPrefixCache hmarked horder
    | grammar hcompiling => exact hmarked
    | sharedStore hconnector => exact hmarked
  refine hmarks.grow fun r hholds => ?_
  obtain ⟨manager, hm, hne⟩ := hholds
  refine hstep.lasting (hashes_lasting _) (fun hadded => ?_) List.prefix_rfl
  cases hstep with
  | @addRequest args request hrequest hfresh =>
      obtain rfl := Option.some.inj hadded
      rw [addRequest_eq] at hm
      refine hne (h.partition.idle _ (fun hrunning => hfresh ?_) manager hm)
      exact h.partition.known_of_running hrunning
  | _ => cases hadded

theorem init_hashmarked {config : SchedulerConfig} {kvCacheConfig : KVCacheConfig}
    {enableCaching : Bool} {hashFn : HashInput H → H} {seed : ℕ}
    {connector : Option (SimSharedStoreConnector H)}
    (hinit : init config kvCacheConfig enableCaching hashFn seed connector = .ok s) :
    s.Hashmarked := by
  obtain ⟨hsettled, hnone, -⟩ := init_settled hinit
  obtain ⟨free, horder⟩ := hsettled.partition.order
  have hidle : ∀ manager ∈ s.kvCacheManager.singleTypeManagers, ∀ r, manager.getBlocks r = [] := by
    intro manager hm r
    refine hsettled.partition.idle r (fun hrunning => ?_) manager hm
    have hknown := hsettled.partition.known_of_running hrunning
    rw [hnone] at hknown
    exact List.not_mem_nil hknown
  refine ⟨fun b hnn htwo => ?_, fun manager hm r i b hb => ?_, fun manager hm _ r b hb => ?_⟩
  · rw [horder.books.refCnt_eq b hnn] at htwo
    obtain ⟨manager, hm, hheld⟩ := mem_heldBlocks.mp
      (Multiset.one_le_count_iff_mem.mp (Nat.le_of_succ_le htwo))
    obtain ⟨r, hmem⟩ := SingleTypeKVCacheManager.exists_of_mem_held hheld
    rw [hidle manager hm] at hmem
    exact absurd hmem List.not_mem_nil
  · rw [hidle manager hm] at hb
    cases hb
  · rw [hidle manager hm] at hb
    exact absurd hb List.not_mem_nil

/-! ### The longest common prefix -/

omit [DecidableEq H] in
theorem init_hashFn {config : SchedulerConfig} {kvCacheConfig : KVCacheConfig}
    {enableCaching : Bool} {hashFn : HashInput H → H} {seed : ℕ}
    {connector : Option (SimSharedStoreConnector H)}
    (hinit : init config kvCacheConfig enableCaching hashFn seed connector = .ok s)
    {hasher : BlockHasher H} (hhasher : s.kvCacheManager.blockHasher = some hasher) :
    hasher.hashFn = hashFn := by
  unfold init at hinit
  split at hinit
  · cases hinit
  rename_i kv hkv
  split at hinit
  · cases hinit
  obtain rfl := Except.ok.inj hinit
  change kv.blockHasher = some hasher at hhasher
  unfold KVCacheManager.init at hkv
  split at hkv
  · cases hkv
  split at hkv
  · cases hkv
  obtain rfl := Except.ok.inj hkv
  unfold KVCacheManager.blockHasher at hhasher
  split at hhasher
  · rw [← Option.some.inj hhasher]
  · cases hhasher

/-- In every state of a run, with a hash without collisions, `get_num_common_prefix_blocks` of a
full-attention group is the length of the longest common prefix. -/
theorem run_common_prefix {config : SchedulerConfig} {kvCacheConfig : KVCacheConfig}
    {enableCaching : Bool} {hashFn : HashInput H → H} {seed : ℕ}
    {connector : Option (SimSharedStoreConnector H)} {s₀ : Scheduler H} {events : List Event}
    (hinjective : Function.Injective hashFn)
    (hinit : init config kvCacheConfig enableCaching hashFn seed connector = .ok s₀)
    (hrun : Run Step s₀ events s) {manager : SingleTypeKVCacheManager}
    (hm : manager ∈ s.kvCacheManager.singleTypeManagers)
    (hfull : manager.kvCacheSpec.isFullAttention = true) (r : RequestId) :
    IsGreatest {k | manager.CommonPrefix r k}
      (manager.getNumCommonPrefixBlocks s.kvCacheManager.blockPool r) := by
  obtain ⟨hsettled₀, hnone, -⟩ := init_settled hinit
  obtain ⟨hsettled, hmarked⟩ := hrun.invariant (P := fun _ s => s.Settled ∧ s.Hashmarked)
    ⟨hsettled₀, init_hashmarked hinit⟩ fun _ _ _ _ _ h hstep =>
      ⟨hstep.settled h.1, hstep.hashmarked h.1 h.2⟩
  obtain ⟨free, horder⟩ := hsettled.partition.order
  refine KVCacheManager.getNumCommonPrefixBlocks_greatest horder hmarked hm hfull ?_ r
  intro r r' i i' key hr hr' hkey hkey'
  dsimp only at hkey hkey'
  have hknown : ∀ r, manager.getBlocks r ≠ [] → r ∈ s.requests := by
    intro r hr
    by_contra hunknown
    refine hr (hsettled.partition.idle r (fun hrunning => hunknown ?_) manager hm)
    exact hsettled.partition.known_of_running hrunning
  obtain ⟨-, hhashed⟩ := run_hashedAs hrun hsettled₀ hnone
  have hfirst := hhashed r (hknown r hr)
  have hsecond := hhashed r' (hknown r' hr')
  cases hpolicy : s₀.kvCacheManager.blockHasher with
  | none =>
      rw [hpolicy] at hfirst
      rw [hfirst.2] at hkey
      cases hkey
  | some hasher =>
      rw [hpolicy] at hfirst hsecond
      have hinj : Function.Injective hasher.hashFn := by rwa [init_hashFn hinit hpolicy]
      have hi := (List.getElem?_eq_some_iff.mp hkey).1
      have hi' := (List.getElem?_eq_some_iff.mp hkey').1
      exact ((Request.blockHashes_inj rfl hinj hfirst hsecond hi hi').mp
        (hkey.trans hkey'.symm)).2.1

/-- A prompt comes in after one that begins as it does has been computed. -/
def prefixRun : Except PyError (Request Digest × SchedulerOutput × Scheduler Digest ×
    Request Digest × Scheduler Digest × SchedulerOutput × Scheduler Digest) := do
  let s₀ ← init (shortConfig .fcfs) (shortKVConfig 8) true Digest.hash 0 none
  let first ← Request.init (.text 1 [1, 2, 3, 4, 5] 8)
  let (output₁, s₁) ← (s₀.addRequest first).schedule
  let (_, s₂) ← s₁.updateFromOutput output₁ (Engine.answerAll [(1, [9], [])])
  let second ← Request.init (.text 2 [1, 2, 3, 4, 6] 8)
  let (output₂, s₃) ← (s₂.addRequest second).schedule
  return (first, output₁, s₁, second, s₂, output₂, s₃)

/-- The two share the two blocks of the prompts' common beginning. -/
theorem run_common_prefix_two : ∃ (s : Scheduler Digest) (manager : SingleTypeKVCacheManager),
    s.kvCacheManager.singleTypeManagers = [manager] ∧ s.running = [1, 2] ∧
      (manager.getBlocks 1).length = 3 ∧ (manager.getBlocks 2).length = 3 ∧
      IsGreatest {k | manager.CommonPrefix 2 k} 2 := by
  obtain ⟨⟨first, output₁, s₁, second, s₂, output₂, s⟩, hrun, hcheck⟩ :=
    exists_of_okAnd (x := prefixRun) (p := fun (_, _, _, _, s₂, _, s) =>
      decide (2 ∉ s₂.requests ∧ s.running = [1, 2] ∧
        s.kvCacheManager.singleTypeManagers.map (fun manager =>
          (manager.kvCacheSpec.isFullAttention, (manager.getBlocks 1).length,
            (manager.getBlocks 2).length,
            manager.getNumCommonPrefixBlocks s.kvCacheManager.blockPool 2)) =
          [(true, 3, 3, 2)])) (by decide +kernel)
  obtain ⟨hfresh₂, hrunning, hgroups⟩ := of_decide_eq_true hcheck
  unfold prefixRun at hrun
  obtain ⟨s₀, hinit, hrun⟩ := except_bind_iff.mp hrun
  obtain ⟨_, hfirst, hrun⟩ := except_bind_iff.mp hrun
  obtain ⟨⟨_, _⟩, hone, hrun⟩ := except_bind_iff.mp hrun
  obtain ⟨⟨_, _⟩, hback, hrun⟩ := except_bind_iff.mp hrun
  obtain ⟨_, hsecond, hrun⟩ := except_bind_iff.mp hrun
  obtain ⟨⟨_, _⟩, htwo, hrun⟩ := except_bind_iff.mp hrun
  cases hrun
  obtain ⟨-, hnone, -⟩ := init_settled hinit
  have hfresh₁ : 1 ∉ s₀.requests := by
    rw [hnone]
    exact List.not_mem_nil
  have hsteps := ((((Run.nil.snoc (Step.addRequest hfirst hfresh₁)).snoc (Step.schedule hone)).snoc
    (Step.updateFromOutput hback)).snoc (Step.addRequest hsecond hfresh₂)).snoc (Step.schedule htwo)
  obtain ⟨manager, hmanagers, hvalues⟩ := List.map_eq_singleton_iff.mp hgroups
  simp only [Prod.mk.injEq] at hvalues
  obtain ⟨hfull, hlength₁, hlength₂, hcommon⟩ := hvalues
  have hm : manager ∈ s.kvCacheManager.singleTypeManagers := by
    rw [hmanagers]
    exact List.mem_singleton_self manager
  refine ⟨s, manager, hmanagers, hrunning, hlength₁, hlength₂, ?_⟩
  have hgreatest := run_common_prefix Digest.hash_injective hinit hsteps hm hfull 2
  rwa [hcommon] at hgreatest

end Scheduler

end Pvllm
