import Pvllm.Core.Hashing
import Pvllm.Core.Tables
import Pvllm.Core.Sched.Identity

/-!
The hashes of the requests, over runs of the scheduler.

A scheduler keeps the layout and the hashing policy of its KV cache manager, and
hands that policy to every request it is given. `run_hashed` says that the hashes of
a known request are at any time the chain over its full blocks, however its tokens
came in. Two requests that the policy confuses then adopt each other's blocks.
-/

namespace Pvllm

variable {H : Type} [DecidableEq H]

/-! ### One layout and one policy -/

namespace KVCacheManager

/-- A manager in order, over the layout of another. -/
structure Continues (m m' : KVCacheManager H) : Prop where
  order : ∃ free, m'.InOrder free
  setup : SameSetup m m'

namespace Continues

variable {m m' m'' : KVCacheManager H}

theorem refl (h : ∃ free, m.InOrder free) : Continues m m := ⟨h, .refl m⟩

theorem trans (h : Continues m m') (h' : Continues m' m'') : Continues m m'' :=
  ⟨h'.order, h.setup.trans h'.setup⟩

theorem free {r : RequestId} (h : ∃ free, m.InOrder free) (hok : m.free r = .ok m') :
    Continues m m' := by
  obtain ⟨free, horder⟩ := h
  obtain ⟨free', horder', hsetup⟩ := free_inOrder horder hok
  exact ⟨⟨free', horder'⟩, hsetup⟩

theorem removeSkippedBlocks {request : Request H} (h : ∃ free, m.InOrder free)
    (hok : m.removeSkippedBlocks request = .ok m') : Continues m m' := by
  obtain ⟨free, horder⟩ := h
  obtain ⟨free', horder', hsetup⟩ := removeSkippedBlocks_inOrder horder hok
  exact ⟨⟨free', horder'⟩, hsetup⟩

theorem getComputedBlocks {request : Request H} {result : List (List BlockId) × ℕ}
    (h : ∃ free, m.InOrder free) (hok : m.getComputedBlocks request = .ok (result, m')) :
    Continues m m' := by
  obtain ⟨free, horder⟩ := h
  obtain ⟨horder', hsetup⟩ := getComputedBlocks_inOrder horder hok
  exact ⟨⟨free, horder'⟩, hsetup⟩

theorem allocateSlots {request : Request H} {n k lookahead : ℕ}
    {hits : Option (List (List BlockId))} {delay : Bool} {result : Option (List (List BlockId))}
    (h : ∃ free, m.InOrder free) (hhits : ∀ blocks, hits = some blocks → Hits m request blocks)
    (hok : m.allocateSlots request n k hits lookahead delay = .ok (result, m')) :
    Continues m m' := by
  obtain ⟨free, horder⟩ := h
  obtain ⟨free', horder', hsetup⟩ := allocateSlots_inOrder horder hhits hok
  exact ⟨⟨free', horder'⟩, hsetup⟩

theorem resetPrefixCache (h : ∃ free, m.InOrder free) : Continues m m.resetPrefixCache.2 := by
  obtain ⟨free, horder⟩ := h
  obtain ⟨horder', hsetup, -⟩ := resetPrefixCache_spec horder
  exact ⟨⟨free, horder'⟩, hsetup⟩

end Continues

end KVCacheManager

open KVCacheManager (Continues)

namespace StepState

variable {l l' : StepState H}

theorem Prepared.continues {s s' : Scheduler H} {r : RequestId} (h : Prepared s s' r)
    (horder : ∃ free, s.kvCacheManager.InOrder free) :
    Continues s.kvCacheManager s'.kvCacheManager := by
  rcases h.lookup with heq | ⟨result, hok⟩
  · rw [heq]
    exact .refl horder
  · exact .getComputedBlocks horder hok

theorem Outcome.continues (h : Outcome l l') (hb : Batch l) :
    Continues l.scheduler.kvCacheManager l'.scheduler.kvCacheManager := by
  have horder := hb.partition.order
  cases h with
  | rest hphase => exact .refl horder
  | enter hphase => exact .refl horder
  | pass hphase hr =>
      rw [disableSpeculation_frame]
      exact .refl horder
  | takeUp hphase hr hn hbudget hspec hlen =>
      rw [disableSpeculation_frame]
      exact .refl horder
  | commit hphase hok =>
      rw [commitRunning_request]
      refine .allocateSlots horder (fun _ hnone => ?_) hok
      cases hnone
  | preempt hphase hok hvictim hstatus hfree hbatch hinputs => exact .free horder hfree
  | close hphase hs =>
      rcases hs with rfl | ⟨r, hs⟩
      · exact .refl horder
      · exact hs.continues horder
  | setAside hphase hs hfree hpop =>
      have hfirst := hs.continues horder
      rcases hfree with rfl | hfree
      · exact hfirst
      · exact hfirst.trans (.free hfirst.order hfree)
  | lookUp hphase hs hpreempted hhits hexternal hrunning hn hbudget hlen =>
      exact hs.continues horder
  | decline hphase hok => exact .refl horder
  | accept hphase hok hpop hstatus hconnector =>
      obtain ⟨-, -, hhits⟩ := hb.admitting _ _ _ _ _ _ hphase
      exact .allocateSlots horder (fun blocks heq => Option.some.inj heq ▸ hhits) hok

theorem Loops.continues (hloops : Loops l l') (hb : Batch l) :
    Continues l.scheduler.kvCacheManager l'.scheduler.kvCacheManager :=
  (hloops.invariant (P := fun l' => Batch l' ∧
      Continues l.scheduler.kvCacheManager l'.scheduler.kvCacheManager)
    ⟨hb, .refl hb.partition.order⟩ fun _ _ hstep h =>
      ⟨hstep.batch h.1, h.2.trans (hstep.continues h.1)⟩).2

end StepState

namespace Scheduler

variable {s s' : Scheduler H}

theorem schedule_continues {output : SchedulerOutput} (h : s.Settled)
    (hok : s.schedule = .ok (output, s')) : Continues s.kvCacheManager s'.kvCacheManager := by
  obtain ⟨l, hloops, -, hfinishes⟩ := schedule_ok hok
  rw [hfinishes.state, StepState.restoreSkippedWaiting_frame]
  exact hloops.continues (StepState.batch_start h.partition)

theorem updateFromOutput_continues {schedulerOutput : SchedulerOutput}
    {modelRunnerOutput : ModelRunnerOutput} {outputs : Dict ℕ (List EngineCoreOutput)}
    (h : s.Settled)
    (hok : s.updateFromOutput schedulerOutput modelRunnerOutput = .ok (outputs, s')) :
    Continues s.kvCacheManager s'.kvCacheManager := by
  obtain ⟨u, s₁, hall, hshed, -, rfl⟩ := updateFromOutput_ok hok
  have hfold : Continues s.kvCacheManager u.scheduler.kvCacheManager :=
    UpdateState.updateAll_invariant
      (P := fun u _ => Continues s.kvCacheManager u.scheduler.kvCacheManager)
      hall (.refl h.partition.order) fun _ _ _ _ hone hfold => by
        cases hone with
        | skip hscheduled => exact hfold
        | goOn hscheduled hfolds hkept hpooled houtputs => exact hfold
        | stop hscheduled hfolds hkept houtput hfree hconnector =>
            exact hfold.trans (.free hfold.order hfree)
  exact (shedAll_ok (P := fun m => Continues s.kvCacheManager m) hshed hfold
    fun _ _ _ _ hok hfold => hfold.trans (.removeSkippedBlocks hfold.order hok)).1

theorem finishRequests_continues {requestIds : List RequestId} {finishedStatus : RequestStatus}
    (h : s.Settled) (hok : s.finishRequests requestIds finishedStatus = .ok s') :
    Continues s.kvCacheManager s'.kvCacheManager := by
  obtain ⟨-, hall⟩ := finishRequests_ok hok
  refine finishAll_invariant (P := fun s' => Continues s.kvCacheManager s'.kvCacheManager) hall
    (.refl h.partition.order) fun _ _ _ _ hone hfold => ?_
  rcases finishOne_ok hone with ⟨-, rfl⟩ | ⟨-, _, _, _, _, _, -, hfree, -, rfl⟩
  · exact hfold
  · exact hfold.trans (.free hfold.order hfree)

theorem Step.continues {event : Event} (hstep : Step s event s') (h : s.Settled) :
    Continues s.kvCacheManager s'.kvCacheManager := by
  cases hstep with
  | addRequest hrequest hfresh =>
      rw [addRequest_eq]
      exact .refl h.partition.order
  | finishRequests hok => exact finishRequests_continues h hok
  | schedule hok => exact schedule_continues h hok
  | updateFromOutput hok => exact updateFromOutput_continues h hok
  | resetPrefixCache => exact .resetPrefixCache h.partition.order
  | grammar hcompiling => exact .refl h.partition.order
  | sharedStore hconnector => exact .refl h.partition.order

/-- A run stays with the layout and the policy it begins with. -/
theorem run_continues {events : List Event} (hrun : Run Step s events s') (h : s.Settled) :
    Continues s.kvCacheManager s'.kvCacheManager :=
  (hrun.invariant (P := fun _ s' => Settled s' ∧ Continues s.kvCacheManager s'.kvCacheManager)
    ⟨h, .refl h.partition.order⟩ fun _ _ _ _ _ ih hstep =>
      ⟨hstep.settled ih.1, ih.2.trans (hstep.continues ih.1)⟩).2

end Scheduler

/-! ### The requests -/

namespace Request

variable {hasher : BlockHasher H} {request request' : Request H}

omit [DecidableEq H]

theorem Hashed.reworks (h : Hashed hasher request) (hreworks : request.Reworks request') :
    Hashed hasher request' := by
  rw [hreworks.eq]
  exact ⟨h.blockHasher, h.blockHashes⟩

/-- A property that no call of the scheduler takes away: it does not depend on where a
request stands, and a token that is appended keeps it. -/
structure Lasting (P : Request H → Prop) : Prop where
  stands : ∀ {request request' : Request H}, P request → request' = { request with
    status := request'.status
    stopReason := request'.stopReason
    numComputedTokens := request'.numComputedTokens
    specTokenIds := request'.specTokenIds
    isPrefillChunk := request'.isPrefillChunk
    numPreemptions := request'.numPreemptions
    numCachedTokens := request'.numCachedTokens
    structuredOutputRequest := request'.structuredOutputRequest } → P request'
  append : ∀ {request : Request H} (tokenId : TokenId), P request →
    P (request.appendOutputTokenIds tokenId)

variable {P : Request H → Prop}

theorem Lasting.appendAll (hP : Lasting P) (h : P request) (tokenIds : List TokenId) :
    P (request.appendAll tokenIds) := by
  induction tokenIds generalizing request with
  | nil => exact h
  | cons tokenId tokenIds ih => exact ih (hP.append tokenId h)

theorem Lasting.folds {kept : List TokenId} {stopped : Bool} (hP : Lasting P) (h : P request)
    (hfolds : Folds request request' kept stopped) : P request' :=
  hP.stands (hP.appendAll h kept) (by rw [hfolds.eq]; rfl)

theorem Lasting.reworks (hP : Lasting P) (h : P request) (hreworks : request.Reworks request') :
    P request' :=
  hP.stands h (by rw [hreworks.eq])

theorem Lasting.update (_ : Lasting P) {table : RequestId → Request H} {r r' : RequestId}
    (h : P (table r')) (hr : r' = r → P request) : P (Function.update table r request r') := by
  by_cases heq : r' = r
  · subst heq
    rw [Function.update_self]
    exact hr rfl
  · rwa [Function.update_of_ne heq]

/-- The hashes of a request under the policy of its manager: the chain over its full
blocks, or none. -/
def HashedAs : Option (BlockHasher H) → Request H → Prop
  | none, request => request.blockHasher = none ∧ request.blockHashes = []
  | some hasher, request => Hashed hasher request

theorem HashedAs.lasting (policy : Option (BlockHasher H)) : Lasting (HashedAs policy) := by
  cases policy with
  | none =>
      refine ⟨fun h heq => ?_, fun tokenId h => ?_⟩
      · rw [heq]
        exact ⟨h.1, h.2⟩
      · refine ⟨?_, ?_⟩
        · rw [appendOutputTokenIds, updateBlockHashes_frame]
          exact h.1
        · unfold appendOutputTokenIds updateBlockHashes
          dsimp only
          rw [h.1]
          exact h.2
  | some hasher =>
      refine ⟨fun h heq => ?_, fun tokenId h => h.appendOutputTokenIds tokenId⟩
      rw [heq]
      exact ⟨h.blockHasher, h.blockHashes⟩

end Request

namespace Scheduler

variable {s s' : Scheduler H}

omit [DecidableEq H] in
theorem init_blockHashes {args : RequestArgs} {request : Request H}
    (h : Request.init args = .ok request) : request.blockHashes = [] := by
  unfold Request.init at h
  split at h
  · cases h
  split at h
  · cases h
  rw [← Except.ok.inj h]

omit [DecidableEq H] in
theorem init_blockHasher_none {args : RequestArgs} {request : Request H}
    (h : Request.init args = .ok request) : request.blockHasher = none := by
  unfold Request.init at h
  split at h
  · cases h
  split at h
  · cases h
  rw [← Except.ok.inj h]

/-- A property of a known request that lasts is kept by every call. -/
theorem Step.lasting {event : Event} (hstep : Step s event s') {P : Request H → Prop}
    (hP : Request.Lasting P) {r : RequestId} (hr : event.added ≠ some r) (h : P (s.request r)) :
    P (s'.request r) := by
  cases hstep with
  | @addRequest args request hrequest hfresh =>
      obtain ⟨hid, -⟩ := Request.init_ok hrequest
      rw [addRequest_eq]
      refine hP.update h fun heq => ?_
      exact absurd (by rw [heq, hid]; rfl) hr
  | finishRequests hok =>
      obtain ⟨-, hall⟩ := finishRequests_ok hok
      refine finishAll_invariant (P := fun s' => P (s'.request r)) hall h
        fun s s' r' _ hone h => ?_
      rcases finishOne_ok hone with ⟨-, rfl⟩ | ⟨-, -, -, -, -, -, -, -, -, rfl⟩
      · exact h
      · exact hP.update h fun heq => by
          subst heq
          exact hP.stands h rfl
  | schedule hok =>
      obtain ⟨l, hloops, -, hfinishes⟩ := schedule_ok hok
      have hl := hP.reworks h (hloops.reworks r)
      rw [hfinishes.state]
      show P (StepState.advancedTable ..)
      unfold StepState.advancedTable
      split
      · exact hl
      · exact hP.stands hl rfl
  | @updateFromOutput _ schedulerOutput modelRunnerOutput outputs hok =>
      obtain ⟨u, s₁, hall, hshed, -, rfl⟩ := updateFromOutput_ok hok
      obtain ⟨-, heq⟩ := shedAll_ok (P := fun _ => True) hshed trivial fun _ _ _ _ _ _ => trivial
      have hu : P (u.scheduler.request r) := by
        refine UpdateState.updateAll_invariant (P := fun u _ => P (u.scheduler.request r))
          hall h fun u u' r' _ hone h => ?_
        have hroll : r = r' → P (UpdateState.rolledBack (u.scheduler.request r') schedulerOutput
            modelRunnerOutput r') := fun heq => by
          subst heq
          exact hP.stands h rfl
        cases hone with
        | skip hscheduled => exact h
        | goOn hscheduled hfolds hkept hpooled houtputs =>
            exact hP.update h fun heq => hP.folds (hroll heq) hfolds
        | stop hscheduled hfolds hkept houtput hfree hconnector =>
            exact hP.update h fun heq => hP.folds (hroll heq) hfolds
      rw [heq]
      show P (draftedTable ..)
      rw [draftedTable_frame]
      exact hP.stands hu rfl
  | resetPrefixCache => exact h
  | grammar hcompiling =>
      refine hP.update h fun heq => ?_
      subst heq
      exact hP.stands h rfl
  | sharedStore hconnector => exact h

/-- A request is hashed when it is added. -/
theorem Step.hashed_added {event : Event} (hstep : Step s event s') {r : RequestId}
    (hr : event.added = some r) :
    (s'.request r).HashedAs s.kvCacheManager.blockHasher := by
  cases hstep with
  | @addRequest args request hrequest hfresh =>
      obtain ⟨hid, -⟩ := Request.init_ok hrequest
      obtain rfl : args.requestId = r := Option.some.inj hr
      rw [addRequest_eq]
      show (Function.update s.request request.requestId (s.stored request) _).HashedAs _
      rw [← hid, Function.update_self]
      unfold stored
      cases hpolicy : s.kvCacheManager.blockHasher with
      | none => exact ⟨init_blockHasher_none hrequest, init_blockHashes hrequest⟩
      | some hasher => exact Request.Hashed.attachBlockHasher (init_blockHashes hrequest)
  | finishRequests => cases hr
  | schedule => cases hr
  | updateFromOutput => cases hr
  | resetPrefixCache => cases hr
  | grammar => cases hr
  | sharedStore => cases hr

/-- In every state a run reaches, a known request is hashed under the one policy of the
manager. -/
theorem run_hashedAs {s₀ : Scheduler H} {events : List Event} (hrun : Run Step s₀ events s)
    (hsettled : s₀.Settled) (hstart : s₀.requests = []) :
    s.kvCacheManager.blockHasher = s₀.kvCacheManager.blockHasher ∧
      ∀ r ∈ s.requests, (s.request r).HashedAs s₀.kvCacheManager.blockHasher := by
  refine (hrun.invariant (P := fun _ s => s.Settled ∧
    s.kvCacheManager.blockHasher = s₀.kvCacheManager.blockHasher ∧
      ∀ r ∈ s.requests, (s.request r).HashedAs s₀.kvCacheManager.blockHasher)
    ⟨hsettled, rfl, ?_⟩ ?_).2
  · rw [hstart]
    exact fun r hr => absurd hr List.not_mem_nil
  intro events s event s' _ ⟨hs, hpolicy, hall⟩ hstep
  refine ⟨hstep.settled hs, ?_, fun r hr => ?_⟩
  · rw [(hstep.continues hs).setup.blockHasher, hpolicy]
  · by_cases hadded : event.added = some r
    · exact hpolicy ▸ hstep.hashed_added hadded
    · exact hstep.lasting (Request.HashedAs.lasting _) hadded
        (hall r ((hstep.known hr).resolve_right hadded))

/-- The hashes of a known request are at any time the chain over its full blocks. -/
theorem run_hashed {s₀ : Scheduler H} {events : List Event} (hrun : Run Step s₀ events s)
    (hsettled : s₀.Settled) (hstart : s₀.requests = []) {hasher : BlockHasher H}
    (hhasher : s₀.kvCacheManager.blockHasher = some hasher) :
    ∀ r ∈ s.requests, (s.request r).Hashed hasher := by
  have hall := (run_hashedAs hrun hsettled hstart).2
  rw [hhasher] at hall
  exact hall

/-! ### Two requests of one scheduler -/

omit [DecidableEq H] in
theorem init_blockHasher {config : SchedulerConfig} {kvCacheConfig : KVCacheConfig}
    {hashFn : HashInput H → H} {seed : ℕ} {connector : Option (SimSharedStoreConnector H)}
    (hinit : init config kvCacheConfig true hashFn seed connector = .ok s) :
    s.kvCacheManager.blockHasher =
      some ⟨kvCacheConfig.blockSize, kvCacheConfig.blockSize_pos, hashFn, seed⟩ := by
  unfold init at hinit
  split at hinit
  · cases hinit
  rename_i kv hkv
  split at hinit
  · cases hinit
  obtain rfl := Except.ok.inj hinit
  show kv.blockHasher = _
  unfold KVCacheManager.init at hkv
  split at hkv
  · cases hkv
  split at hkv
  · cases hkv
  obtain rfl := Except.ok.inj hkv
  rfl

/-- With a hash function without collisions, the hashes two requests have at an
index, each in some state that a run reaches, say that nothing tells the two apart
up to there, if and only if they are not confused. -/
theorem hashes_agree_iff {config : SchedulerConfig} {kvCacheConfig : KVCacheConfig}
    {hashFn : HashInput H → H} {seed : ℕ} {connector : Option (SimSharedStoreConnector H)}
    {s₀ : Scheduler H} {events events' : List Event} (hinjective : Function.Injective hashFn)
    (hinit : init config kvCacheConfig true hashFn seed connector = .ok s₀)
    (hrun : Run Step s₀ events s) (hrun' : Run Step s₀ events' s') {a b : RequestId}
    (ha : a ∈ s.requests) (hb : b ∈ s'.requests) {i : ℕ}
    (hi : i < (s.request a).blockHashes.length) (hi' : i < (s'.request b).blockHashes.length) :
    ((s.request a).blockHashes[i]? = (s'.request b).blockHashes[i]? ↔
        (s.request a).AgreeTo kvCacheConfig.blockSize i (s'.request b)) ↔
      ¬ (s.request a).Confused kvCacheConfig.blockSize i (s'.request b) := by
  obtain ⟨hsettled, hstart, -⟩ := init_settled hinit
  have hpolicy := init_blockHasher hinit
  exact Request.blockHashes_agree_iff hinjective (run_hashed hrun hsettled hstart hpolicy a ha)
    (run_hashed hrun' hsettled hstart hpolicy b hb) hi hi'

def adapterArgs : RequestArgs :=
  { RequestArgs.text 1 [1, 2, 3, 4, 5] 8 with loraRequest := some ⟨"t", 1⟩ }

def tenantArgs : RequestArgs :=
  { RequestArgs.text 2 [1, 2, 3, 4, 5] 8 with cacheSalt := some "t" }

/-- The two are admitted in one step. -/
def tenantRun : Except PyError (Scheduler Digest × Request Digest × Request Digest ×
    SchedulerOutput × Scheduler Digest) := do
  let s₀ ← init { shortConfig .fcfs with maxLoras := some 1 } (shortKVConfig 8) true Digest.hash 0
    none
  let first ← Request.init adapterArgs
  let second ← Request.init tenantArgs
  let (output, s₁) ← ((s₀.addRequest first).addRequest second).schedule
  return (s₀, first, second, output, s₁)

theorem tenantRun_reaches {s₀ s₁ : Scheduler Digest} {first second : Request Digest}
    {output : SchedulerOutput} (h : tenantRun = .ok (s₀, first, second, output, s₁)) :
    init { shortConfig .fcfs with maxLoras := some 1 } (shortKVConfig 8) true Digest.hash 0 none =
        .ok s₀ ∧
      Run Step s₀ [.addRequest adapterArgs, .addRequest tenantArgs, .schedule output] s₁ := by
  unfold tenantRun at h
  obtain ⟨_, hinit, h⟩ := except_bind_iff.mp h
  obtain ⟨_, hfirst, h⟩ := except_bind_iff.mp h
  obtain ⟨_, hsecond, h⟩ := except_bind_iff.mp h
  obtain ⟨⟨_, _⟩, hschedule, h⟩ := except_bind_iff.mp h
  cases h
  obtain ⟨-, hnone, -⟩ := init_settled hinit
  have hid : first.requestId = 1 := (Request.init_ok hfirst).1
  have hfresh : adapterArgs.requestId ∉ s₀.requests := by
    rw [hnone]
    exact List.not_mem_nil
  have hfresh' : tenantArgs.requestId ∉ (s₀.addRequest first).requests := by
    rw [addRequest_eq, hid, hnone]
    exact List.not_mem_cons_of_ne_of_not_mem (by decide) List.not_mem_nil
  exact ⟨hinit, ((Run.nil.snoc (Step.addRequest hfirst hfresh)).snoc
    (Step.addRequest hsecond hfresh')).snoc (Step.schedule hschedule)⟩

/-- At their second block the two are told apart, as they should be. -/
theorem hashes_agree_second : ∃ s : Scheduler Digest,
    ((s.request 1).blockHashes[1]? = (s.request 2).blockHashes[1]? ↔
      (s.request 1).AgreeTo 2 1 (s.request 2)) ∧
    (s.request 1).blockHashes[1]? ≠ (s.request 2).blockHashes[1]? := by
  obtain ⟨⟨s₀, first, second, output, s⟩, hrun, hcheck⟩ :=
    exists_of_okAnd (x := tenantRun) (p := fun (_, _, _, _, s) =>
      decide (1 ∈ s.requests ∧ 2 ∈ s.requests ∧ 1 < (s.request 1).blockHashes.length ∧
        1 < (s.request 2).blockHashes.length) &&
      decide ((s.request 1).blockHashes[1]? ≠ (s.request 2).blockHashes[1]? ∧
        (s.request 1).adapter ≠ (s.request 2).adapter)) (by decide +kernel)
  simp only [Bool.and_eq_true, decide_eq_true_eq] at hcheck
  obtain ⟨⟨hfirst, hsecond, hi, hi'⟩, hne, hadapters⟩ := hcheck
  obtain ⟨hinit, hsteps⟩ := tenantRun_reaches hrun
  refine ⟨s, ?_, hne⟩
  refine (hashes_agree_iff Digest.hash_injective hinit hsteps hsteps hfirst hsecond hi hi').mpr ?_
  rintro ⟨-, -, ⟨hadapter, -, -⟩ | ⟨hzero, -, -⟩⟩
  · exact hadapters hadapter
  · cases hzero

/-- The first blocks of the two have one hash, though the one is of an adapter and
the other of a tenant; the second request to be admitted has the first block of the
first in its table. -/
theorem hashes_confused : ∃ (s₀ s : Scheduler Digest) (events : List Event) (b : BlockId),
    init { shortConfig .fcfs with maxLoras := some 1 } (shortKVConfig 8) true Digest.hash 0 none =
        .ok s₀ ∧
      Run Step s₀ events s ∧ 1 ∈ s.requests ∧ 2 ∈ s.requests ∧
      (s.request 1).blockHashes[0]? = (s.request 2).blockHashes[0]? ∧
      (s.request 1).adapter = some "t" ∧ (s.request 2).adapter = none ∧
      (s.request 1).cacheSalt = none ∧ (s.request 2).cacheSalt = some "t" ∧
      ¬ (s.request 1).AgreeTo 2 0 (s.request 2) ∧
      (s.kvCacheManager.getBlocks 1).map (·.head?) = [some b] ∧
      (s.kvCacheManager.getBlocks 2).map (·.head?) = [some b] := by
  obtain ⟨⟨s₀, first, second, output, s⟩, hrun, hcheck⟩ :=
    exists_of_okAnd (x := tenantRun) (p := fun (_, _, _, _, s) =>
      decide (1 ∈ s.requests ∧ 2 ∈ s.requests) &&
      decide ((s.request 1).blockHashes[0]? = (s.request 2).blockHashes[0]?) &&
      decide ((s.request 1).adapter = some "t" ∧ (s.request 2).adapter = none ∧
        (s.request 1).cacheSalt = none ∧ (s.request 2).cacheSalt = some "t") &&
      decide ((s.kvCacheManager.getBlocks 1).map (·.head?) = [some 0] ∧
        (s.kvCacheManager.getBlocks 2).map (·.head?) = [some 0])) (by decide +kernel)
  simp only [Bool.and_eq_true, decide_eq_true_eq] at hcheck
  obtain ⟨⟨⟨⟨hfirst, hsecond⟩, hhash⟩, hadapter, hadapter', hsalt, hsalt'⟩, hblock, hblock'⟩ :=
    hcheck
  obtain ⟨hinit, hsteps⟩ := tenantRun_reaches hrun
  refine ⟨s₀, s, _, 0, hinit, hsteps, hfirst, hsecond, hhash, hadapter, hadapter', hsalt, hsalt',
    fun h => ?_, hblock, hblock'⟩
  have hsame := h.adapter
  rw [hadapter, hadapter'] at hsame
  cases hsame

end Scheduler

end Pvllm
