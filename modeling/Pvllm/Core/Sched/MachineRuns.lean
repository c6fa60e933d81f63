import Pvllm.Core.Sched.Machine
import Pvllm.Core.Sched.Coherence
import Pvllm.Core.Sched.Loads
import Pvllm.Core.Sched.WholePrompts

/-!
What requests are served from, over runs of the machine.

A machine stays `Truthful` over every run whose calls preempt nobody of their own batch, and under
fcfs no call does. There each request is `Served` from slots that were written for the very tokens
and keys it has, by whatever request they were computed. Under the priority policy this is lost:
a request that is preempted out of its batch leaves blocks published that nothing has written
(`run_unserved`). The memory itself restrains no run of the engine (`exists_run`).
-/

namespace Pvllm

variable {H : Type} [DecidableEq H]

open KVCacheManager (Continues Faithful Gives)
open UpdateState (generatedFor)

/-! ### The calls besides `schedule` -/

namespace Scheduler

variable {s s' : Scheduler H} {blockSize position : ℕ}

theorem Step.unpublished {event : Event} (hstep : Step s event s')
    (hanytime : event.anytime = true) (h : s.Settled) :
    ∀ c key, (s'.kvCacheManager.blockPool.blocks c).blockHash = some key →
      (s.kvCacheManager.blockPool.blocks c).blockHash = some key := by
  cases hstep with
  | addRequest hrequest hfresh =>
      rw [addRequest_eq]
      exact fun _ _ hkey => hkey
  | finishRequests hok =>
      obtain ⟨hfinished, hall⟩ := finishRequests_ok hok
      refine (finishAll_invariant (P := fun s' => s'.Settled ∧ ∀ c key,
        (s'.kvCacheManager.blockPool.blocks c).blockHash = some key →
          (s.kvCacheManager.blockPool.blocks c).blockHash = some key) hall
        ⟨h, fun _ _ hkey => hkey⟩ fun s₁ s₂ r _ hone hs => ⟨hs.1.finishOne hfinished hone, ?_⟩).2
      rcases finishOne_ok hone with ⟨-, rfl⟩ | ⟨-, _, _, _, _, _, -, hfree, -, rfl⟩
      · exact hs.2
      · obtain ⟨free, horder⟩ := hs.1.partition.order
        exact fun c key hkey => hs.2 c key ((Gives.of_free horder hfree).hashes c key hkey)
  | schedule hok => cases hanytime
  | updateFromOutput hok => cases hanytime
  | resetPrefixCache =>
      obtain ⟨free, horder⟩ := h.partition.order
      exact (Gives.of_resetPrefixCache horder).hashes
  | grammar hcompiling => exact fun _ _ hkey => hkey
  | sharedStore hconnector => exact fun _ _ hkey => hkey

/-- Such a call gives back the tables of the requests that do not run after it. -/
theorem Step.gives {event : Event} (hstep : Step s event s') (hanytime : event.anytime = true)
    (h : s.Settled) : Gives (· ∉ s'.running) s.kvCacheManager s'.kvCacheManager := by
  obtain ⟨free, horder⟩ := h.partition.order
  refine .of_tables horder (hstep.continues h) (hstep.unpublished hanytime h)
    (fun r hr => (hstep.settled h).partition.idle r hr) fun r hr => ?_
  exact hstep.tables hanytime h r (not_not.mp hr)

theorem updateFromOutput_gives {schedulerOutput : SchedulerOutput}
    {modelRunnerOutput : ModelRunnerOutput} {outputs : Dict ℕ (List EngineCoreOutput)}
    (h : s.Settled) (hok : s.updateFromOutput schedulerOutput modelRunnerOutput =
      .ok (outputs, s')) : Gives (· ∉ s'.running) s.kvCacheManager s'.kvCacheManager := by
  obtain ⟨u, s₁, hall, hshed, -, rfl⟩ := updateFromOutput_ok hok
  obtain ⟨husettled, hcontinues, htables⟩ := updateAll_tables h hall
  have hfold : ∀ c key, (u.scheduler.kvCacheManager.blockPool.blocks c).blockHash = some key →
      (s.kvCacheManager.blockPool.blocks c).blockHash = some key := by
    refine (UpdateState.updateAll_invariant
      (P := fun u _ => (∃ free, u.scheduler.kvCacheManager.InOrder free) ∧ ∀ c key,
        (u.scheduler.kvCacheManager.blockPool.blocks c).blockHash = some key →
          (s.kvCacheManager.blockPool.blocks c).blockHash = some key)
      hall ⟨h.partition.order, fun _ _ hkey => hkey⟩ fun _ _ _ _ hone hfold => ?_).2
    cases hone with
    | skip hscheduled => exact hfold
    | goOn hscheduled hfolds hkept hpooled houtputs => exact hfold
    | stop hscheduled hfolds hkept houtput hfree hconnector =>
        obtain ⟨⟨free, horder⟩, hbefore⟩ := hfold
        exact ⟨(Continues.free ⟨free, horder⟩ hfree).order, fun c key hkey =>
          hbefore c key ((Gives.of_free horder hfree).hashes c key hkey)⟩
  obtain ⟨free, horder⟩ := h.partition.order
  have hfirst : Gives (· ∉ u.stillRunning) s.kvCacheManager u.scheduler.kvCacheManager := by
    refine .of_tables horder hcontinues hfold (fun r hr => husettled.partition.idle r ?_)
      fun r hr => htables r (not_not.mp hr)
    rwa [List.append_nil]
  refine (shedAll_ok (P := fun m => (∃ free, m.InOrder free) ∧
    Gives (· ∉ u.stillRunning) s.kvCacheManager m) hshed ⟨hcontinues.order, hfirst⟩
    fun _ _ _ _ hok hfold => ?_).1.2
  obtain ⟨⟨free, horder⟩, hgives⟩ := hfold
  exact ⟨(Continues.removeSkippedBlocks ⟨free, horder⟩ hok).order,
    hgives.sheds (.of_removeSkippedBlocks horder hok)⟩

end Scheduler

/-! ### The entries of a request that goes on -/

namespace Request

variable {request request' : Request H} {drafts : List TokenId} {blockSize position : ℕ}

omit [DecidableEq H]

theorem kvEntry_drafted (modelRunnerOutput : ModelRunnerOutput) (r : RequestId) :
    (Scheduler.drafted modelRunnerOutput r request).kvEntry drafts blockSize position =
      request.kvEntry drafts blockSize position := by
  unfold Scheduler.drafted
  split <;> rfl

theorem kvEntry_folds {kept : List TokenId} {stopped : Bool}
    (hfolds : Folds request request' kept stopped) (hdrafts : kept.dropLast <+: drafts)
    (hposition : position < request.numTokens + (kept.length - 1)) :
    request'.kvEntry [] blockSize position = request.kvEntry drafts blockSize position := by
  refine kvEntry_appended hdrafts ?_ (fun start stop => ?_) hposition
  · rw [allTokenIds, hfolds.promptTokenIds_eq, hfolds.outputTokenIds_eq, ← List.append_assoc]
    rfl
  · rw [hfolds.eq, appendAll_frame]
    rfl

end Request

namespace Engine

variable {s s' : Scheduler H} {schedulerOutput : SchedulerOutput}
  {modelRunnerOutput : ModelRunnerOutput} {request : Request H} {r : RequestId}

/-- A request that goes on stands for what it did, as far as it is computed. -/
theorem Paced.kvEntry_goesOn {blockSize position : ℕ} (h : Paced ⟨s, some schedulerOutput⟩)
    (hanswers : Answers s schedulerOutput modelRunnerOutput)
    (hverifies : schedulerOutput.Verifies modelRunnerOutput) (hr : r ∈ s.running)
    (hgoes : GoesOn schedulerOutput modelRunnerOutput r (s.request r) request)
    (hposition : position < request.numComputedTokens) :
    request.kvEntry [] blockSize position = (s.request r).kvEntry
      (schedulerOutput.scheduledSpecDecodeTokens.findD r []) blockSize position := by
  cases hgoes with
  | passed hscheduled =>
      -- outside the step, it is behind its tokens
      have hnone : schedulerOutput.numScheduledTokens.find r = none := by
        by_contra hne
        obtain ⟨n, hfind⟩ := Option.ne_none_iff_exists'.mp hne
        have hpos := (h.flying r hr n hfind).1
        rw [Dict.findD, hfind, Option.getD_some] at hscheduled
        omega
      exact (Request.kvEntry_known (hposition.trans (h.steady r hr hnone).behind)).symm
  | @folded request kept hscheduled hfolds hkept hpooled =>
      have hkey : r ∈ schedulerOutput.numScheduledTokens.keys := by
        by_contra hkey
        exact hscheduled (Dict.findD_of_not_mem hkey 0)
      obtain ⟨n, hfind⟩ := (Dict.mem_keys_iff ..).mp hkey
      have hahead : (s.request r).numComputedTokens - (s.request r).numTokens =
          (schedulerOutput.scheduledSpecDecodeTokens.findD r []).length :=
        (h.flying r hr n hfind).2.ahead
      -- all that came back is kept: a pooling request generates nothing
      have hgenerated : kept = generatedFor modelRunnerOutput r := by
        rw [hkept]
        split
        · rename_i hpools
          exact ((hanswers.scheduled r hr hkey).pooling hpools).1.symm
        · rfl
      have hback : request.numComputedTokens = (s.request r).numComputedTokens -
          schedulerOutput.rejectedDrafts modelRunnerOutput r := hfolds.numComputedTokens_eq
      unfold SchedulerOutput.rejectedDrafts at hback
      rw [← hgenerated] at hback
      show _ = (UpdateState.rolledBack (s.request r) schedulerOutput modelRunnerOutput r).kvEntry
        (schedulerOutput.scheduledSpecDecodeTokens.findD r []) blockSize position
      refine Request.kvEntry_folds hfolds (hgenerated ▸ hverifies r hkey) ?_
      show position < (s.request r).numTokens + (kept.length - 1)
      omega

/-- A request that goes on keeps what it has computed, up to its tokens. -/
theorem Paced.computed_goesOn (h : Paced ⟨s, some schedulerOutput⟩) (hr : r ∈ s.running)
    (hgoes : GoesOn schedulerOutput modelRunnerOutput r (s.request r) request) :
    request.numComputedTokens ≤ (s.request r).numComputedTokens ∧
      min (s.request r).numComputedTokens (s.request r).numTokens ≤
        request.numComputedTokens := by
  cases hgoes with
  | passed hscheduled => exact ⟨le_rfl, Nat.min_le_left ..⟩
  | folded hscheduled hfolds hkept hpooled =>
      have hback : request.numComputedTokens = (s.request r).numComputedTokens -
          schedulerOutput.rejectedDrafts modelRunnerOutput r := hfolds.numComputedTokens_eq
      have hkey : r ∈ schedulerOutput.numScheduledTokens.keys := by
        by_contra hkey
        exact hscheduled (Dict.findD_of_not_mem hkey 0)
      obtain ⟨n, hfind⟩ := (Dict.mem_keys_iff ..).mp hkey
      have hahead : (s.request r).numComputedTokens - (s.request r).numTokens =
          (schedulerOutput.scheduledSpecDecodeTokens.findD r []).length :=
        (h.flying r hr n hfind).2.ahead
      unfold SchedulerOutput.rejectedDrafts at hback
      omega

end Engine

/-! ### A step run -/

namespace SchedulerOutput

omit [DecidableEq H]

variable (output : SchedulerOutput) (s : Scheduler H)

instance (modelRunnerOutput : ModelRunnerOutput) :
    Decidable (output.Verifies modelRunnerOutput) :=
  inferInstanceAs (Decidable (∀ r ∈ output.numScheduledTokens.keys, _ <+: _))

/-- The entries a step writes into a slot, in the order of its requests. -/
def written (b : BlockId) (offset : ℕ) : List KVEntry :=
  output.sentFrom.flatMap fun sent =>
    (output.numScheduledTokens.find sent.1).toList.flatMap fun n =>
      (s.kvCacheManager.getBlocks sent.1).flatMap fun table =>
        (List.range table.length).filterMap fun i =>
          let position := i * s.kvCacheManager.kvCacheConfig.blockSize + offset
          if table[i]? = some b ∧ offset < s.kvCacheManager.kvCacheConfig.blockSize ∧
              sent.2 ≤ position ∧ position < sent.2 + n then
            some ((s.request sent.1).kvEntry (output.scheduledSpecDecodeTokens.findD sent.1 [])
              s.kvCacheManager.kvCacheConfig.blockSize position)
          else
            none

theorem mem_written {b : BlockId} {offset : ℕ} {e : KVEntry} :
    e ∈ output.written s b offset ↔ output.Writes s b offset e := by
  unfold written Writes
  simp only [List.mem_flatMap, Option.mem_toList, List.mem_filterMap, List.mem_range]
  constructor
  · rintro ⟨⟨r, start⟩, hsent, n, hfind, table, htable, i, -, hwritten⟩
    split at hwritten
    · rename_i hslot
      obtain ⟨hb, hoffset, hge, hlt⟩ := hslot
      exact ⟨r, start, n, hsent, hfind, table, htable, i, hb, hoffset, hge, hlt,
        (Option.some.inj hwritten).symm⟩
    · cases hwritten
  · rintro ⟨r, start, n, hsent, hfind, table, htable, i, hb, hoffset, hge, hlt, rfl⟩
    refine ⟨(r, start), hsent, n, hfind, table, htable, i, ?_, ?_⟩
    · exact (List.getElem?_eq_some_iff.mp hb).1
    · rw [if_pos ⟨hb, hoffset, hge, hlt⟩]

/-- A step run on a memory: of the entries for one slot the first is kept. -/
def execute (memory : KVMemory) : KVMemory := fun b offset =>
  (output.written s b offset).head?.or (memory b offset)

theorem executes_execute (memory : KVMemory) :
    output.Executes s memory (output.execute s memory) := by
  intro b offset
  cases hhead : (output.written s b offset).head? with
  | none =>
      have hnone := List.head?_eq_none_iff.mp hhead
      refine Or.inr ⟨fun e hwrites => ?_, ?_⟩
      · have hmem := (mem_written ..).mpr hwrites
        rw [hnone] at hmem
        cases hmem
      · rw [execute, hhead, Option.none_or]
  | some e =>
      refine Or.inl ⟨e, (mem_written ..).mp (List.mem_of_mem_head? hhead), ?_⟩
      rw [execute, hhead, Option.some_or]

end SchedulerOutput

/-! ### The machine -/

namespace Machine

variable {s s' : Scheduler H} {memory memory' : KVMemory} {blockSize : ℕ}
  {policy : Option (BlockHasher H)}

/-- What is given back leaves what is read of the requests that run on. -/
theorem Truthful.gives {inFlight : Option SchedulerOutput}
    (h : Truthful blockSize policy ⟨⟨s, inFlight⟩, memory⟩) (hsettled : s.Settled)
    (hgives : Gives (· ∉ s'.running) s.kvCacheManager s'.kvCacheManager)
    (hrunning : ∀ r ∈ s'.running, r ∈ s.running) :
    Faithful blockSize policy (fun b offset e => memory b offset = some e)
      (fun r position => (s.request r).kvEntry (Engine.draftsFor ⟨s, inFlight⟩ r) blockSize
        position)
      (fun r => if r ∈ s'.running then (s.request r).numComputedTokens else 0)
      s'.kvCacheManager := by
  obtain ⟨free, horder⟩ := hsettled.partition.order
  refine Faithful.gives h horder hgives (fun r hr => if_neg hr) fun r hr => ?_
  have hr := not_not.mp hr
  dsimp only
  rw [if_pos hr, if_pos (hrunning r hr)]

theorem Truthful.call {event : Event} {inFlight : Option SchedulerOutput}
    (h : Truthful blockSize policy ⟨⟨s, inFlight⟩, memory⟩) (hsettled : s.Settled)
    (hstep : Scheduler.Step s event s') (hanytime : event.anytime = true) :
    Truthful blockSize policy ⟨⟨s', inFlight⟩, memory⟩ := by
  have hfollows := hstep.follows hanytime hsettled
  have hgiven := h.gives hsettled (hstep.gives hanytime hsettled) fun r hr => (hfollows r hr).1
  -- of a request that runs on only the grammar has changed
  have hcount : (fun r => if r ∈ s'.running then (s.request r).numComputedTokens else 0) =
      fun r => if r ∈ s'.running then (s'.request r).numComputedTokens else 0 := by
    ext r
    split
    · rename_i hr
      obtain ⟨-, grammar, heq⟩ := hfollows r hr
      rw [heq]
    · rfl
  rw [hcount] at hgiven
  refine hgiven.recount (fun _ => le_rfl) (fun r position hposition => ?_) hgiven.below
  split at hposition
  · rename_i hr
    obtain ⟨-, grammar, heq⟩ := hfollows r hr
    dsimp only
    rw [heq]
    rfl
  · exact absurd hposition (Nat.not_lt_zero _)

theorem Truthful.updateFromOutput {schedulerOutput : SchedulerOutput}
    {modelRunnerOutput : ModelRunnerOutput} {outputs : Dict ℕ (List EngineCoreOutput)}
    (h : Truthful blockSize policy ⟨⟨s, some schedulerOutput⟩, memory⟩)
    (hpaced : Engine.Paced ⟨s, some schedulerOutput⟩) (hmarked : s.Hashmarked)
    (hblockSize : 0 < blockSize)
    (hpolicy : ∀ hasher, policy = some hasher → hasher.blockSize = blockSize)
    (hhashed : ∀ r ∈ s.requests, (s.request r).HashedAs policy)
    (hanswers : Answers s schedulerOutput modelRunnerOutput)
    (hverifies : schedulerOutput.Verifies modelRunnerOutput)
    (hok : s.updateFromOutput schedulerOutput modelRunnerOutput = .ok (outputs, s')) :
    Truthful blockSize policy ⟨⟨s', none⟩, memory⟩ := by
  have hsettled : s.Settled := hpaced.settled
  have hfollows := Scheduler.updateFromOutput_follows hsettled hok
  have hmarks := Scheduler.updateFromOutput_marks hsettled hok hmarked
  have hgoes : ∀ r ∈ s'.running, r ∈ s.running ∧ ∃ request,
      GoesOn schedulerOutput modelRunnerOutput r (s.request r) request ∧
        (s'.request r).numComputedTokens = request.numComputedTokens ∧ ∀ position,
        (s'.request r).kvEntry [] blockSize position = request.kvEntry [] blockSize position := by
    intro r hr
    obtain ⟨hwas, request, hgoes, heq⟩ := hfollows.running r hr
    refine ⟨hwas, request, hgoes, ?_, fun position => ?_⟩
    · rw [heq]
      unfold Scheduler.drafted
      split <;> rfl
    · rw [heq, Request.kvEntry_drafted]
  have hgiven := h.gives hsettled (Scheduler.updateFromOutput_gives hsettled hok) fun r hr =>
    (hgoes r hr).1
  refine hgiven.recount (fun r => ?_) (fun r position hposition => ?_)
    fun manager hm r i b hb hhash => ?_
  · dsimp only
    split
    · rename_i hr
      obtain ⟨hwas, request, hgoes, hcount, -⟩ := hgoes r hr
      rw [hcount]
      exact (hpaced.computed_goesOn hwas hgoes).1
    · exact le_rfl
  · dsimp only at hposition ⊢
    split at hposition
    · rename_i hr
      obtain ⟨hwas, request, hgoes, hcount, hentry⟩ := hgoes r hr
      rw [hcount] at hposition
      exact (hentry position).trans
        (hpaced.kvEntry_goesOn hanswers hverifies hwas hgoes hposition)
    · exact absurd hposition (Nat.not_lt_zero _)
  · -- the hash of a block is made of tokens, and these are not taken back
    have hbelow := hgiven.below manager hm r i b hb hhash
    obtain ⟨key, hkey⟩ := Option.ne_none_iff_exists'.mp hhash
    dsimp only at hbelow ⊢
    split at hbelow
    · rename_i hr
      rw [if_pos hr]
      obtain ⟨hwas, request, hgoes, hcount, -⟩ := hgoes r hr
      have hplaced := (hmarks.placed manager hm r i b hb key hkey).2
      have hreach := KVCacheManager.hashed_reach hblockSize hpolicy
        (hhashed r (hsettled.partition.known_of_running hwas)) hplaced
      rw [hcount]
      exact (Nat.le_min.mpr ⟨hbelow, hreach⟩).trans (hpaced.computed_goesOn hwas hgoes).2
    · rw [Nat.succ_mul] at hbelow
      omega

/-! ### Over a run -/

section Runs

variable {config : SchedulerConfig} {kvCacheConfig : KVCacheConfig} {enableCaching : Bool}
  {hashFn : HashInput H → H} {seed : ℕ} {s₀ : Scheduler H} {events : List Event}

omit [DecidableEq H] in
/-- The hashing of a scheduler as it is set up. -/
theorem init_sound {connector : Option (SimSharedStoreConnector H)}
    (hinjective : Function.Injective hashFn)
    (hinit : Scheduler.init config kvCacheConfig enableCaching hashFn seed connector = .ok s₀) :
    ∀ hasher, s₀.kvCacheManager.blockHasher = some hasher →
      Function.Injective hasher.hashFn ∧ hasher.blockSize = kvCacheConfig.blockSize := by
  intro hasher hhasher
  refine ⟨by rwa [Scheduler.init_hashFn hinit hhasher], ?_⟩
  rw [← Scheduler.init_kvCacheConfig hinit]
  unfold KVCacheManager.blockHasher at hhasher
  split at hhasher
  · rw [← Option.some.inj hhasher]
  · cases hhasher

theorem run_governed {inFlight : Option SchedulerOutput} (hinjective : Function.Injective hashFn)
    (hinit : Scheduler.init config kvCacheConfig enableCaching hashFn seed none = .ok s₀)
    (hrun : Run Engine.Step ⟨s₀, none⟩ events ⟨s, inFlight⟩) :
    Engine.Paced ⟨s, inFlight⟩ ∧ s.Hashmarked ∧
      (∀ r ∈ s.requests, (s.request r).HashedAs s₀.kvCacheManager.blockHasher) ∧
      (inFlight = none →
        StepState.Governed s kvCacheConfig.blockSize s₀.kvCacheManager.blockHasher) := by
  obtain ⟨hsettled₀, hnone, -⟩ := Scheduler.init_settled hinit
  have hpaced := Engine.run_paced hrun (Engine.init_paced hinit)
  have hscheduler : Run Scheduler.Step s₀ events s := Engine.run_scheduler hrun
  obtain ⟨-, hmarked, hconnector⟩ := hscheduler.invariant
    (P := fun _ s => s.Settled ∧ s.Hashmarked ∧ s.connector = none)
    ⟨hsettled₀, Scheduler.init_hashmarked hinit, Scheduler.init_connector hinit⟩
    fun _ _ _ _ _ h hstep => ⟨hstep.settled h.1, hstep.hashmarked h.1 h.2.1,
      hstep.unconnected h.2.2⟩
  obtain ⟨hpolicy, hhashed⟩ := Scheduler.run_hashedAs hscheduler hsettled₀ hnone
  refine ⟨hpaced, hmarked, hhashed, ?_⟩
  rintro rfl
  have hsize : s.kvCacheManager.kvCacheConfig = kvCacheConfig :=
    (Scheduler.run_continues hscheduler hsettled₀).setup.kvCacheConfig.trans
      (Scheduler.init_kvCacheConfig hinit)
  exact ⟨hpaced.settled.partition, hmarked, hpolicy, hhashed, init_sound hinjective hinit,
    kvCacheConfig.blockSize_pos, by rw [hsize], hpaced.start, hconnector⟩

theorem init_truthful {connector : Option (SimSharedStoreConnector H)}
    (hinit : Scheduler.init config kvCacheConfig enableCaching hashFn seed connector = .ok s₀) :
    Truthful blockSize policy ⟨⟨s₀, none⟩, memory⟩ := by
  obtain ⟨hsettled, hnone, -⟩ := Scheduler.init_settled hinit
  have hidle : ∀ r, r ∉ s₀.running := fun r hr => by
    have hknown := hsettled.partition.known_of_running hr
    rw [hnone] at hknown
    cases hknown
  have hempty : ∀ manager ∈ s₀.kvCacheManager.singleTypeManagers, ∀ r : RequestId,
      manager.getBlocks r = [] := fun manager hm r =>
    hsettled.partition.idle r (hidle r) manager hm
  have hunhashed : ∀ c, (s₀.kvCacheManager.blockPool.blocks c).blockHash = none := by
    unfold Scheduler.init at hinit
    split at hinit
    · cases hinit
    rename_i kv hkv
    split at hinit
    · cases hinit
    rw [← Except.ok.inj hinit]
    obtain ⟨-, -, -, -, -, hunhashed⟩ := KVCacheManager.init_inOrder hkv
    exact hunhashed
  refine ⟨fun manager hm r i b hb => ?_, fun b key hkey => ?_, fun manager hm r i b hb => ?_,
    fun manager hm r => ?_⟩
  · rw [hempty manager hm r] at hb
    cases hb
  · rw [hunhashed] at hkey
    cases hkey
  · rw [hempty manager hm r] at hb
    cases hb
  · dsimp only
    rw [if_neg (hidle r), Nat.zero_min]
    exact Nat.zero_le _

/-- In every run whose calls spare their batches the machine stays truthful. -/
theorem run_truthful {x : Machine H} (hinjective : Function.Injective hashFn)
    (hinit : Scheduler.init config kvCacheConfig enableCaching hashFn seed none = .ok s₀)
    (hrun : Run SparingStep ⟨⟨s₀, none⟩, memory⟩ events x) :
    x.Truthful kvCacheConfig.blockSize s₀.kvCacheManager.blockHasher := by
  refine hrun.invariant (P := fun _ x => x.Truthful kvCacheConfig.blockSize
    s₀.kvCacheManager.blockHasher) (init_truthful hinit) ?_
  rintro events x event x' hbefore h ⟨hstep, hspares⟩
  have hengine : Run Engine.Step ⟨s₀, none⟩ events x.engine :=
    hbefore.map Machine.engine fun _ _ _ hstep => hstep.1.engine
  have hsound := init_sound hinjective hinit
  cases hstep with
  | call hstep hanytime =>
      exact h.call (run_governed hinjective hinit hengine).1.settled hstep hanytime
  | schedule hok hexecutes =>
      obtain ⟨-, -, -, hgoverned⟩ := run_governed hinjective hinit hengine
      exact h.schedule (hgoverned rfl) hok hexecutes fun l hloops => hspares _ rfl l hloops
  | updateFromOutput hanswers hverifies hok =>
      obtain ⟨hpaced, hmarked, hhashed, -⟩ := run_governed hinjective hinit hengine
      exact h.updateFromOutput hpaced hmarked kvCacheConfig.blockSize_pos
        (fun hasher hsome => (hsound hasher hsome).2) hhashed hanswers hverifies hok

theorem spares_of_fcfs {x : Machine H} {event : Event} (hpart : x.engine.scheduler.Partitioned)
    (hfcfs : x.engine.scheduler.config.policy = .fcfs) : x.Spares event := by
  rintro output - l hloops ⟨r, n, kv, victim, hphase, -, hvictim, hbatch⟩
  have hb := hloops.batch hpart
  have hover : l.phase.overRunning = true := by rw [hphase]; rfl
  rw [hb.batch_eq hover] at hbatch
  refine hb.fcfs_victim hphase hvictim ?_ hbatch
  rw [(StepState.Loops.static hloops).1]
  exact hfcfs

theorem run_sparing {x : Machine H} (hfcfs : config.policy = .fcfs)
    {connector : Option (SimSharedStoreConnector H)}
    (hinit : Scheduler.init config kvCacheConfig enableCaching hashFn seed connector = .ok s₀)
    (hrun : Run Step ⟨⟨s₀, none⟩, memory⟩ events x) :
    Run SparingStep ⟨⟨s₀, none⟩, memory⟩ events x := by
  refine (hrun.invariant (P := fun events x => Run SparingStep ⟨⟨s₀, none⟩, memory⟩ events x)
    .nil fun events x event x' hbefore h hstep => h.snoc ⟨hstep, ?_⟩)
  have hengine : Run Engine.Step ⟨s₀, none⟩ events x.engine :=
    hbefore.map Machine.engine fun _ _ _ hstep => hstep.engine
  refine spares_of_fcfs (Engine.run_paced hengine (Engine.init_paced hinit)).settled.partition ?_
  rw [Engine.run_config hinit hengine]
  exact hfcfs

/-- The memory restrains nothing: a run of the engine whose results verify its drafts is one of the
machine. -/
theorem exists_run {e e' : Engine H} (hrun : Run Engine.Step e events e')
    (hverifies : ∀ schedulerOutput modelRunnerOutput outputs,
      .updateFromOutput schedulerOutput modelRunnerOutput outputs ∈ events →
        schedulerOutput.Verifies modelRunnerOutput) (memory : KVMemory) :
    ∃ memory', Run Step ⟨e, memory⟩ events ⟨e', memory'⟩ := by
  induction hrun with
  | nil => exact ⟨memory, .nil⟩
  | snoc hrun hstep ih =>
      obtain ⟨memory', hbefore⟩ := ih fun schedulerOutput modelRunnerOutput outputs hmem =>
        hverifies _ _ outputs (List.mem_append_left _ hmem)
      cases hstep with
      | call hstep hanytime => exact ⟨memory', hbefore.snoc (.call hstep hanytime)⟩
      | @schedule s s' output hok =>
          exact ⟨_, hbefore.snoc (.schedule hok (output.executes_execute s' memory'))⟩
      | @updateFromOutput s s' schedulerOutput modelRunnerOutput outputs hanswers hok =>
          have hverified : schedulerOutput.Verifies modelRunnerOutput :=
            hverifies _ _ outputs (List.mem_append_right _ (List.mem_singleton_self _))
          exact ⟨memory', hbefore.snoc (.updateFromOutput hanswers hverified hok)⟩

/-! ### What is served -/

/-- What a request is served from: the slots of the positions it has computed, and the hits a
lookup would give it, hold the entries of its own tokens. -/
structure Served (blockSize : ℕ) (x : Machine H) : Prop where
  reach : ∀ r ∈ x.engine.scheduler.running, ∀ table ∈ x.engine.scheduler.kvCacheManager.getBlocks r,
    min (x.engine.scheduler.request r).numComputedTokens
      x.engine.scheduler.kvCacheManager.maxModelLen ≤ table.length * blockSize
  computed : ∀ r ∈ x.engine.scheduler.running,
    ∀ table ∈ x.engine.scheduler.kvCacheManager.getBlocks r, ∀ (i : ℕ) (b : BlockId),
      table[i]? = some b → (x.engine.scheduler.kvCacheManager.blockPool.blocks b).isNull = false →
        ∀ offset < blockSize,
          i * blockSize + offset < (x.engine.scheduler.request r).numComputedTokens →
            x.memory b offset = some ((x.engine.scheduler.request r).kvEntry
              (x.engine.draftsFor r) blockSize (i * blockSize + offset))
  hits : ∀ r ∈ x.engine.scheduler.requests, ∀ hits n m',
    x.engine.scheduler.kvCacheManager.getComputedBlocks (x.engine.scheduler.request r) =
        .ok ((hits, n), m') →
      ∀ blocks ∈ hits, ∀ (i : ℕ) (b : BlockId), blocks[i]? = some b →
        (x.engine.scheduler.kvCacheManager.blockPool.blocks b).isNull = false →
          ∀ offset < blockSize, x.memory b offset = some ((x.engine.scheduler.request r).kvEntry
            [] blockSize (i * blockSize + offset))

theorem Truthful.served {x : Machine H} (h : x.Truthful blockSize policy)
    (horder : ∃ free, x.engine.scheduler.kvCacheManager.InOrder free)
    (hhashed : ∀ r ∈ x.engine.scheduler.requests,
      (x.engine.scheduler.request r).HashedAs policy) : x.Served blockSize where
  reach r hr table htable := by
    obtain ⟨manager, hm, rfl⟩ := List.mem_map.mp htable
    have hreach := h.reach manager hm r
    rwa [if_pos hr] at hreach
  computed r hr table htable i b hb hnn offset hoffset hlt := by
    obtain ⟨manager, hm, rfl⟩ := List.mem_map.mp htable
    refine h.tables manager hm r i b hb hnn offset hoffset ?_
    rwa [if_pos hr]
  hits r hr hits n m' hok blocks hblocks i b hb hnn offset hoffset := by
    obtain ⟨free, horder⟩ := horder
    obtain ⟨-, -, -, hhits⟩ := KVCacheManager.getComputedBlocks_ok horder hok
    obtain ⟨manager, hm, hcached⟩ := exists_of_mem_right hhits hblocks
    obtain ⟨blockHash, hhash, hkey⟩ :=
      cachedAt_hash horder.books.wf.toIndexed (hcached i b hb hnn)
    exact h.cached b _ hkey _ (hhashed r hr) i hhash offset hoffset

/-- In every run under fcfs, and every one whose calls spare their batches, with a hash without
collisions: each request is served from slots that were written for the tokens and the keys it has
itself. -/
theorem run_reads {x : Machine H} (hinjective : Function.Injective hashFn)
    (hinit : Scheduler.init config kvCacheConfig enableCaching hashFn seed none = .ok s₀)
    (hrun : Run Step ⟨⟨s₀, none⟩, memory⟩ events x)
    (hspares : config.policy = .fcfs ∨ Run SparingStep ⟨⟨s₀, none⟩, memory⟩ events x) :
    x.Served kvCacheConfig.blockSize := by
  have hengine : Run Engine.Step ⟨s₀, none⟩ events x.engine :=
    hrun.map Machine.engine fun _ _ _ hstep => hstep.engine
  have hsparing : Run SparingStep ⟨⟨s₀, none⟩, memory⟩ events x :=
    hspares.elim (fun hfcfs => run_sparing hfcfs hinit hrun) id
  obtain ⟨hpaced, -, hhashed, -⟩ := run_governed hinjective hinit hengine
  exact (run_truthful hinjective hinit hsparing).served hpaced.settled.partition.order hhashed

end Runs

end Machine

/-! ### On runs -/

namespace Machine

open Engine (answerAll)

/-- A prompt is computed, and a second one comes that begins with the same blocks. -/
def sharedRun : Except PyError (Request Digest × SchedulerOutput × Scheduler Digest ×
    Request Digest) := do
  let s₀ ← Scheduler.init (Scheduler.shortConfig .fcfs) (Scheduler.shortKVConfig 8) true
    Digest.hash 0 none
  let first ← Request.init (.text 1 [1, 2, 3, 4, 5] 8)
  let (output, s₁) ← (s₀.addRequest first).schedule
  let second ← Request.init (.text 2 [1, 2, 3, 4, 6] 8)
  return (first, output, s₁, second)

/-- The hit of a lookup reads the tokens of the request that looks. -/
theorem run_reads_shared : ∃ (x : Machine Digest) (hits : List (List BlockId)) (n : ℕ)
    (m' : KVCacheManager Digest) (blocks : List BlockId) (b : BlockId),
    x.engine.scheduler.kvCacheManager.getComputedBlocks (x.engine.scheduler.request 2) =
        .ok ((hits, n), m') ∧
      blocks ∈ hits ∧ blocks[1]? = some b ∧ x.memory b 1 = some ⟨[1, 2, 3, 4], [none, none]⟩ := by
  obtain ⟨⟨first, output, s₁, second⟩, hrun, hcheck⟩ :=
    exists_of_okAnd (x := sharedRun) (p := fun (_, _, s₁, second) => decide (s₁.requests = [1] ∧
      2 ∈ (s₁.addRequest second).requests ∧
      ((s₁.addRequest second).request 2).kvEntry [] 2 3 = ⟨[1, 2, 3, 4], [none, none]⟩) &&
      okAnd ((s₁.addRequest second).kvCacheManager.getComputedBlocks
        ((s₁.addRequest second).request 2)) fun looked => decide (looked.1.1 = [[0, 1]] ∧
          ((s₁.addRequest second).kvCacheManager.blockPool.blocks 1).isNull = false))
      (by decide +kernel)
  obtain ⟨hfound, hlookup⟩ := Bool.and_eq_true_iff.mp hcheck
  obtain ⟨hknown, hmem, hentry⟩ := of_decide_eq_true hfound
  obtain ⟨⟨⟨hits, n⟩, m'⟩, hok, hlooked⟩ := exists_of_okAnd hlookup
  obtain ⟨rfl, hnn⟩ := of_decide_eq_true hlooked
  unfold sharedRun at hrun
  obtain ⟨s₀, hinit, hrun⟩ := except_bind_iff.mp hrun
  obtain ⟨_, hfirst, hrun⟩ := except_bind_iff.mp hrun
  obtain ⟨⟨_, _⟩, hschedule, hrun⟩ := except_bind_iff.mp hrun
  obtain ⟨_, hsecond, hrun⟩ := except_bind_iff.mp hrun
  cases hrun
  have hfresh₁ : 1 ∉ s₀.requests := by
    rw [(Scheduler.init_settled hinit).2.1]
    exact List.not_mem_nil
  have hfresh₂ : 2 ∉ s₁.requests := by
    rw [hknown]
    decide
  have hadded : Step ⟨⟨s₀, none⟩, fun _ _ => none⟩ (.addRequest (.text 1 [1, 2, 3, 4, 5] 8))
      ⟨⟨s₀.addRequest first, none⟩, fun _ _ => none⟩ := .call (.addRequest hfirst hfresh₁) rfl
  have hsteps := ((Run.nil.snoc hadded).snoc (Step.schedule hschedule
    (output.executes_execute s₁ _))).snoc (Step.call (.addRequest hsecond hfresh₂) rfl)
  have hserved := run_reads Digest.hash_injective hinit hsteps (Or.inl rfl)
  refine ⟨⟨⟨s₁.addRequest second, some output⟩, output.execute s₁ fun _ _ => none⟩, _, n, m',
    [0, 1], 1, hok, List.mem_singleton_self _, rfl, ?_⟩
  rw [← hentry]
  exact hserved.hits 2 hmem _ n m' hok _ (List.mem_singleton_self _) 1 1 rfl hnn 1 (by decide)

def recallConfig : SchedulerConfig :=
  { Scheduler.shortConfig .priority with longPrefillTokenThreshold := 4 }

/-- A request is given two blocks in the step in which a later one needs them. -/
def recallRun : Except PyError (Request Digest × Request Digest × Scheduler Digest ×
    SchedulerOutput × Scheduler Digest × SchedulerOutput × Scheduler Digest × SchedulerOutput ×
    Scheduler Digest) := do
  let s₀ ← Scheduler.init recallConfig (Scheduler.shortKVConfig 8) true Digest.hash 0 none
  let later ← Request.init
    { RequestArgs.text 1 [1, 2, 3, 4, 5, 6, 7, 8, 9, 10, 11, 12, 13] 8 with priority := 1 }
  let (output₁, s₁) ← (s₀.addRequest later).schedule
  let (_, s₂) ← s₁.updateFromOutput output₁ (answerAll [(1, [], [])])
  let sooner ← Request.init (.text 2 [21, 22, 23, 24] 8)
  let (output₂, s₃) ← (s₂.addRequest sooner).schedule
  let (_, s₄) ← s₃.updateFromOutput output₂ (answerAll [(1, [], []), (2, [7], [])])
  let (output₃, s₅) ← s₄.schedule
  return (later, sooner, s₁, output₁, s₂, output₂, s₃, output₃, s₅)

/-- Where a call preempts a request of its own batch, a lookup can hit a block that nothing has
written. -/
theorem run_unserved : ∃ (s₀ : Scheduler Digest) (x : Machine Digest) (events : List Event),
    Scheduler.init recallConfig (Scheduler.shortKVConfig 8) true Digest.hash 0 none = .ok s₀ ∧
      Run Step ⟨⟨s₀, none⟩, fun _ _ => none⟩ events x ∧ ¬ x.Served 2 := by
  obtain ⟨⟨later, sooner, s₁, output₁, s₂, output₂, s₃, output₃, s₅⟩, hrun, hcheck⟩ :=
    exists_of_okAnd (x := recallRun)
      (p := fun (later, sooner, s₁, output₁, s₂, output₂, s₃, output₃, s₅) =>
        decide (Answers s₁ output₁ (answerAll [(1, [], [])]) ∧
          Answers s₃ output₂ (answerAll [(1, [], []), (2, [7], [])]) ∧
          output₁.Verifies (answerAll [(1, [], [])]) ∧
          output₂.Verifies (answerAll [(1, [], []), (2, [7], [])]) ∧ s₂.requests = [1] ∧
          1 ∈ s₅.requests ∧ output₃.execute s₅ (output₂.execute s₃ (output₁.execute s₁
            fun _ _ => none)) 6 0 = none) &&
          okAnd (s₅.kvCacheManager.getComputedBlocks (s₅.request 1)) fun looked =>
            decide (looked.1.1 = [[0, 1, 2, 3, 6]] ∧
              (s₅.kvCacheManager.blockPool.blocks 6).isNull = false)) (by decide +kernel)
  obtain ⟨hfound, hlookup⟩ := Bool.and_eq_true_iff.mp hcheck
  obtain ⟨hanswers₁, hanswers₂, hverifies₁, hverifies₂, hknown, hmem, hunwritten⟩ :=
    of_decide_eq_true hfound
  obtain ⟨⟨⟨hits, n⟩, m'⟩, hok, hlooked⟩ := exists_of_okAnd hlookup
  obtain ⟨rfl, hnn⟩ := of_decide_eq_true hlooked
  unfold recallRun at hrun
  obtain ⟨s₀, hinit, hrun⟩ := except_bind_iff.mp hrun
  obtain ⟨_, hlater, hrun⟩ := except_bind_iff.mp hrun
  obtain ⟨⟨_, _⟩, hfirst, hrun⟩ := except_bind_iff.mp hrun
  obtain ⟨⟨_, _⟩, hback₁, hrun⟩ := except_bind_iff.mp hrun
  obtain ⟨_, hsooner, hrun⟩ := except_bind_iff.mp hrun
  obtain ⟨⟨_, _⟩, hsecond, hrun⟩ := except_bind_iff.mp hrun
  obtain ⟨⟨_, s₄⟩, hback₂, hrun⟩ := except_bind_iff.mp hrun
  obtain ⟨⟨_, _⟩, hthird, hrun⟩ := except_bind_iff.mp hrun
  cases hrun
  have hfresh₁ : 1 ∉ s₀.requests := by
    rw [(Scheduler.init_settled hinit).2.1]
    exact List.not_mem_nil
  have hfresh₂ : 2 ∉ s₂.requests := by
    rw [hknown]
    decide
  have hadded : Step ⟨⟨s₀, none⟩, fun _ _ => none⟩ _
      ⟨⟨s₀.addRequest later, none⟩, fun _ _ => none⟩ := .call (.addRequest hlater hfresh₁) rfl
  have hsteps := ((((((Run.nil.snoc hadded).snoc
    (Step.schedule hfirst (output₁.executes_execute s₁ _))).snoc
    (Step.updateFromOutput hanswers₁ hverifies₁ hback₁)).snoc
    (Step.call (.addRequest hsooner hfresh₂) rfl)).snoc
    (Step.schedule hsecond (output₂.executes_execute s₃ _))).snoc
    (Step.updateFromOutput hanswers₂ hverifies₂ hback₂)).snoc
    (Step.schedule hthird (output₃.executes_execute s₅ _))
  refine ⟨s₀, _, _, hinit, hsteps, fun hserved => ?_⟩
  -- block 6 was published for the victim in the call that took it out of the batch
  have hread := hserved.hits 1 hmem _ n m' hok _ (List.mem_singleton_self _) 4 6 rfl hnn 0
    (by decide)
  exact absurd (hunwritten.symm.trans hread) (Option.some_ne_none _).symm

end Machine

end Pvllm
