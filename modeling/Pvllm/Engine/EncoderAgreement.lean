import Pvllm.Core.Sched.Turnover
import Pvllm.Engine.Core
import Pvllm.Worker.EncoderOutputs

/-!
The encoder cache of the scheduler against the encoder outputs of the worker.

The scheduler keeps the hashes that are cached, the worker the outputs. They agree as
long as no call of `schedule` drops an encode after it was reserved: what is cached was
encoded, and what was evicted was told once, in a step the worker acted on. Where an
encode is dropped, its hash stays in the cache, and stands for an output that no step
produces.
-/

namespace Pvllm

variable {H : Type} [DecidableEq H]

namespace EngineCore

variable {core core' : EngineCore H}

/-- Whether a hash is in the cache of the scheduler. -/
def Caches (core : EngineCore H) (mmHash : String) : Prop :=
  (core.scheduler.encoderCacheManager.cached.find mmHash).isSome

instance (core : EngineCore H) (mmHash : String) : Decidable (core.Caches mmHash) :=
  inferInstanceAs (Decidable (_ = true))

/-- How often the worker was told that an entry was evicted, in the steps it acted on:
a step without tokens ends before the notices are read. -/
def notices (mmHash : String) (events : List Event) : ℕ :=
  (events.map fun event => match event with
    | .schedule output =>
      if output.totalNumScheduledTokens = 0 then 0 else output.freeEncoderMmHashes.count mmHash
    | _ => 0).sum

/-- A step in which no encode is dropped, of requests with their images in prompt order. -/
def CarefulStep (core : EngineCore H) (event : Event) (core' : EngineCore H) : Prop :=
  Step core event core' ∧
    match event with
    | .schedule _ => core.scheduler.KeepsEncodes
    | .addRequest args => InOrder args.mmFeatures
    | _ => True

/-- The worker knows the running requests' items, and has what the scheduler caches. -/
structure Mirrored (core : EngineCore H) : Prop where
  settled : core.scheduler.Settled
  owned : core.scheduler.Owned
  order : ∀ r ∈ core.scheduler.requests, InOrder (core.scheduler.request r).mmFeatures
  freed : core.scheduler.encoderCacheManager.freed = []
  running : ∀ r ∈ core.scheduler.running, r ∉ core.scheduler.finishedReqIds
  items : ∀ r features, core.runner.reqStates.mmFeatures.find r = some features →
    r ∈ core.scheduler.finishedReqIds ∨
      (r ∈ core.scheduler.requests ∧ features = (core.scheduler.request r).mmFeatures)
  known : ∀ r ∈ core.scheduler.running,
    core.runner.itemsFor r = (core.scheduler.request r).mmFeatures
  resident : ∀ mmHash, core.Caches mmHash → mmHash ∈ core.runner.encoderOutputs

/-! ### Planning -/

/-- What planning does, where no encode is dropped. -/
structure Planned (core : EngineCore H) (output : SchedulerOutput) (core' : EngineCore H) :
    Prop where
  told : core.scheduler.Told output core'.scheduler
  notified : core.scheduler.Notifies output core'.scheduler
  encoded : SimModelRunner.Encoded (fun r => (core.scheduler.request r).mmFeatures) output
    core.runner core'.runner

theorem planStep_planned {output : SchedulerOutput} (h : core.Mirrored)
    (hkeeps : core.scheduler.KeepsEncodes) (hok : core.planStep = .ok (output, core')) :
    Planned core output core' := by
  obtain ⟨hschedule, batch, hplan, -⟩ := planStep_ok hok
  have htold := Scheduler.schedule_told h.settled.partition hschedule
  exact ⟨htold, Scheduler.schedule_notifies h.settled.partition h.owned h.order h.freed hkeeps
    hschedule, SimModelRunner.planStep_encoded (fun new hnew => (htold.fresh new hnew).2) hplan⟩

/-- After planning the worker knows the items of every running request. -/
theorem Planned.itemsFor {output : SchedulerOutput} (hplanned : Planned core output core')
    (h : core.Mirrored) {r : RequestId} (hr : r ∈ core'.scheduler.running) :
    core'.runner.itemsFor r = (core.scheduler.request r).mmFeatures := by
  obtain ⟨htold, -, hencoded⟩ := hplanned
  unfold SimModelRunner.itemsFor
  rw [Dict.findD, hencoded.items]
  by_cases hnew : output.totalNumScheduledTokens ≠ 0 ∧
      r ∈ output.scheduledNewReqs.map (·.reqId) ∧ (core.scheduler.request r).mmFeatures ≠ []
  · rw [if_pos hnew]
    rfl
  rw [if_neg hnew, htold.finished]
  rcases htold.running r hr with hrunning | hfresh
  · rw [if_neg (h.running r hrunning)]
    exact h.known r hrunning
  · -- a new request without items has none with the worker
    have hsome : output.totalNumScheduledTokens ≠ 0 := fun hzero => by
      have hkey := (htold.keys r).mpr (Or.inl hfresh)
      rw [htold.idle hzero] at hkey
      exact List.not_mem_nil hkey
    have hnone : (core.scheduler.request r).mmFeatures = [] :=
      by_contra fun hne => hnew ⟨hsome, hfresh, hne⟩
    split
    · exact hnone.symm
    · rename_i hfinished
      cases hfind : core.runner.reqStates.mmFeatures.find r with
      | none => exact hnone.symm
      | some features => exact ((h.items r features hfind).resolve_left hfinished).2

/-- After planning the worker has what the scheduler caches. -/
theorem Planned.resident {output : SchedulerOutput} (hplanned : Planned core output core')
    (h : core.Mirrored) {mmHash : String} (hcaches : core'.Caches mmHash) :
    mmHash ∈ core'.runner.encoderOutputs := by
  have hitems := fun {r} => hplanned.itemsFor h (r := r)
  obtain ⟨htold, hnotified, hencoded⟩ := hplanned
  rcases hnotified.kept mmHash hcaches with ⟨hbefore, hnot⟩ | hnow
  · -- it was there, and was not evicted
    have hin := h.resident mmHash hbefore
    by_cases hzero : output.totalNumScheduledTokens = 0
    · rwa [hencoded.idle hzero]
    · exact (hencoded.outputs hzero mmHash).mpr (Or.inl ⟨hin, hnot⟩)
  · -- it is encoded in the step
    obtain ⟨⟨r, ids⟩, hmem, hhash⟩ := List.mem_flatMap.mp hnow
    have hscheduled := htold.encoder r
      ((Dict.mem_keys_iff _ r).mpr ⟨ids, (Dict.find_eq_some_iff ..).mpr hmem⟩)
    have hsome : output.totalNumScheduledTokens ≠ 0 := fun hzero => by
      rw [htold.idle hzero] at hscheduled
      exact List.not_mem_nil hscheduled
    have hr : r ∈ core'.scheduler.running := by
      rcases (htold.keys r).mp hscheduled with hfresh | hcached
      · obtain ⟨new, hnew, rfl⟩ := List.mem_map.mp hfresh
        exact (htold.fresh new hnew).1
      · exact (htold.cached r hcached).2
    refine (hencoded.outputs hsome mmHash).mpr (Or.inr (List.mem_flatMap.mpr ⟨_, hmem, ?_⟩))
    rwa [hitems hr]

omit [DecidableEq H] in
/-- A step with notices has something to run: the worker reads them. -/
theorem Planned.acts {output : SchedulerOutput} (hplanned : Planned core output core')
    (hnotices : output.freeEncoderMmHashes ≠ []) : output.totalNumScheduledTokens ≠ 0 := by
  obtain ⟨htold, hnotified, -⟩ := hplanned
  intro hzero
  obtain ⟨mmHash, hmem⟩ := List.exists_mem_of_ne_nil _ (hnotified.busy hnotices)
  obtain ⟨⟨r, ids⟩, hmem, -⟩ := List.mem_flatMap.mp hmem
  have hscheduled := htold.encoder r
    ((Dict.mem_keys_iff _ r).mpr ⟨ids, (Dict.find_eq_some_iff ..).mpr hmem⟩)
  rw [htold.idle hzero] at hscheduled
  exact List.not_mem_nil hscheduled

/-! ### Every step -/

/-- A step of the engine core is planned, or one in which the scheduler gives
references back at most and the worker leaves the encoder alone. -/
theorem CarefulStep.cases {event : Event} (hstep : CarefulStep core event core')
    (h : core.Mirrored) : (∃ output, event = .schedule output ∧ Planned core output core') ∨
      (∀ output, event ≠ .schedule output) ∧ core.scheduler.GivesBack core'.scheduler ∧
        core.runner.SameEncoder core'.runner := by
  obtain ⟨hstep, hcareful⟩ := hstep
  have hback := hstep.scheduler.givesBack h.settled h.owned.sound
  cases hstep with
  | @call s s' runner planned event hstep hanytime =>
      have hnot : ∀ output, event ≠ .schedule output := by
        rintro output rfl
        cases hanytime
      refine Or.inr ⟨hnot, hback.resolve_left ?_, .refl _⟩
      rintro ⟨output, heq⟩
      exact hnot output heq
  | planStep hidle hwork hok => exact Or.inl ⟨_, rfl, planStep_planned h hcareful hok⟩
  | finishStep hplanned hok =>
      refine Or.inr ⟨fun output heq => (by cases heq), hback.resolve_left ?_,
        SimModelRunner.finishStep_sameEncoder (finishStep_ok hok).1⟩
      rintro ⟨output, heq⟩
      cases heq

theorem CarefulStep.mirrored {event : Event} (hstep : CarefulStep core event core')
    (h : core.Mirrored) : core'.Mirrored := by
  have hsettled := hstep.1.scheduler.settled h.settled
  have hfeatures : ∀ {r}, r ∈ core.scheduler.requests →
      (core'.scheduler.request r).mmFeatures = (core.scheduler.request r).mmFeatures :=
    fun hr => hstep.1.scheduler.features hr
  have howned := hstep.1.scheduler.owned h.settled h.owned
  have horder : ∀ r ∈ core'.scheduler.requests, InOrder (core'.scheduler.request r).mmFeatures := by
    apply hstep.1.scheduler.inOrder h.order
    rintro args rfl
    exact hstep.2
  rcases hstep.cases h with ⟨output, rfl, hplanned⟩ | ⟨hevent, hback, hsame⟩
  · -- a step was planned: the worker has read the decision
    have hitems := fun {r} => hplanned.itemsFor h (r := r)
    have hresident : ∀ mmHash, core'.Caches mmHash → mmHash ∈ core'.runner.encoderOutputs :=
      fun mmHash => hplanned.resident h
    obtain ⟨htold, hnotified, hencoded⟩ := hplanned
    refine ⟨hsettled, howned, horder, ?_, ?_, ?_, ?_, hresident⟩
    · cases hstep.1.scheduler with
      | schedule hok =>
          obtain ⟨l, -, -, -, -, hcache, -, -⟩ := Scheduler.schedule_encoder hok
          rw [hcache]
    · intro r hr
      rw [htold.drained]
      exact List.not_mem_nil
    · intro r features hfind
      rw [hencoded.items] at hfind
      split at hfind
      · rename_i hnew
        obtain rfl := Option.some.inj hfind
        obtain ⟨new, hmem, rfl⟩ := List.mem_map.mp hnew.2.1
        have hknown := hsettled.partition.known_of_running (htold.fresh new hmem).1
        rw [htold.requests] at hknown
        exact Or.inr ⟨htold.requests ▸ hknown, (hfeatures hknown).symm⟩
      split at hfind
      · cases hfind
      rename_i hfinished
      rw [htold.finished] at hfinished
      obtain ⟨hknown, rfl⟩ := (h.items r features hfind).resolve_left hfinished
      exact Or.inr ⟨htold.requests ▸ hknown, (hfeatures hknown).symm⟩
    · intro r hr
      have hknown := hsettled.partition.known_of_running hr
      rw [htold.requests] at hknown
      rw [hitems hr, hfeatures hknown]
  · -- nothing reaches the worker, and the scheduler only gives back
    have hnot : ¬ ∃ output, event = .schedule output := by
      rintro ⟨output, heq⟩
      exact hevent output heq
    have hfinished := (hstep.1.scheduler.finished h.settled).resolve_left hnot
    have hrunning := hstep.1.scheduler.fewer.resolve_left hnot
    refine ⟨hsettled, howned, horder, hback.gives.freed.trans h.freed, ?_, ?_, ?_, ?_⟩
    · intro r hr
      rw [hfinished]
      rintro (hdone | ⟨-, hgone⟩)
      · exact h.running r (hrunning.subset hr) hdone
      · exact hgone (hsettled.partition.known_of_running hr)
    · intro r features hfind
      rw [hsame.mmFeatures] at hfind
      rw [hfinished]
      rcases h.items r features hfind with hdone | ⟨hknown, rfl⟩
      · exact Or.inl (Or.inl hdone)
      · by_cases hstays : r ∈ core'.scheduler.requests
        · exact Or.inr ⟨hstays, (hfeatures hknown).symm⟩
        · exact Or.inl (Or.inr ⟨hknown, hstays⟩)
    · intro r hr
      have hold := hrunning.subset hr
      rw [SimModelRunner.itemsFor, hsame.mmFeatures,
        hfeatures (h.settled.partition.known_of_running hold)]
      exact h.known r hold
    · intro mmHash hcaches
      rw [hsame.encoderOutputs]
      apply h.resident
      rwa [Caches, hback.gives.resident] at hcaches

/-- An entry is told of when it goes, and not again while it is gone. -/
theorem CarefulStep.notices {event : Event} {mmHash : String}
    (hstep : CarefulStep core event core') (h : core.Mirrored) (hgone : ¬ core'.Caches mmHash) :
    notices mmHash [event] = if core.Caches mmHash then 1 else 0 := by
  have hnone := Option.not_isSome_iff_eq_none.mp hgone
  rcases hstep.cases h with ⟨output, rfl, hplanned⟩ | ⟨hevent, hback, -⟩
  · have hcount := hplanned.notified.gone mmHash hnone
    have hacts := hplanned.acts
    rw [EngineCore.notices, List.map_singleton, List.sum_singleton]
    dsimp only
    split
    · rename_i hzero
      have hnotices : output.freeEncoderMmHashes = [] := by_contra fun hne => hacts hne hzero
      rw [hnotices, List.count_nil] at hcount
      exact hcount
    · exact hcount
  · have hsame := hback.gives.resident mmHash
    have hnot : ¬ core.Caches mmHash := by
      rwa [Caches, ← hsame]
    rw [if_neg hnot, EngineCore.notices, List.map_singleton, List.sum_singleton]
    cases event with
    | schedule output => exact absurd rfl (hevent output)
    | _ => rfl

/-! ### Every run -/

theorem notices_append (mmHash : String) (events events' : List Event) :
    notices mmHash (events ++ events') = notices mmHash events + notices mmHash events' := by
  simp only [notices, List.map_append, List.sum_append]

theorem init_mirrored {config : SchedulerConfig} {kvCacheConfig : KVCacheConfig}
    {enableCaching : Bool} {hashFn : HashInput H → H} {seed : ℕ}
    {connector : Option (SimSharedStoreConnector H)} {simModel : SimModel} {numSpecTokens : ℕ}
    {debugInvariants : Bool}
    (h : init config kvCacheConfig enableCaching hashFn seed connector simModel numSpecTokens
      debugInvariants = .ok core) : core.Mirrored := by
  unfold init at h
  split at h
  · cases h
  rename_i s hinit
  cases h
  obtain ⟨hsettled, hrequests, hfinished⟩ := Scheduler.init_settled hinit
  obtain ⟨howned, -, hcached, hfreed⟩ := Scheduler.init_owned hinit
  have hrunning : ∀ r ∈ s.running, r ∈ s.requests := fun r => hsettled.partition.known_of_running
  rw [hrequests] at hrunning
  refine ⟨hsettled, howned, fun r hr => ?_, hfreed, fun r hr => ?_, fun r features hfind => ?_,
    fun r hr => ?_, fun mmHash hcaches => ?_⟩
  · rw [show EngineCore.scheduler _ = s from rfl, hrequests] at hr
    exact absurd hr List.not_mem_nil
  · exact absurd (hrunning r hr) List.not_mem_nil
  · cases hfind
  · exact absurd (hrunning r hr) List.not_mem_nil
  · rw [Caches, show EngineCore.scheduler _ = s from rfl, hcached] at hcaches
    cases hcaches

theorem init_idle {config : SchedulerConfig} {kvCacheConfig : KVCacheConfig}
    {enableCaching : Bool} {hashFn : HashInput H → H} {seed : ℕ}
    {connector : Option (SimSharedStoreConnector H)} {simModel : SimModel} {numSpecTokens : ℕ}
    {debugInvariants : Bool}
    (h : init config kvCacheConfig enableCaching hashFn seed connector simModel numSpecTokens
      debugInvariants = .ok core) : core.planned = none ∧ core.scheduler.requests = [] := by
  unfold init at h
  split at h
  · cases h
  · rename_i s hinit
    cases h
    exact ⟨rfl, (Scheduler.init_settled hinit).2.1⟩

theorem Run.mirrored {events : List Event} (hrun : Run CarefulStep core events core')
    (h : core.Mirrored) : core'.Mirrored :=
  hrun.invariant (P := fun _ core => core.Mirrored) h fun _ _ _ _ _ hmirrored hstep =>
    hstep.mirrored hmirrored

/-- Over every careful run, what the scheduler caches the worker has; and an entry
that was cached, and is gone since, was told of in exactly one notice the worker
acted on. -/
theorem run_agrees {config : SchedulerConfig} {kvCacheConfig : KVCacheConfig}
    {enableCaching : Bool} {hashFn : HashInput H → H} {seed : ℕ}
    {connector : Option (SimSharedStoreConnector H)} {simModel : SimModel} {numSpecTokens : ℕ}
    {debugInvariants : Bool} {core₀ : EngineCore H} {events : List Event}
    (hinit : init config kvCacheConfig enableCaching hashFn seed connector simModel numSpecTokens
      debugInvariants = .ok core₀)
    (hrun : Run CarefulStep core₀ events core) :
    (∀ mmHash, core.Caches mmHash → mmHash ∈ core.runner.encoderOutputs) ∧
      ∀ mmHash since core', core.Caches mmHash → since ≠ [] →
        Run (fun core event core' => CarefulStep core event core' ∧ ¬ core'.Caches mmHash)
          core since core' → notices mmHash since = 1 := by
  have hmirrored := Run.mirrored hrun (init_mirrored hinit)
  refine ⟨hmirrored.resident, fun mmHash since core' hcaches hsince hgone => ?_⟩
  have hcount := hgone.invariant (P := fun since core' => core'.Mirrored ∧
    notices mmHash since = if core'.Caches mmHash then 0 else 1)
    ⟨hmirrored, by rw [if_pos hcaches]; rfl⟩ ?_
  · rcases List.eq_nil_or_concat' since with rfl | ⟨before, last, rfl⟩
    · exact absurd rfl hsince
    · obtain ⟨_, -, hlast⟩ := hgone.split
      rw [hcount.2, if_neg hlast.single.2]
  · rintro since core event core' - ⟨hmirrored, hcount⟩ ⟨hstep, hnot⟩
    refine ⟨hstep.mirrored hmirrored, ?_⟩
    rw [notices_append, hcount, hstep.notices hmirrored hnot, if_neg hnot]
    split <;> rfl

/-- A prompt with an image on two of its tokens. -/
def pictureArgs (requestId : RequestId) (identifier : String) (numEmbeds : ℕ) : RequestArgs :=
  { RequestArgs.text requestId [1, 2, 3, 4] 1 with mmFeatures := [⟨identifier, 1, 2, numEmbeds⟩] }

def constantModel : SimModel where
  sampleToken _ _ _ := 7
  plannedOutputLength _ maxTokens := maxTokens
  embed _ _ := []

def smallCore (config : SchedulerConfig) (numBlocks : ℕ) : Except PyError (EngineCore Digest) :=
  init config (Scheduler.shortKVConfig numBlocks) true Digest.hash 0 none constantModel 0 true

def addRequest (core : EngineCore Digest) (request : Request Digest) : EngineCore Digest :=
  { core with scheduler := core.scheduler.addRequest request }

/-- A request with an image runs, and one whose image takes the room of the first. -/
def evictRun : Except PyError (Request Digest × Request Digest × EngineCore Digest ×
    SchedulerOutput × EngineCore Digest × EngineCore Digest × SchedulerOutput ×
    EngineCore Digest) := do
  let core₀ ← smallCore (Scheduler.shortConfig .fcfs) 8
  let first ← Request.init (pictureArgs 1 "a" 200)
  let (output₁, core₁) ← (core₀.addRequest first).planStep
  let (_, _, core₂) ← core₁.finishStep output₁ ((core₁.planned.map Prod.snd).getD none) fun _ => []
  let second ← Request.init (pictureArgs 2 "b" 200)
  let (output₂, core₃) ← (core₂.addRequest second).planStep
  return (first, second, core₀.addRequest first, output₁, core₁, core₂, output₂, core₃)

/-- A request is added. -/
theorem Step.add {core : EngineCore Digest} {args : RequestArgs} {request : Request Digest}
    (hrequest : Request.init args = .ok request)
    (hfresh : args.requestId ∉ core.scheduler.requests) :
    Step core (.addRequest args) (core.addRequest request) :=
  .call (.addRequest hrequest hfresh) rfl

theorem run_agrees_evict : ∃ (core core' : EngineCore Digest) (since : List Event),
    core.Caches "a" ∧ "a" ∈ core.runner.encoderOutputs ∧ ¬ core'.Caches "a" ∧
      notices "a" since = 1 := by
  obtain ⟨⟨first, second, core, output₁, core₁, core₂, output₂, core₃⟩, hrun, hcheck⟩ :=
    exists_of_okAnd (x := evictRun) (p := fun (_, second, core, _, _, core₂, _, core₃) =>
      (StepState.start core.scheduler).checkLoops (fun l => !l.drops) 8 &&
        (StepState.start (core₂.addRequest second).scheduler).checkLoops (fun l => !l.drops) 8 &&
        decide (core.scheduler.hasRequests = true ∧
          (core₂.addRequest second).scheduler.hasRequests = true ∧
          2 ∉ core₂.scheduler.requests ∧ (core₂.addRequest second).Caches "a" ∧
          ¬ core₃.Caches "a")) (by decide +kernel)
  rw [Bool.and_eq_true, Bool.and_eq_true, decide_eq_true_eq] at hcheck
  obtain ⟨⟨hcareful₁, hcareful₂⟩, hwork₁, hwork₂, hfresh₂, hcaches, hgone⟩ := hcheck
  unfold evictRun smallCore at hrun
  obtain ⟨core₀, hinit, hrun⟩ := except_bind_iff.mp hrun
  obtain ⟨_, hfirst, hrun⟩ := except_bind_iff.mp hrun
  obtain ⟨⟨_, _⟩, hplan₁, hrun⟩ := except_bind_iff.mp hrun
  obtain ⟨⟨_, _, _⟩, hfinish, hrun⟩ := except_bind_iff.mp hrun
  obtain ⟨_, hsecond, hrun⟩ := except_bind_iff.mp hrun
  obtain ⟨⟨_, _⟩, hplan₂, hrun⟩ := except_bind_iff.mp hrun
  cases hrun
  obtain ⟨hidle₀, hfresh₁⟩ := init_idle hinit
  obtain ⟨-, batch, -, hplanned⟩ := planStep_ok hplan₁
  have hbatch : (core₁.planned.map Prod.snd).getD none = batch := by rw [hplanned]; rfl
  rw [hbatch] at hfinish
  have hidle₂ := (finishStep_ok hfinish).2.2
  have hsteps : Run CarefulStep core₀ _ (core₂.addRequest second) :=
    (((Run.nil.snoc ⟨.add hfirst (by rw [hfresh₁]; exact List.not_mem_nil),
      List.pairwise_singleton _ _⟩).snoc ⟨.planStep hidle₀ hwork₁ hplan₁, fun l hloops => by
        simpa using StepState.checkLoops_sound hcareful₁ hloops⟩).snoc
          ⟨.finishStep hplanned hfinish, trivial⟩).snoc
            ⟨.add hsecond hfresh₂, List.pairwise_singleton _ _⟩
  have hsince : Run (fun core event core' => CarefulStep core event core' ∧ ¬ core'.Caches "a")
      (core₂.addRequest second) [.schedule output₂] core₃ :=
    Run.nil.snoc ⟨⟨.planStep hidle₂ hwork₂ hplan₂, fun l hloops => by
      simpa using StepState.checkLoops_sound hcareful₂ hloops⟩, hgone⟩
  obtain ⟨hresident, hnotices⟩ := run_agrees hinit hsteps
  exact ⟨_, core₃, _, hcaches, hresident _ hcaches, hgone,
    hnotices _ _ _ hcaches (List.cons_ne_nil _ _) hsince⟩

/-- A prompt fills the cache of the blocks, and one with an image finds no room. The step is
executed for the first. -/
def declineRun : Except PyError (Request Digest × Request Digest × EngineCore Digest ×
    SchedulerOutput × EngineCore Digest × EngineCore Digest) := do
  let core₀ ← smallCore (Scheduler.shortConfig .fcfs) 4
  let first ← Request.init (.text 1 [1, 2, 3, 4, 5] 1)
  let second ← Request.init (pictureArgs 2 "a" 2)
  let core := (core₀.addRequest first).addRequest second
  let (output, core₁) ← core.planStep
  let (_, _, core₂) ← core₁.finishStep output ((core₁.planned.map Prod.snd).getD none) fun _ => []
  return (first, second, core₀.addRequest first, output, core₁, core₂)

/-- What is cached need not have been encoded, when the step has been executed. -/
theorem run_disagrees : ∃ (core₀ core : EngineCore Digest) (events : List Event),
    smallCore (Scheduler.shortConfig .fcfs) 4 = .ok core₀ ∧ Run Step core₀ events core ∧
      (∀ args, Event.addRequest args ∈ events → InOrder args.mmFeatures) ∧
      core.planned = none ∧ core.Caches "a" ∧ "a" ∉ core.runner.encoderOutputs := by
  obtain ⟨⟨first, second, core, output, core₁, core₂⟩, hrun, hcheck⟩ :=
    exists_of_okAnd (x := declineRun) (p := fun (_, second, core, _, _, core₂) =>
      decide (2 ∉ core.scheduler.requests ∧
        (core.addRequest second).scheduler.hasRequests = true ∧ core₂.Caches "a" ∧
        "a" ∉ core₂.runner.encoderOutputs)) (by decide +kernel)
  obtain ⟨hfresh₂, hwork, hcaches, hmissing⟩ := of_decide_eq_true hcheck
  unfold declineRun at hrun
  obtain ⟨core₀, hinit, hrun⟩ := except_bind_iff.mp hrun
  obtain ⟨_, hfirst, hrun⟩ := except_bind_iff.mp hrun
  obtain ⟨_, hsecond, hrun⟩ := except_bind_iff.mp hrun
  obtain ⟨⟨_, _⟩, hplan, hrun⟩ := except_bind_iff.mp hrun
  obtain ⟨⟨_, _, _⟩, hfinish, hrun⟩ := except_bind_iff.mp hrun
  cases hrun
  obtain ⟨hidle, hfresh₁⟩ := init_idle hinit
  obtain ⟨-, batch, -, hplanned⟩ := planStep_ok hplan
  have hbatch : (core₁.planned.map Prod.snd).getD none = batch := by rw [hplanned]; rfl
  rw [hbatch] at hfinish
  have hsteps := (((Run.nil.snoc
    (Step.add hfirst (by rw [hfresh₁]; exact List.not_mem_nil))).snoc
      (Step.add hsecond hfresh₂)).snoc (.planStep hidle hwork hplan)).snoc
        (.finishStep hplanned hfinish)
  refine ⟨core₀, core₂, _, hinit, hsteps, fun args hmem => ?_, (finishStep_ok hfinish).2.2,
    hcaches, hmissing⟩
  have hargs : args = .text 1 [1, 2, 3, 4, 5] 1 ∨ args = pictureArgs 2 "a" 2 := by
    simpa using hmem
  rcases hargs with rfl | rfl
  · exact List.Pairwise.nil
  · exact List.pairwise_singleton _ _

end EngineCore

end Pvllm
