import Pvllm.Core.Sched.References
import Pvllm.Core.Sched.Coherence

/-!
Whether only running requests hold encoder references.

A request takes references before it is known whether it makes the batch, on hits
and on misses, in this step and in earlier ones. What it gives back when it does
not make it is the inputs the step was to encode for it. `leaks` tells the points of
the loops where it holds more than that: as long as the loops come to no such point,
and the images of a request are in prompt order, only running requests hold references.
-/

namespace Pvllm

variable {H : Type} [DecidableEq H]

/-! ### The loops of `schedule` -/

namespace StepState

variable {features : RequestId → List MultiModalFeatureSpec} {s : Scheduler H} {l l' : StepState H}

/-- Where a request that does not make the batch keeps a reference: a victim that
holds inputs which are not to be encoded in this step, and a request without slots of
which the same is true. -/
def leaks (l : StepState H) : Bool :=
  let held := l.scheduler.encoderCacheManager.getCachedInputIds
  match l.phase with
  | .allocating r n =>
    match l.scheduler.kvCacheManager.allocateSlots (l.scheduler.request r) n 0 none 0 false,
      l.scheduler.selectVictim with
    | .ok (none, _), .ok victim =>
      (held victim).any (· ∉ l.scheduledEncoderInputs.findD victim [])
    | _, _ => false
  | .admitting r hits numLocal numExternal n ids =>
    match l.scheduler.kvCacheManager.allocateSlots (l.scheduler.request r) n
      (numLocal + numExternal) (some hits) 0 false with
    | .ok (none, _) => (held r).any (· ∉ ids)
    | _ => false
  | _ => false

/-- Within a call: those who hold something run, or are to be admitted. -/
def HeldByRunning (l : StepState H) : Prop :=
  ∀ r, l.scheduler.encoderCacheManager.getCachedInputIds r ≠ [] →
    r ∈ l.scheduler.running ∨ ∃ ids, l.phase.pending = some (r, ids)

/-- Every step keeps it, unless it leaks. A request that is set aside with nothing scheduled
has its images in order, and so has taken no reference. -/
theorem Encodes.heldByRunning (h : Encodes l l') (hb : Batch l)
    (hfeatures : ∀ r, (l.scheduler.request r).mmFeatures = features r)
    (horder : ∀ r ∈ l.scheduler.requests, InOrder (features r))
    (hnot : l.leaks = false) (hsound : l.scheduler.encoderCacheManager.Sound features)
    (hl : l.HeldByRunning) : l'.HeldByRunning := by
  have hid := hb.partition.requestId
  have hidle : l.phase.pending = none → ∀ r,
      l.scheduler.encoderCacheManager.getCachedInputIds r ≠ [] → r ∈ l.scheduler.running := by
    intro hnone r hr
    refine (hl r hr).resolve_right fun hpending => ?_
    obtain ⟨ids, hsome⟩ := hpending
    rw [hnone] at hsome
    cases hsome
  cases h with
  | still hpart hbefore hafter hrunning =>
      simp only [encoderPart, EncoderPart.mk.injEq] at hpart
      intro r hr
      rw [hpart.1] at hr
      rw [hrunning]
      exact Or.inl (hidle hbefore r hr)
  | @reserveRunning r n n' ids hphase hr hn hok hnext hrunning =>
      have hkeeps := disableSpeculation_keeps l.scheduler r r
      obtain ⟨-, hothers⟩ := scheduleEncoder_sound features
        (hkeeps.encoder.1.trans (hid r)) (hkeeps.encoder.2.trans (hfeatures r)) hok
        (by rw [disableSpeculation_frame]; exact hsound)
      refine fun r' hr' => Or.inl ?_
      rw [hrunning]
      by_cases heq : r' = r
      · subst heq
        exact List.mem_of_getElem? hr
      · rw [hothers r' heq, disableSpeculation_frame] at hr'
        exact hidle (by rw [hphase]; rfl) r' hr'
  | @reserveWaiting s r n n' ids hphase hs hcache hn hok hinputs hrequest hnext hrunning =>
      have hkeeps := hs.keeps r
      obtain ⟨-, hothers⟩ := scheduleEncoder_sound features
        (hkeeps.encoder.1.trans (hid r)) (hkeeps.encoder.2.trans (hfeatures r)) hok
        (by rw [hcache]; exact hsound)
      intro r' hr'
      by_cases heq : r' = r
      · subst heq
        rcases hnext with ⟨hzero, -⟩ | ⟨-, hits, numLocal, numExternal, hadmitting⟩
        · -- set aside with nothing granted, it has taken no reference
          have hqueued : r' ∈ l.scheduler.queued :=
            List.mem_append_left _ (List.mem_of_head? hs.head)
          have hsame := (Scheduler.scheduleEncoder_reserves hok).held_of_zero hn (by
            rw [itemsOf_map_snd, hkeeps.encoder.2, hfeatures]
            exact horder r' (hb.partition.known_of_waiting hqueued)) hzero
          rw [hkeeps.encoder.1, hid, hcache] at hsame
          rw [hsame] at hr'
          exact absurd (hidle (by rw [hphase]; rfl) r' hr')
            (hb.partition.not_running_of_waiting hqueued)
        · exact Or.inr ⟨ids, by rw [hadmitting]; rfl⟩
      · rw [hothers r' heq, hcache] at hr'
        rw [hrunning]
        exact Or.inl (hidle (by rw [hphase]; rfl) r' hr')
  | @release r victim n kv hphase hdeclined hvictim hpart hnext hrunning =>
      simp only [encoderPart, EncoderPart.mk.injEq, releaseEncoderReservation_cache] at hpart
      rw [hfeatures] at hpart
      -- where nothing leaks, all that the victim holds is given back
      simp only [leaks, hphase, hdeclined, hvictim, List.any_eq_false, decide_eq_true_eq,
        not_not] at hnot
      refine fun r' hr' => Or.inl ?_
      rw [hpart.1] at hr'
      by_cases heq : r' = victim
      · subst heq
        exact absurd (hsound.freeInputs_eq_nil hnot) hr'
      · rw [EncoderCacheManager.getCachedInputIds_freeInputs, if_neg heq] at hr'
        exact hrunning r' (hidle (by rw [hphase]; rfl) r' hr') heq
  | @place r hits numLocal numExternal n ids hphase hcache hbudget hinputs hnext hrunning =>
      refine fun r' hr' => Or.inl ?_
      rw [hcache] at hr'
      rw [hrunning, List.mem_append, List.mem_singleton]
      rcases hl r' hr' with hrun | ⟨ids', hpending⟩
      · exact Or.inl hrun
      · rw [hphase] at hpending
        exact Or.inr (congrArg Prod.fst (Option.some.inj hpending)).symm
  | @decline r hits numLocal numExternal n ids kv hphase hdeclined hpart hnext hrunning =>
      simp only [encoderPart, EncoderPart.mk.injEq, releaseEncoderReservation_cache] at hpart
      rw [hfeatures] at hpart
      -- and so is all that a declined request holds
      simp only [leaks, hphase, hdeclined, List.any_eq_false, decide_eq_true_eq,
        not_not] at hnot
      refine fun r' hr' => Or.inl ?_
      rw [hpart.1] at hr'
      by_cases heq : r' = r
      · subst heq
        exact absurd (hsound.freeInputs_eq_nil hnot) hr'
      · rw [EncoderCacheManager.getCachedInputIds_freeInputs, if_neg heq] at hr'
        rw [hrunning]
        refine (hl r' hr').resolve_right fun hpending => ?_
        obtain ⟨ids', hsome⟩ := hpending
        rw [hphase] at hsome
        exact heq (congrArg Prod.fst (Option.some.inj hsome)).symm

theorem Loops.heldByRunning (hloops : Loops (start s) l) (hpart : s.Partitioned)
    (horder : ∀ r ∈ s.requests, InOrder (s.request r).mmFeatures)
    (hnot : ∀ l, Loops (start s) l → l.leaks = false)
    (howned : (start s).Owned fun r => (s.request r).mmFeatures)
    (hstart : (start s).HeldByRunning) : l.HeldByRunning := by
  induction hloops with
  | refl => exact hstart
  | tail hloops hstep ih =>
      have hb := Loops.batch hpart hloops
      refine (advance_encodes hb hstep).heldByRunning hb (fun r => ?_) (fun r hr => ?_)
        (hnot _ hloops) (Loops.owned hloops hpart howned).sound ih
      · exact (Loops.keeps hloops r).encoder.2
      · exact horder r ((Loops.static hloops).2.1 ▸ hr)

end StepState

/-! ### Every run -/

namespace Scheduler

variable {s s' : Scheduler H}

/-- Between calls: those who hold something run. -/
def HeldByRunning (s : Scheduler H) : Prop :=
  ∀ r, s.encoderCacheManager.getCachedInputIds r ≠ [] → r ∈ s.running

theorem Step.heldByRunning {event : Event} (hstep : Step s event s') (hsettled : s.Settled)
    (howned : s.Owned) (horder : ∀ r ∈ s.requests, InOrder (s.request r).mmFeatures)
    (hnot : (∃ output, event = .schedule output) →
      ∀ l, StepState.Loops (StepState.start s) l → l.leaks = false)
    (h : s.HeldByRunning) : s'.HeldByRunning := by
  rcases hstep.givesBack hsettled howned.sound with ⟨output, rfl⟩ | hback
  · cases hstep with
    | schedule hok =>
        obtain ⟨l, hloops, hfinished, -, -, hcache, hrunning, -⟩ := schedule_encoder hok
        have hl := hloops.heldByRunning hsettled.partition horder (hnot ⟨_, rfl⟩)
          ⟨howned.sound, howned.known⟩ fun r hr => Or.inl (h r hr)
        intro r hr
        rw [hcache] at hr
        rw [hrunning]
        refine (hl r hr).resolve_right fun hpending => ?_
        obtain ⟨ids, hsome⟩ := hpending
        rw [hfinished] at hsome
        cases hsome
  · intro r hr
    obtain ⟨i, hi⟩ := List.exists_mem_of_ne_nil _ hr
    exact (hback.kept r hr).1 (h r (List.ne_nil_of_mem (hback.gives.held r i hi)))

/-- Encoder references are those of running requests. -/
structure HoldersRun (s : Scheduler H) : Prop where
  keys : ∀ r ∈ s.encoderCacheManager.requestCachedIds.keys, r ∈ s.running
  references : ∀ mmHash, ∀ r ∈ s.encoderCacheManager.cached.findD mmHash [], r ∈ s.running
  queued : ∀ r ∈ s.queued, s.encoderCacheManager.getCachedInputIds r = []

theorem HeldByRunning.holdersRun (h : s.HeldByRunning) (howned : s.Owned)
    (hpart : s.Partitioned) : s.HoldersRun := by
  refine ⟨fun r hr => h r ?_, fun mmHash r hr => h r ?_, fun r hr => ?_⟩
  · obtain ⟨held, hfind⟩ := (Dict.mem_keys_iff _ r).mp hr
    rintro hnil
    rw [(howned.sound.not_referenced hnil).1] at hfind
    cases hfind
  · obtain ⟨i, hi, -⟩ := howned.sound.held mmHash r hr
    exact List.ne_nil_of_mem hi
  · by_contra hsome
    exact hpart.not_running_of_waiting hr (h r hsome)

/-- A step in which nothing leaks, of requests with their images in prompt order. -/
def TightStep (s : Scheduler H) (event : Event) (s' : Scheduler H) : Prop :=
  Step s event s' ∧
    match event with
    | .schedule _ => ∀ l, StepState.Loops (StepState.start s) l → l.leaks = false
    | .addRequest args => InOrder args.mmFeatures
    | _ => True

theorem TightStep.inOrder {event : Event} (h : TightStep s event s')
    (horder : ∀ r ∈ s.requests, InOrder (s.request r).mmFeatures) :
    ∀ r ∈ s'.requests, InOrder (s'.request r).mmFeatures := by
  apply h.1.inOrder horder
  rintro args rfl
  exact h.2

theorem TightStep.heldByRunning {event : Event} (h : TightStep s event s')
    (hsettled : s.Settled) (howned : s.Owned)
    (horder : ∀ r ∈ s.requests, InOrder (s.request r).mmFeatures) (hheld : s.HeldByRunning) :
    s'.HeldByRunning := by
  apply h.1.heldByRunning hsettled howned horder ?_ hheld
  rintro ⟨output, rfl⟩
  exact h.2

/-- Over every run in which nothing leaks and images are in prompt order, only running requests
hold references. -/
theorem run_holdersRun {config : SchedulerConfig} {kvCacheConfig : KVCacheConfig}
    {enableCaching : Bool} {hashFn : HashInput H → H} {seed : ℕ}
    {connector : Option (SimSharedStoreConnector H)} {s₀ s : Scheduler H} {events : List Event}
    (hinit : init config kvCacheConfig enableCaching hashFn seed connector = .ok s₀)
    (hrun : Run TightStep s₀ events s) : s.HoldersRun := by
  obtain ⟨howned₀, hnone, -⟩ := init_owned hinit
  obtain ⟨hsettled₀, hrequests, -⟩ := init_settled hinit
  have horder₀ : ∀ r ∈ s₀.requests, InOrder (s₀.request r).mmFeatures := by
    intro r hr
    rw [hrequests] at hr
    exact absurd hr List.not_mem_nil
  obtain ⟨hsettled, howned, -, hheld⟩ := hrun.invariant
    (P := fun _ s => s.Settled ∧ s.Owned ∧
      (∀ r ∈ s.requests, InOrder (s.request r).mmFeatures) ∧ s.HeldByRunning)
    ⟨hsettled₀, howned₀, horder₀, fun r hr => absurd (hnone r) hr⟩
    fun _ _ _ _ _ ⟨hsettled, howned, horder, h⟩ hstep => ⟨hstep.1.settled hsettled,
      hstep.1.owned hsettled howned, hstep.inOrder horder,
      hstep.heldByRunning hsettled howned horder h⟩
  exact hheld.holdersRun howned hsettled.partition

def tightRun : Except PyError (Request Digest × Scheduler Digest × SchedulerOutput ×
    Scheduler Digest) := do
  let s₀ ← init (shortConfig .priority) (shortKVConfig 4) true Digest.hash 0 none
  let request ← Request.init (imageArgs 1)
  let (output, s₁) ← (s₀.addRequest request).schedule
  return (request, s₀.addRequest request, output, s₁)

theorem run_holdersRun_image : ∃ s : Scheduler Digest, s.HoldersRun ∧
    s.encoderCacheManager.requestCachedIds.keys = [1] := by
  obtain ⟨⟨request, s, output, s₁⟩, hrun, hcheck⟩ :=
    exists_of_okAnd (x := tightRun) (p := fun (_, s, _, s₁) =>
      (StepState.start s).checkLoops (fun l => !l.leaks) 8 &&
        decide (s₁.encoderCacheManager.requestCachedIds.keys = [1])) (by decide +kernel)
  rw [Bool.and_eq_true, decide_eq_true_eq] at hcheck
  obtain ⟨htight, hkeys⟩ := hcheck
  unfold tightRun at hrun
  obtain ⟨s₀, hinit, hrun⟩ := except_bind_iff.mp hrun
  obtain ⟨_, hrequest, hrun⟩ := except_bind_iff.mp hrun
  obtain ⟨⟨_, _⟩, hschedule, hrun⟩ := except_bind_iff.mp hrun
  cases hrun
  obtain ⟨-, hnone, -⟩ := init_settled hinit
  have hfresh : (imageArgs 1).requestId ∉ s₀.requests := by
    rw [hnone]
    exact List.not_mem_nil
  have hsteps : Run TightStep s₀ _ s₁ := (Run.nil.snoc
    ⟨Step.addRequest hrequest hfresh, List.pairwise_singleton _ _⟩).snoc
      ⟨Step.schedule hschedule, fun l hloops => by
        simpa using StepState.checkLoops_sound htight hloops⟩
  exact ⟨s₁, run_holdersRun hinit hsteps, hkeys⟩

/-- A long image in a prompt that is computed in chunks. -/
def chunkedArgs (requestId : RequestId) : RequestArgs :=
  { RequestArgs.text requestId [3, 4, 5, 6, 7, 8] 8 with mmFeatures := [⟨"a", 0, 5, 5⟩] }

def chunkConfig : SchedulerConfig :=
  { shortConfig .fcfs with
    maxNumScheduledTokens := 4
    maxNumScheduledTokens_pos := Nat.succ_pos 3 }

/-- A request encodes its image, and is preempted in the next chunk. -/
def leakRun : Except PyError (Request Digest × Request Digest × Scheduler Digest ×
    SchedulerOutput × Scheduler Digest × SchedulerOutput × Scheduler Digest) := do
  let s₀ ← init chunkConfig (shortKVConfig 4) true Digest.hash 0 none
  let first ← Request.init (.text 1 [1, 2] 8)
  let second ← Request.init (chunkedArgs 2)
  let (output₁, s₁) ← ((s₀.addRequest first).addRequest second).schedule
  let (_, s₂) ← s₁.updateFromOutput output₁ (Engine.answerAll [(1, [9], []), (2, [], [])])
  let (output₂, s₃) ← s₂.schedule
  return (first, second, s₀.addRequest first, output₁, s₂, output₂, s₃)

/-- A request that waits can hold a reference. -/
theorem leakRun_waiting : ∃ (s₀ s : Scheduler Digest) (events : List Event),
    init chunkConfig (shortKVConfig 4) true Digest.hash 0 none = .ok s₀ ∧ Run Step s₀ events s ∧
      ¬ s.HoldersRun ∧ 2 ∈ s.encoderCacheManager.requestCachedIds.keys ∧ 2 ∈ s.queued := by
  obtain ⟨⟨first, second, s, output₁, s₂, output₂, s₃⟩, hrun, hcheck⟩ :=
    exists_of_okAnd (x := leakRun) (p := fun (_, _, s, _, _, _, s₃) =>
      decide (2 ∉ s.requests ∧ 2 ∈ s₃.encoderCacheManager.requestCachedIds.keys ∧
        2 ∉ s₃.running ∧ 2 ∈ s₃.queued)) (by decide +kernel)
  obtain ⟨hfresh₂, hkey, hout, hqueued⟩ := of_decide_eq_true hcheck
  unfold leakRun at hrun
  obtain ⟨s₀, hinit, hrun⟩ := except_bind_iff.mp hrun
  obtain ⟨_, hfirst, hrun⟩ := except_bind_iff.mp hrun
  obtain ⟨_, hsecond, hrun⟩ := except_bind_iff.mp hrun
  obtain ⟨⟨_, _⟩, hone, hrun⟩ := except_bind_iff.mp hrun
  obtain ⟨⟨_, _⟩, hback, hrun⟩ := except_bind_iff.mp hrun
  obtain ⟨⟨_, _⟩, htwo, hrun⟩ := except_bind_iff.mp hrun
  cases hrun
  obtain ⟨-, hnone, -⟩ := init_settled hinit
  have hfresh₁ : 1 ∉ s₀.requests := by
    rw [hnone]
    exact List.not_mem_nil
  have hsteps := ((((Run.nil.snoc (Step.addRequest hfirst hfresh₁)).snoc
    (Step.addRequest hsecond hfresh₂)).snoc (Step.schedule hone)).snoc
      (Step.updateFromOutput hback)).snoc (Step.schedule htwo)
  exact ⟨s₀, s₃, _, hinit, hsteps, fun hholders => hout (hholders.keys 2 hkey), hkey, hqueued⟩

end Scheduler

end Pvllm
