import Pvllm.Core.Sched.Identity

/-!
Runs of plain requests, and the policy of the queues.

A plain request has no adapter, no image and no grammar. Nothing but the caps
and the blocks then keeps the head of the waiting queue from being admitted: no
request is ever set aside, and a call of `schedule` takes requests off the queue
only to run them.
-/

namespace Pvllm

variable {H : Type} [DecidableEq H]

omit [DecidableEq H] in
/-- Neither adapter, image nor grammar. -/
structure Request.Plain (request : Request H) : Prop where
  loraRequest : request.loraRequest = none
  mmFeatures : request.mmFeatures = []
  structuredOutputRequest : request.structuredOutputRequest = none
  status : request.status ≠ .waitingForStructuredOutputGrammar

omit [DecidableEq H] in
theorem Request.Plain.keeps {request request' : Request H} (h : request.Plain)
    (hkeeps : request.Keeps request') : request'.Plain := by
  obtain ⟨hnone, hstatus⟩ := hkeeps.unconstrained h.structuredOutputRequest h.status
  refine ⟨?_, ?_, hnone, hstatus⟩
  · rw [hkeeps.eq]
    exact h.loraRequest
  · rw [hkeeps.eq]
    exact h.mmFeatures

/-- The request asks for neither adapter, image nor grammar. -/
structure RequestArgs.Plain (args : RequestArgs) : Prop where
  loraRequest : args.loraRequest = none
  mmFeatures : args.mmFeatures = []
  structuredOutput : args.structuredOutput = false

omit [DecidableEq H] in
theorem Request.Asked.plain {args : RequestArgs} {request : Request H}
    (h : request.Asked args) (hplain : args.Plain) : request.Plain := by
  obtain ⟨hnone, hstatus⟩ := h.unconstrained hplain.structuredOutput
  exact ⟨h.loraRequest.trans hplain.loraRequest, h.mmFeatures.trans hplain.mmFeatures, hnone,
    hstatus⟩

/-- Only plain requests are added. -/
abbrev PlainEvents (events : List Event) : Prop :=
  ∀ args, Event.addRequest args ∈ events → args.Plain

/-- Every known request is plain. -/
abbrev Scheduler.AllPlain (s : Scheduler H) : Prop := ∀ r ∈ s.requests, (s.request r).Plain

theorem Scheduler.run_plain {s s' : Scheduler H} {events : List Event}
    (hrun : Run Step s events s') (hstart : s.requests = []) (hplain : PlainEvents events) :
    s'.AllPlain := by
  intro r hr
  obtain ⟨args, hmem, -, hasked⟩ := run_asked hrun hstart r hr
  exact hasked.plain (hplain args hmem)

namespace StepState

variable {s : Scheduler H} {l l' : StepState H} {r : RequestId}

omit [DecidableEq H] in
/-- Without images the encoder grants what is asked for. -/
theorem scheduleEncoder_plain {n budget : ℕ} (h : (s.request r).mmFeatures = []) :
    s.scheduleEncoder r n budget = .ok (n, [], budget, s.encoderCacheManager) := by
  unfold Scheduler.scheduleEncoder
  exact if_pos h

theorem lookupStep_plain (hplain : (s.request r).mmFeatures = []) (h : l.lookupStep s r = .ok l') :
    l'.scheduler.waiting = s.waiting := by
  unfold lookupStep at h
  split at h
  · cases h
  rename_i hits numLocal kv hlookup
  dsimp only at h
  obtain ⟨connector, hmatch, -⟩ :=
    matchExternal_eq { s with kvCacheManager := kv } (s.request r) numLocal
  rw [hmatch] at h
  dsimp only at h
  split at h
  · obtain rfl := Except.ok.inj h
    rfl
  split at h
  · obtain rfl := Except.ok.inj h
    rfl
  rename_i hsome
  rw [scheduleEncoder_plain (s := { s with kvCacheManager := kv, connector := connector }) (r := r)
    hplain] at h
  dsimp only at h
  rw [if_neg hsome] at h
  obtain rfl := Except.ok.inj h
  rfl

theorem admissionStep_plain
    (hplain : ∀ r, l.scheduler.waiting.items.head? = some r → (l.scheduler.request r).Plain)
    (h : l.admissionStep = .ok l') : l'.scheduler.waiting = l.scheduler.waiting := by
  unfold admissionStep at h
  dsimp only at h
  split at h
  · obtain rfl := Except.ok.inj h
    rfl
  split at h
  · obtain rfl := Except.ok.inj h
    rfl
  split at h
  · obtain rfl := Except.ok.inj h
    rfl
  split at h
  · cases h
  rename_i r hpeek
  have hhead : l.scheduler.waiting.items.head? = some r := by
    obtain ⟨queue', hpop⟩ := RequestQueue.popRequest_of_peek hpeek
    rw [RequestQueue.popRequest_eq_ok hpop, List.head?_cons]
  have hr := hplain r hhead
  have hlora : l.lacksAdapterSlot (l.scheduler.request r) = false := by
    unfold lacksAdapterSlot
    rw [hr.loraRequest]
    cases l.scheduler.config.maxLoras <;> rfl
  rw [hlora, if_neg Bool.false_ne_true, if_neg hr.status] at h
  exact lookupStep_plain hr.mmFeatures h

/-- What holds at the start of a call over plain requests and is kept by every
step that sets nothing aside holds at every point of it. -/
theorem Loops.plain_invariant {P : StepState H → Prop} (hpart : s.Partitioned)
    (hplain : s.AllPlain) (hloops : Loops (start s) l) (hstart : P (start s))
    (hkeep : ∀ l l', Loops (start s) l → l.advance = .ok l' → Outcome l l' → Batch l →
      (l.phase = .admission → l'.scheduler.waiting = l.scheduler.waiting) → P l → P l') :
    P l := by
  induction hloops with
  | refl => exact hstart
  | @tail l₁ l₂ hloops hstep ih =>
      have hb := Loops.batch hpart hloops
      refine hkeep l₁ l₂ hloops hstep (advance_outcome hstep) hb (fun hphase => ?_) ih
      unfold advance at hstep
      rw [hphase] at hstep
      refine admissionStep_plain (fun r hhead => ?_) hstep
      have hknown : r ∈ s.requests := by
        have hsame : l₁.scheduler.requests = s.requests := (Loops.static hloops).2.1
        rw [← hsame]
        exact hb.partition.known_of_waiting (List.mem_append_left _ (List.mem_of_head? hhead))
      exact (hplain r hknown).keeps (Loops.keeps hloops r)

/-- The guards of a plain admission: nothing can be set aside. -/
theorem setAside_absurd {waiting : RequestQueue} {s' : Scheduler H} (hs : Prepared l.scheduler s' r)
    (hpop : s'.waiting.popRequest = .ok (r, waiting)) : waiting ≠ l.scheduler.waiting := by
  intro heq
  have hitems := congrArg List.length (RequestQueue.popRequest_eq_ok hpop)
  rw [hs.waiting_eq, heq, List.length_cons] at hitems
  omega

end StepState

/-! ### The policy of the queues -/

namespace Scheduler

/-- The queues are those of the configured policy. -/
structure Policied (s : Scheduler H) : Prop where
  waiting : s.waiting.policy = s.config.policy
  skipped : s.skippedWaiting.policy = s.config.policy

end Scheduler

namespace StepState

variable {l l' : StepState H}

theorem Outcome.policied (h : Outcome l l') (hp : l.scheduler.Policied) :
    l'.scheduler.Policied := by
  cases h with
  | rest hfinished => exact hp
  | enter hrunning => exact ⟨hp.waiting, hp.skipped⟩
  | pass hrunning hr =>
      rw [disableSpeculation_frame]
      exact ⟨hp.waiting, hp.skipped⟩
  | takeUp hrunning hr hn hbudget hspec hlen =>
      rw [disableSpeculation_frame]
      exact ⟨hp.waiting, hp.skipped⟩
  | commit hallocating hok =>
      rw [commitRunning_request]
      exact ⟨hp.waiting, hp.skipped⟩
  | preempt hallocating hok hvictim hstatus hfree hbatch hinputs =>
      exact ⟨(RequestQueue.prependRequest_policy ..).trans hp.waiting, hp.skipped⟩
  | close hadmission hs =>
      rcases hs with rfl | ⟨r, hs⟩
      · exact ⟨hp.waiting, hp.skipped⟩
      · rw [hs.frame]
        exact ⟨hp.waiting, hp.skipped⟩
  | setAside hadmission hs hfree hpop =>
      have hpolicy := RequestQueue.popRequest_policy hpop
      rw [hs.frame] at hpolicy ⊢
      exact ⟨hpolicy.trans hp.waiting, (RequestQueue.addRequest_policy ..).trans hp.skipped⟩
  | lookUp hadmission hs hpreempted hhits hexternal hrunning hn hbudget hlen =>
      rw [hs.frame]
      exact ⟨hp.waiting, hp.skipped⟩
  | decline hadmitting hok => exact ⟨hp.waiting, hp.skipped⟩
  | accept hadmitting hok hpop hstatus hconnector =>
      exact ⟨(RequestQueue.popRequest_policy hpop).trans hp.waiting, hp.skipped⟩

end StepState

namespace Scheduler

/-- Folding results back leaves the queues alone. -/
theorem updateFromOutput_queues {s s' : Scheduler H} {schedulerOutput : SchedulerOutput}
    {modelRunnerOutput : ModelRunnerOutput} {outputs : Dict ℕ (List EngineCoreOutput)}
    (hok : s.updateFromOutput schedulerOutput modelRunnerOutput = .ok (outputs, s')) :
    s'.waiting = s.waiting ∧ s'.skippedWaiting = s.skippedWaiting ∧ s'.config = s.config := by
  obtain ⟨u, s₁, hall, hshed, -, rfl⟩ := updateFromOutput_ok hok
  obtain ⟨-, heq⟩ := shedAll_ok (P := fun _ => True) hshed trivial fun _ _ _ _ _ _ => trivial
  rw [heq]
  refine UpdateState.updateAll_invariant (P := fun u _ => u.scheduler.waiting = s.waiting ∧
    u.scheduler.skippedWaiting = s.skippedWaiting ∧ u.scheduler.config = s.config) hall
    ⟨rfl, rfl, rfl⟩ fun u u' r rest hone hu => ?_
  cases hone with
  | skip hscheduled => exact hu
  | goOn hscheduled hfolds hkept hpooled houtputs => exact hu
  | stop hscheduled hfolds hkept houtput hfree hconnector => exact hu

theorem Step.policied {s s' : Scheduler H} {event : Event} (hstep : Step s event s')
    (h : s.Policied) : s'.Policied ∧ s'.config = s.config := by
  cases hstep with
  | addRequest hrequest hfresh =>
      rw [addRequest_eq]
      exact ⟨⟨(RequestQueue.addRequest_policy ..).trans h.waiting, h.skipped⟩, rfl⟩
  | finishRequests hok =>
      refine finishAll_invariant (P := fun s' => s'.Policied ∧ s'.config = s.config)
        (finishRequests_ok hok).2 ⟨h, rfl⟩ fun s₁ s₂ r _ hone ⟨hs, hconfig⟩ => ?_
      rcases finishOne_ok hone with ⟨-, rfl⟩ |
        ⟨-, running, waiting, kv, connector, cache, hplace, -, -, rfl⟩
      · exact ⟨hs, hconfig⟩
      · refine ⟨⟨?_, hs.skipped⟩, hconfig⟩
        rcases hplace with ⟨-, -, -, rfl⟩ | ⟨-, -, hremove⟩
        · exact hs.waiting
        · exact (RequestQueue.removeRequest_policy hremove).trans hs.waiting
  | schedule hok =>
      obtain ⟨l, hloops, -, hfinishes⟩ := schedule_ok hok
      have hpolicied : l.scheduler.Policied :=
        hloops.invariant h fun _ _ hstep hp => hstep.policied hp
      have hconfig := hloops.static.1
      rw [hfinishes.state, StepState.restoreSkippedWaiting_frame]
      refine ⟨?_, hconfig⟩
      unfold restoreSkippedWaiting
      split
      · exact ⟨hpolicied.waiting, hpolicied.skipped⟩
      · exact ⟨(RequestQueue.prependRequests_policy ..).trans hpolicied.waiting, rfl⟩
  | updateFromOutput hok =>
      obtain ⟨hwaiting, hskipped, hconfig⟩ := updateFromOutput_queues hok
      refine ⟨⟨?_, ?_⟩, hconfig⟩
      · rw [hwaiting, hconfig]
        exact h.waiting
      · rw [hskipped, hconfig]
        exact h.skipped
  | resetPrefixCache => exact ⟨⟨h.waiting, h.skipped⟩, rfl⟩
  | grammar hcompiling => exact ⟨⟨h.waiting, h.skipped⟩, rfl⟩
  | sharedStore hconnector => exact ⟨⟨h.waiting, h.skipped⟩, rfl⟩

omit [DecidableEq H] in
theorem init_policied {config : SchedulerConfig} {kvCacheConfig : KVCacheConfig}
    {enableCaching : Bool} {hashFn : HashInput H → H} {seed : ℕ}
    {connector : Option (SimSharedStoreConnector H)} {s : Scheduler H}
    (h : init config kvCacheConfig enableCaching hashFn seed connector = .ok s) :
    s.Policied ∧ s.config = config := by
  unfold init at h
  split at h
  · cases h
  split at h
  · cases h
  obtain rfl := Except.ok.inj h
  exact ⟨⟨rfl, rfl⟩, rfl⟩

theorem run_policied {s s' : Scheduler H} {events : List Event} (hrun : Run Step s events s')
    (h : s.Policied) : s'.Policied ∧ s'.config = s.config :=
  hrun.invariant (P := fun _ s' => s'.Policied ∧ s'.config = s.config) ⟨h, rfl⟩
    fun _ _ _ _ _ ⟨h, hconfig⟩ hstep =>
      ⟨(hstep.policied h).1, (hstep.policied h).2.trans hconfig⟩

end Scheduler

end Pvllm
