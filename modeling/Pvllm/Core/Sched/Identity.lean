import Pvllm.Core.Sched.Exchange
import Pvllm.Core.Sched.Reports

/-!
What a request was asked for, over a run.

Everything the scheduler does to a request leaves what came with it alone: its
prompt, its parameters, its rank, its images. `run_asked` goes back from a known
request to the call that added it, so that what holds of the arguments of every
call holds of every known request.
-/

namespace Pvllm

variable {H : Type} [DecidableEq H]

omit [DecidableEq H] in
/-- A request that is still for the same thing. -/
structure Request.Keeps (request request' : Request H) : Prop where
  eq : request' = { request with
    status := request'.status
    stopReason := request'.stopReason
    outputTokenIds := request'.outputTokenIds
    numComputedTokens := request'.numComputedTokens
    specTokenIds := request'.specTokenIds
    isPrefillChunk := request'.isPrefillChunk
    numPreemptions := request'.numPreemptions
    numCachedTokens := request'.numCachedTokens
    blockHashes := request'.blockHashes
    structuredOutputRequest := request'.structuredOutputRequest }
  unconstrained : request.structuredOutputRequest = none →
    request.status ≠ .waitingForStructuredOutputGrammar →
      request'.structuredOutputRequest = none ∧
        request'.status ≠ .waitingForStructuredOutputGrammar

namespace Request.Keeps

variable {request request' request'' : Request H}

omit [DecidableEq H]

theorem refl (request : Request H) : Keeps request request := ⟨rfl, fun h h' => ⟨h, h'⟩⟩

theorem trans (h : Keeps request request') (h' : Keeps request' request'') :
    Keeps request request'' := by
  refine ⟨?_, fun hnone hstatus => ?_⟩
  · rw [h'.eq, h.eq]
  · obtain ⟨hnone', hstatus'⟩ := h.unconstrained hnone hstatus
    exact h'.unconstrained hnone' hstatus'

theorem update {table : RequestId → Request H} {r : RequestId} (h : Keeps (table r) request')
    (r' : RequestId) : Keeps (table r') (Function.update table r request' r') := by
  by_cases hr : r' = r
  · subst hr
    rwa [Function.update_self]
  · rw [Function.update_of_ne hr]
    exact refl _

/-- A change of status alone. -/
theorem withStatus {status : RequestStatus}
    (hstatus : status ≠ .waitingForStructuredOutputGrammar) :
    Keeps request (request.withStatus status) :=
  ⟨rfl, fun hnone _ => ⟨hnone, hstatus⟩⟩

theorem withSpecTokenIds (drafts : List TokenId) :
    Keeps request (request.withSpecTokenIds drafts) :=
  ⟨rfl, fun hnone hstatus => ⟨hnone, hstatus⟩⟩

theorem withNumComputedTokens (n : ℕ) : Keeps request (request.withNumComputedTokens n) :=
  ⟨rfl, fun hnone hstatus => ⟨hnone, hstatus⟩⟩

theorem preempted : Keeps request request.preempted :=
  ⟨rfl, fun hnone _ => ⟨hnone, by simp [Request.preempted]⟩⟩

theorem admitted (numComputedTokens numCachedTokens : ℕ) :
    Keeps request (request.admitted numComputedTokens numCachedTokens) :=
  ⟨rfl, fun hnone _ => ⟨hnone, by simp [Request.admitted]⟩⟩

theorem advanced (n : ℕ) : Keeps request (request.advanced n) :=
  ⟨rfl, fun hnone hstatus => ⟨hnone, hstatus⟩⟩

end Request.Keeps

omit [DecidableEq H] in
theorem RequestStatus.isFinished_ne {status : RequestStatus} (h : status.isFinished = true) :
    status ≠ .waitingForStructuredOutputGrammar := by
  rintro rfl
  cases h

omit [DecidableEq H] in
theorem Folds.keeps {request request' : Request H} {kept : List TokenId} {stopped : Bool}
    (h : Folds request request' kept stopped) : request.Keeps request' := by
  have heq := h.eq
  rw [Request.appendAll_frame] at heq
  refine ⟨?_, fun hnone hstatus => ⟨?_, ?_⟩⟩
  · rw [heq]
    rfl
  · rw [heq]
    exact hnone
  · cases stopped with
    | false => exact (h.goesOn rfl).1 ▸ hstatus
    | true => exact RequestStatus.isFinished_ne (h.finished rfl)

namespace StepState

variable {l l' : StepState H}

omit [DecidableEq H] in
theorem disableSpeculation_keeps (s : Scheduler H) (r r' : RequestId) :
    (s.request r').Keeps ((disableSpeculation s r).request r') := by
  rcases disableSpeculation_eq s r with heq | heq
  · rw [heq]
    exact .refl _
  · rw [heq]
    exact Request.Keeps.update (.withSpecTokenIds []) r'

theorem Prepared.keeps {s s' : Scheduler H} {r : RequestId} (h : Prepared s s' r)
    (r' : RequestId) : (s.request r').Keeps (s'.request r') := by
  rcases h.table with heq | ⟨-, status, hstatus, heq⟩
  · rw [heq]
    exact .refl _
  · rw [heq]
    refine Request.Keeps.update (.withStatus ?_) r'
    rcases hstatus with rfl | rfl <;> decide

theorem Outcome.keeps (h : Outcome l l') (r' : RequestId) :
    (l.scheduler.request r').Keeps (l'.scheduler.request r') := by
  cases h with
  | rest hphase => exact .refl _
  | enter hphase => exact .refl _
  | pass hphase hr => exact disableSpeculation_keeps ..
  | takeUp hphase hr hn hbudget hspec hlen => exact disableSpeculation_keeps ..
  | commit hphase hok =>
      rw [commitRunning_request]
      exact Request.Keeps.update (.withSpecTokenIds []) r'
  | preempt hphase hok hvictim hstatus hfree hbatch hinputs =>
      exact Request.Keeps.update .preempted r'
  | close hphase hs =>
      rcases hs with rfl | ⟨r, hs⟩
      · exact .refl _
      · exact hs.keeps r'
  | setAside hphase hs hfree hpop => exact hs.keeps r'
  | lookUp hphase hs hpreempted hhits hexternal hrunning hn hbudget hlen => exact hs.keeps r'
  | decline hphase hok => exact .refl _
  | accept hphase hok hpop hstatus hconnector =>
      exact Request.Keeps.update (.admitted ..) r'

theorem Loops.keeps (hloops : Loops l l') (r : RequestId) :
    (l.scheduler.request r).Keeps (l'.scheduler.request r) :=
  hloops.invariant (P := fun l' => (l.scheduler.request r).Keeps (l'.scheduler.request r))
    (.refl _) fun _ _ hstep h => h.trans (hstep.keeps r)

end StepState

theorem UpdateState.UpdateOutcome.keeps {u u' : UpdateState H} {schedulerOutput : SchedulerOutput}
    {modelRunnerOutput : ModelRunnerOutput} {r : RequestId}
    (h : UpdateOutcome schedulerOutput modelRunnerOutput r u u') (r' : RequestId) :
    (u.scheduler.request r').Keeps (u'.scheduler.request r') := by
  have hroll : (u.scheduler.request r).Keeps (rolledBack (u.scheduler.request r) schedulerOutput
      modelRunnerOutput r) := .withNumComputedTokens _
  cases h with
  | skip hscheduled => exact .refl _
  | goOn hscheduled hfolds hkept hpooled houtputs => exact (hroll.trans hfolds.keeps).update r'
  | stop hscheduled hfolds hkept houtput hfree hconnector =>
      exact (hroll.trans hfolds.keeps).update r'

namespace Scheduler

theorem schedule_keeps {s s' : Scheduler H} {output : SchedulerOutput}
    (h : s.schedule = .ok (output, s')) (r : RequestId) :
    (s.request r).Keeps (s'.request r) := by
  obtain ⟨l, hloops, -, hfinishes⟩ := schedule_ok h
  refine (hloops.keeps r).trans ?_
  rw [hfinishes.state]
  show (l.scheduler.request r).Keeps (StepState.advancedTable ..)
  unfold StepState.advancedTable
  split
  · exact .refl _
  · exact .advanced _

theorem updateFromOutput_keeps {s s' : Scheduler H} {schedulerOutput : SchedulerOutput}
    {modelRunnerOutput : ModelRunnerOutput} {outputs : Dict ℕ (List EngineCoreOutput)}
    (h : s.updateFromOutput schedulerOutput modelRunnerOutput = .ok (outputs, s'))
    (r : RequestId) : (s.request r).Keeps (s'.request r) := by
  obtain ⟨u, s₁, hall, hshed, -, rfl⟩ := updateFromOutput_ok h
  obtain ⟨-, heq⟩ := shedAll_ok (P := fun _ => True) hshed trivial fun _ _ _ _ _ _ => trivial
  have hkeeps : (s.request r).Keeps (u.scheduler.request r) :=
    UpdateState.updateAll_invariant (P := fun u _ => (s.request r).Keeps (u.scheduler.request r))
      hall (.refl _) fun _ _ _ _ hone h => h.trans (hone.keeps r)
  refine hkeeps.trans ?_
  rw [heq]
  show (u.scheduler.request r).Keeps (draftedTable ..)
  rw [draftedTable_frame]
  exact .withSpecTokenIds _

theorem finishOne_keeps {s s' : Scheduler H} {finishedStatus : RequestStatus} {r : RequestId}
    (hfinished : finishedStatus.isFinished = true) (h : s.finishOne finishedStatus r = .ok s')
    (r' : RequestId) : (s.request r').Keeps (s'.request r') := by
  rcases finishOne_ok h with ⟨-, rfl⟩ | ⟨-, -, -, -, -, -, -, -, -, rfl⟩
  · exact .refl _
  · exact Request.Keeps.update (.withStatus (RequestStatus.isFinished_ne hfinished)) r'

/-- A step keeps every request it does not add. -/
theorem Step.keeps {s s' : Scheduler H} {event : Event} (hstep : Step s event s') {r : RequestId}
    (hr : event.added ≠ some r) : (s.request r).Keeps (s'.request r) := by
  cases hstep with
  | @addRequest args request hrequest hfresh =>
      obtain ⟨hid, -⟩ := Request.init_ok hrequest
      rw [addRequest_eq]
      have hne : r ≠ request.requestId := fun heq => hr (by rw [heq, hid]; rfl)
      show (s.request r).Keeps (Function.update s.request request.requestId _ r)
      rw [Function.update_of_ne hne]
      exact .refl _
  | finishRequests hok =>
      obtain ⟨hfinished, hall⟩ := finishRequests_ok hok
      exact finishAll_invariant (P := fun s' => (s.request r).Keeps (s'.request r)) hall (.refl _)
        fun _ _ _ _ hone h => h.trans (finishOne_keeps hfinished hone r)
  | schedule hok => exact schedule_keeps hok r
  | updateFromOutput hok => exact updateFromOutput_keeps hok r
  | resetPrefixCache => exact .refl _
  | grammar hcompiling =>
      refine Request.Keeps.update (by
        refine ⟨rfl, fun hnone _ => ?_⟩
        rw [hcompiling] at hnone
        cases hnone) r
  | sharedStore hconnector => exact .refl _

end Scheduler

/-! ### Requests that are gone -/

omit [DecidableEq H] in
/-- A compiled grammar changes nothing else. -/
theorem Request.update_grammar (table : RequestId → Request H) (r r' : RequestId)
    (result : Grammar) :
    Function.update table r { table r with structuredOutputRequest := some result } r' =
      { table r' with
        structuredOutputRequest := (Function.update table r
          { table r with structuredOutputRequest := some result }
            r').structuredOutputRequest } := by
  by_cases heq : r' = r
  · subst heq
    rw [Function.update_self]
  · rw [Function.update_of_ne heq]

namespace StepState

variable {l l' : StepState H} {r : RequestId}

omit [DecidableEq H] in
theorem disableSpeculation_gone {s : Scheduler H} {r' : RequestId} (hne : r' ≠ r) :
    (disableSpeculation s r).request r' = s.request r' := by
  rcases disableSpeculation_eq s r with heq | heq
  · rw [heq]
  · rw [heq]
    exact Function.update_of_ne hne ..

theorem Prepared.gone {s s' : Scheduler H} {r' : RequestId} (h : Prepared s s' r)
    (hne : r' ≠ r) : s'.request r' = s.request r' := by
  rcases h.table with heq | ⟨-, status, -, heq⟩
  · rw [heq]
  · rw [heq]
    exact Function.update_of_ne hne ..

/-- A step of the loops touches known requests only. -/
theorem Outcome.gone (h : Outcome l l') (hb : Batch l) (hr : r ∉ l.scheduler.requests) :
    l'.scheduler.request r = l.scheduler.request r := by
  have hrunning : ∀ r' ∈ l.scheduler.running, r ≠ r' := fun r' hr' heq =>
    hr (heq ▸ hb.partition.known_of_running hr')
  have hqueued : ∀ r' ∈ l.scheduler.queued, r ≠ r' := fun r' hr' heq =>
    hr (heq ▸ hb.partition.known_of_waiting hr')
  have hhead : ∀ {s : Scheduler H} {r'}, Prepared l.scheduler s r' → r ≠ r' := fun hs =>
    hqueued _ (List.mem_append_left _ (List.mem_of_head? hs.head))
  cases h with
  | rest hphase => rfl
  | enter hphase => rfl
  | pass hphase hr' => exact disableSpeculation_gone (hrunning _ (List.mem_of_getElem? hr'))
  | takeUp hphase hr' hn hbudget hspec hlen =>
      exact disableSpeculation_gone (hrunning _ (List.mem_of_getElem? hr'))
  | commit hphase hok =>
      obtain ⟨-, -, htake, -⟩ := hb.allocating _ _ hphase
      rw [commitRunning_request]
      exact Function.update_of_ne (hrunning _ (List.mem_of_mem_take htake)) ..
  | preempt hphase hok hvictim hstatus hfree hbatch hinputs =>
      exact Function.update_of_ne (hrunning _ (selectVictim_mem hvictim).1) ..
  | close hphase hs =>
      rcases hs with rfl | ⟨r', hs⟩
      · rfl
      · exact hs.gone (hhead hs)
  | setAside hphase hs hfree hpop => exact hs.gone (hhead hs)
  | lookUp hphase hs hpreempted hhits hexternal hrunning hn hbudget hlen => exact hs.gone (hhead hs)
  | decline hphase hok => rfl
  | accept hphase hok hpop hstatus hconnector =>
      refine Function.update_of_ne (hqueued _ ?_) ..
      rw [Scheduler.queued, RequestQueue.popRequest_eq_ok hpop]
      exact List.mem_append_left _ List.mem_cons_self

end StepState

namespace Scheduler

theorem finishOne_gone_eq {s s' : Scheduler H} {finishedStatus : RequestStatus}
    {r r' : RequestId} (h : s.finishOne finishedStatus r = .ok s') (hr : r' ∉ s.requests) :
    s'.request r' = s.request r' ∧ r' ∉ s'.requests := by
  rcases finishOne_ok h with ⟨-, rfl⟩ | ⟨hknown, -, -, -, -, -, -, -, -, rfl⟩
  · exact ⟨rfl, hr⟩
  · have hne : r' ≠ r := by
      rintro rfl
      exact hr hknown
    exact ⟨Function.update_of_ne hne .., fun hmem => hr (List.mem_of_mem_erase hmem)⟩

/-- A step leaves the requests that are gone alone, but for a grammar compiled late. -/
theorem Step.gone {s s' : Scheduler H} {event : Event} (hstep : Step s event s')
    (hsettled : s.Settled) {r : RequestId} (hr : r ∉ s.requests) (hadded : event.added ≠ some r) :
    s'.request r = { s.request r with
      structuredOutputRequest := (s'.request r).structuredOutputRequest } := by
  have hsame : s'.request r = s.request r → s'.request r = { s.request r with
      structuredOutputRequest := (s'.request r).structuredOutputRequest } := fun h => by rw [h]
  cases hstep with
  | @addRequest args request hrequest hfresh =>
      obtain ⟨hid, -⟩ := Request.init_ok hrequest
      refine hsame ?_
      rw [addRequest_eq]
      refine Function.update_of_ne (fun heq => hadded ?_) ..
      rw [heq, hid]
      rfl
  | finishRequests hok =>
      exact hsame (finishAll_invariant (P := fun s' => s'.request r = s.request r ∧ r ∉ s'.requests)
        (finishRequests_ok hok).2 ⟨rfl, hr⟩ fun _ _ _ _ hone h =>
          ⟨(finishOne_gone_eq hone h.2).1.trans h.1, (finishOne_gone_eq hone h.2).2⟩).1
  | schedule hok =>
      obtain ⟨l, hloops, -, hfinishes⟩ := schedule_ok hok
      have hgone : l.Batch ∧ l.scheduler.requests = s.requests ∧
          l.scheduler.request r = s.request r := by
        refine hloops.invariant (P := fun l => l.Batch ∧ l.scheduler.requests = s.requests ∧
          l.scheduler.request r = s.request r)
          ⟨StepState.batch_start hsettled.partition, rfl, rfl⟩ ?_
        intro l l' hstep ⟨hb, hrequests, hsame⟩
        exact ⟨hstep.batch hb, hstep.static.2.1.trans hrequests,
          (hstep.gone hb (hrequests ▸ hr)).trans hsame⟩
      refine hsame ?_
      rw [hfinishes.state]
      show StepState.advancedTable _ _ r = _
      rw [advancedTable_of_not_mem fun hmem => hr (hgone.2.1 ▸ hfinishes.known r hmem)]
      exact hgone.2.2
  | updateFromOutput hok =>
      obtain ⟨u, s₁, hall, hshed, -, rfl⟩ := updateFromOutput_ok hok
      obtain ⟨-, heq⟩ := shedAll_ok (P := fun _ => True) hshed trivial fun _ _ _ _ _ _ => trivial
      have hnot : r ∉ s.running := fun hmem => hr (hsettled.partition.known_of_running hmem)
      have hgone : u.scheduler.request r = s.request r ∧ r ∉ u.stillRunning := by
        refine (UpdateState.updateAll_invariant (P := fun u rest => r ∉ rest ∧
          u.scheduler.request r = s.request r ∧ r ∉ u.stillRunning) hall ⟨hnot, rfl, nofun⟩ ?_).2
        intro u u' r' rest hone ⟨hrest, hsame, hstill⟩
        rw [List.mem_cons, not_or] at hrest
        cases hone with
        | skip hscheduled =>
            exact ⟨hrest.2, hsame, by simp [hstill, hrest.1]⟩
        | goOn hscheduled hfolds hkept hpooled houtputs =>
            exact ⟨hrest.2, (Function.update_of_ne hrest.1 ..).trans hsame,
              by simp [hstill, hrest.1]⟩
        | stop hscheduled hfolds hkept houtput hfree hconnector =>
            exact ⟨hrest.2, (Function.update_of_ne hrest.1 ..).trans hsame, hstill⟩
      refine hsame ?_
      rw [heq]
      show draftedTable _ _ _ r = _
      rw [draftedTable, if_neg hgone.2]
      exact hgone.1
  | resetPrefixCache => rfl
  | grammar hcompiling => exact Request.update_grammar ..
  | sharedStore hconnector => rfl

end Scheduler

/-! ### Back to the call that added it -/

omit [DecidableEq H] in
/-- A request, as it was asked for. -/
structure Request.Asked (args : RequestArgs) (request : Request H) : Prop where
  requestId : request.requestId = args.requestId
  priority : request.priority = args.priority
  arrivalTime : request.arrivalTime = args.arrivalTime
  samplingParams : request.samplingParams = args.samplingParams
  usePooling : request.usePooling = args.usePooling
  loraRequest : request.loraRequest = args.loraRequest
  mmFeatures : request.mmFeatures = args.mmFeatures
  maxTokens : request.maxTokens = (args.samplingParams.bind (·.maxTokens)).getD 0
  promptTokenIds : request.promptTokenIds = args.promptTokenIds
  exclusive : args.samplingParams.isNone = args.usePooling
  resolved : ∀ params, args.samplingParams = some params → params.maxTokens ≠ none
  unconstrained : args.structuredOutput = false → request.structuredOutputRequest = none ∧
    request.status ≠ .waitingForStructuredOutputGrammar

omit [DecidableEq H] in
theorem Request.init_asked {args : RequestArgs} {request : Request H}
    (h : Request.init args = .ok request) : request.Asked args := by
  unfold Request.init at h
  split at h
  · cases h
  rename_i hexclusive
  split at h
  · cases h
  rename_i hresolved
  obtain rfl := Except.ok.inj h
  refine ⟨rfl, rfl, rfl, rfl, rfl, rfl, rfl, rfl, rfl, ?_, fun params hparams hnone => ?_,
    fun hfree => ?_⟩
  · revert hexclusive
    cases args.samplingParams.isNone <;> cases args.usePooling <;> decide
  · rw [hparams, Option.bind_some, hnone] at hresolved
    exact hresolved ⟨rfl, rfl⟩
  · simp [hfree]

omit [DecidableEq H] in
theorem Request.Asked.keeps {args : RequestArgs} {request request' : Request H}
    (h : request.Asked args) (hkeeps : request.Keeps request') : request'.Asked args := by
  have hfree := hkeeps.unconstrained
  have heq := hkeeps.eq
  constructor
  case exclusive => exact h.exclusive
  case resolved => exact h.resolved
  case unconstrained =>
    intro hargs
    obtain ⟨hnone, hstatus⟩ := h.unconstrained hargs
    exact hfree hnone hstatus
  all_goals rw [heq]
  · exact h.requestId
  · exact h.priority
  · exact h.arrivalTime
  · exact h.samplingParams
  · exact h.usePooling
  · exact h.loraRequest
  · exact h.mmFeatures
  · exact h.maxTokens
  · exact h.promptTokenIds

namespace Scheduler

/-- A request that is added is as it was asked for. -/
theorem Step.asked {s s' : Scheduler H} {event : Event} (hstep : Step s event s')
    {r : RequestId} (hadded : event.added = some r) :
    ∃ args, event = .addRequest args ∧ args.requestId = r ∧ (s'.request r).Asked args := by
  cases hstep with
  | @addRequest args request hrequest hfresh =>
      obtain ⟨hid, -⟩ := Request.init_ok hrequest
      obtain rfl : args.requestId = r := Option.some.inj hadded
      refine ⟨args, rfl, rfl, ?_⟩
      rw [addRequest_eq]
      show (Function.update s.request request.requestId _ _).Asked args
      rw [← hid, Function.update_self]
      have h := Request.init_asked hrequest
      rw [stored_frame]
      exact ⟨h.requestId, h.priority, h.arrivalTime, h.samplingParams, h.usePooling,
        h.loraRequest, h.mmFeatures, h.maxTokens, h.promptTokenIds, h.exclusive, h.resolved,
        h.unconstrained⟩
  | finishRequests => cases hadded
  | schedule => cases hadded
  | updateFromOutput => cases hadded
  | resetPrefixCache => cases hadded
  | grammar => cases hadded
  | sharedStore => cases hadded

/-- Every known request was added by a call of the run. -/
theorem run_asked {s s' : Scheduler H} {events : List Event} (hrun : Run Step s events s')
    (hstart : s.requests = []) : ∀ r ∈ s'.requests,
      ∃ args, Event.addRequest args ∈ events ∧ args.requestId = r ∧ (s'.request r).Asked args := by
  refine hrun.invariant (P := fun events s => ∀ r ∈ s.requests, ∃ args,
    Event.addRequest args ∈ events ∧ args.requestId = r ∧ (s.request r).Asked args) ?_ ?_
  · rw [hstart]
    exact nofun
  intro events s event s' _ ih hstep r hr
  by_cases hadded : event.added = some r
  · obtain ⟨args, rfl, hid, hasked⟩ := hstep.asked hadded
    exact ⟨args, List.mem_append_right _ (List.mem_singleton_self _), hid, hasked⟩
  · obtain ⟨args, hmem, hid, hasked⟩ := ih r ((hstep.known hr).resolve_right hadded)
    exact ⟨args, List.mem_append_left _ hmem, hid, hasked.keeps (hstep.keeps hadded)⟩

end Scheduler

end Pvllm
