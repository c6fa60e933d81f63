import Pvllm.Core.Sched.Exchange

/-!
The running requests that go on.

What a step does to a request that is running after it: a call of `schedule` leaves
the count of those that were running, `update_from_output` folds in the result of a
scheduled one and touches no other, and the calls that may come at any time change
nothing but what a grammar was compiled to.
-/

namespace Pvllm

variable {H : Type} [DecidableEq H]

open UpdateState

/-! ### Through the loops -/

namespace StepState

variable {l l' : StepState H}

def letIn (l : StepState H) : List RequestId := l.scheduledNewReqs ++ l.scheduledResumedReqs

/-- Nobody is let in while the running requests are gone through. -/
theorem Batch.letIn_nil (hb : Batch l) (hover : l.phase.overRunning = true) : l.letIn = [] := by
  obtain ⟨hnew, hresumed, -⟩ := hb.first hover
  rw [letIn, hnew, hresumed]
  rfl

/-- The running requests at a point of a call that began at `s`: each was running
then, and has the same count, or was let in. -/
def Follows (s : Scheduler H) (l : StepState H) : Prop :=
  ∀ r ∈ l.scheduler.running, r ∈ l.letIn ∨ r ∈ s.running ∧
    (l.scheduler.request r).numComputedTokens = (s.request r).numComputedTokens

variable {s : Scheduler H}

omit [DecidableEq H] in
/-- A step that lets nobody in and changes no count. -/
theorem Follows.quiet (h : Follows s l) (hletIn : l'.letIn = l.letIn)
    (hrunning : l'.scheduler.running = l.scheduler.running)
    (hcounts : ∀ r, (l'.scheduler.request r).numComputedTokens =
      (l.scheduler.request r).numComputedTokens) : Follows s l' := by
  intro r hr
  rw [hrunning] at hr
  rw [hletIn, hcounts]
  exact h r hr

theorem Prepared.counts {s s' : Scheduler H} {r : RequestId}
    (h : Prepared s s' r) (r' : RequestId) :
    (s'.request r').numComputedTokens = (s.request r').numComputedTokens ∧
      (s'.request r').specTokenIds = (s.request r').specTokenIds := by
  rcases h.table with heq | ⟨-, status, -, heq⟩
  · rw [heq]
    exact ⟨rfl, rfl⟩
  · rw [heq]
    by_cases hr : r' = r
    · subst hr
      rw [Function.update_self]
      exact ⟨rfl, rfl⟩
    · rw [Function.update_of_ne hr]
      exact ⟨rfl, rfl⟩

omit [DecidableEq H] in
/-- Whoever is let in is new, or resumed. -/
theorem mem_letIn_grown {newReqs resumedReqs : List RequestId} {p : Prop} [Decidable p]
    {r r' : RequestId} :
    r' ∈ (if p then newReqs ++ [r] else newReqs) ++
        (if p then resumedReqs else resumedReqs ++ [r]) ↔
      r' = r ∨ r' ∈ newReqs ++ resumedReqs := by
  split
  · simp only [List.mem_append, List.mem_singleton]
    tauto
  · simp only [List.mem_append, List.mem_singleton]
    tauto

theorem Outcome.follows (h : Outcome l l') (hb : Batch l) (hf : Follows s l) : Follows s l' := by
  cases h with
  | rest hphase => exact hf
  | enter hphase => exact hf.quiet rfl rfl fun _ => rfl
  | pass hphase hr =>
      exact hf.quiet rfl (disableSpeculation_running ..)
        (disableSpeculation_numComputedTokens l.scheduler _)
  | takeUp hphase hr hn hbudget hspec hlen =>
      exact hf.quiet rfl (disableSpeculation_running ..)
        (disableSpeculation_numComputedTokens l.scheduler _)
  | @commit r n blocks kv hphase hok =>
      refine hf.quiet rfl (commitRunning_running ..) fun r' => ?_
      rw [commitRunning_request]
      show (Function.update l.scheduler.request r _ r').numComputedTokens = _
      by_cases hr : r' = r
      · subst hr
        rw [Function.update_self]
        rfl
      · rw [Function.update_of_ne hr]
  | @preempt r victim n kv inBatch blocks scheduled inputs cache encoderBudget tokenBudget reqIndex
      loras hphase hok hvictim hstatus hfree hbatch hinputs =>
      rw [dropVictim_eq hb.partition.running_nodup hvictim]
      intro r' hr'
      have hne : r' ≠ victim := fun heq => hb.partition.running_nodup.not_mem_erase (heq ▸ hr')
      show r' ∈ l.letIn ∨ r' ∈ s.running ∧ (Function.update l.scheduler.request victim
        (l.scheduler.request victim).preempted r').numComputedTokens = _
      rw [Function.update_of_ne hne]
      exact hf r' (List.mem_of_mem_erase hr')
  | close hphase hs =>
      rcases hs with rfl | ⟨r, hs⟩
      · exact hf.quiet rfl rfl fun _ => rfl
      · exact hf.quiet rfl hs.running_eq fun r' => (hs.counts r').1
  | setAside hphase hs hfree hpop => exact hf.quiet rfl hs.running_eq fun r' => (hs.counts r').1
  | lookUp hphase hs hpreempted hhits hexternal hrunning hn hbudget hlen =>
      exact hf.quiet rfl hs.running_eq fun r' => (hs.counts r').1
  | decline hphase hok => exact hf.quiet rfl rfl fun _ => rfl
  | @accept r r' hits blocks numLocal numExternal n inputs kv waiting connector loras hphase hok
      hpop hstatus hconnector =>
      intro r₁ hr₁
      by_cases heq : r₁ = r'
      · exact Or.inl (mem_letIn_grown.mpr (Or.inl heq))
      · show _ ∨ r₁ ∈ s.running ∧
          (Function.update l.scheduler.request r' _ r₁).numComputedTokens = _
        rw [Function.update_of_ne heq]
        have hold : r₁ ∈ l.scheduler.running :=
          (List.mem_append.mp hr₁).resolve_right fun hself => heq (List.mem_singleton.mp hself)
        exact (hf r₁ hold).imp_left fun hin => mem_letIn_grown.mpr (Or.inr hin)

theorem Loops.follows (hpart : s.Partitioned) (hloops : Loops (start s) l) : Follows s l :=
  (hloops.invariant (P := fun l => Batch l ∧ Follows s l)
    ⟨batch_start hpart, fun _ hr => Or.inr ⟨hr, rfl⟩⟩
    fun _ _ hstep h => ⟨hstep.batch h.1, hstep.follows h.1 h.2⟩).2

/-- Whoever a call that began at `s` lets in was not running then: as long as it
preempts nobody, those that were running go on. -/
structure Newcomers (s : Scheduler H) (l : StepState H) : Prop where
  stay : l.preemptedReqs = [] → ∀ r ∈ s.running, r ∈ l.scheduler.running
  fresh : ∀ r ∈ l.letIn, r ∉ s.running

omit [DecidableEq H] in
theorem Newcomers.quiet (h : Newcomers s l) (hletIn : l'.letIn = l.letIn)
    (hrunning : l'.scheduler.running = l.scheduler.running)
    (hpreempted : l'.preemptedReqs = l.preemptedReqs) : Newcomers s l' := by
  refine ⟨fun hnone r hr => ?_, fun r hr => ?_⟩
  · rw [hrunning]
    exact h.stay (hpreempted ▸ hnone) r hr
  · rw [hletIn] at hr
    exact h.fresh r hr

theorem Outcome.newcomers (h : Outcome l l') (hb : Batch l) (hnew : Newcomers s l) :
    Newcomers s l' := by
  cases h with
  | rest hphase => exact hnew
  | enter hphase => exact hnew.quiet rfl rfl rfl
  | pass hphase hr => exact hnew.quiet rfl (disableSpeculation_running ..) rfl
  | takeUp hphase hr hn hbudget hspec hlen =>
      exact hnew.quiet rfl (disableSpeculation_running ..) rfl
  | commit hphase hok => exact hnew.quiet rfl (commitRunning_running ..) rfl
  | preempt hphase hok hvictim hstatus hfree hbatch hinputs =>
      rw [dropVictim_eq hb.partition.running_nodup hvictim]
      refine ⟨fun hnone => ?_, hnew.fresh⟩
      exact absurd hnone (List.append_ne_nil_of_right_ne_nil _ (List.cons_ne_nil _ _))
  | close hphase hs =>
      rcases hs with rfl | ⟨r, hs⟩
      · exact hnew.quiet rfl rfl rfl
      · exact hnew.quiet rfl hs.running_eq rfl
  | setAside hphase hs hfree hpop => exact hnew.quiet rfl hs.running_eq rfl
  | lookUp hphase hs hpreempted hhits hexternal hrunning hn hbudget hlen =>
      exact hnew.quiet rfl hs.running_eq rfl
  | decline hphase hok => exact hnew.quiet rfl rfl rfl
  | @accept r r' hits blocks numLocal numExternal n inputs kv waiting connector loras hphase hok
      hpop hstatus hconnector =>
      have hstay := hnew.stay (hb.second (by rw [hphase]; rfl))
      refine ⟨fun _ r hr => List.mem_append_left _ (hstay r hr), fun r₁ hr₁ hwas => ?_⟩
      rcases mem_letIn_grown.mp hr₁ with rfl | hin
      · have hhead : l.scheduler.waiting.items.head? = some r₁ := by
          rw [RequestQueue.popRequest_eq_ok hpop]
          rfl
        exact hb.partition.not_running_of_waiting
          (List.mem_append_left _ (List.mem_of_mem_head? hhead)) (hstay r₁ hwas)
      · exact hnew.fresh r₁ hin hwas

theorem Loops.newcomers (hpart : s.Partitioned) (hloops : Loops (start s) l) : Newcomers s l :=
  (hloops.invariant (P := fun l => Batch l ∧ Newcomers s l)
    ⟨batch_start hpart, fun _ _ hr => hr, fun _ hr => absurd hr List.not_mem_nil⟩
    fun _ _ hstep h => ⟨hstep.batch h.1, hstep.newcomers h.1 h.2⟩).2

end StepState

/-- A running request that a call gave nothing was running before it, and stands
where it stood. -/
theorem Scheduler.schedule_passed {s s' : Scheduler H} {output : SchedulerOutput}
    (h : s.Partitioned) (hok : s.schedule = .ok (output, s')) {r : RequestId}
    (hr : r ∈ s'.running) (hkey : r ∉ output.numScheduledTokens.keys) :
    r ∈ s.running ∧ (s'.request r).numComputedTokens = (s.request r).numComputedTokens ∧
      (s.request r).Reworks (s'.request r) := by
  obtain ⟨l, hloops, -, hfinishes⟩ := schedule_ok hok
  have hb := hloops.batch h
  have hrunning : s'.running = l.scheduler.running := by
    rw [hfinishes.state, StepState.restoreSkippedWaiting_frame]
  have hsame : s'.request r = l.scheduler.request r := by
    rw [hfinishes.state]
    exact advancedTable_of_not_mem (hfinishes.scheduled ▸ hkey)
  rw [hrunning] at hr
  rw [hfinishes.scheduled, hb.keys] at hkey
  obtain ⟨hwas, hcount⟩ := (hloops.follows h r hr).resolve_left fun hin =>
    hkey (List.mem_append_right _ hin)
  rw [hsame]
  exact ⟨hwas, hcount, hloops.reworks r⟩

/-! ### Folding results in -/

/-- What the results of a step make of a running request that goes on. -/
inductive GoesOn (schedulerOutput : SchedulerOutput) (modelRunnerOutput : ModelRunnerOutput)
    (r : RequestId) (request : Request H) : Request H → Prop
  | passed (hscheduled : schedulerOutput.numScheduledTokens.findD r 0 = 0) :
      GoesOn schedulerOutput modelRunnerOutput r request request
  | folded {request' : Request H} {kept : List TokenId}
      (hscheduled : schedulerOutput.numScheduledTokens.findD r 0 ≠ 0)
      (hfolds : Folds (rolledBack request schedulerOutput modelRunnerOutput r) request' kept false)
      (hkept : kept = if request.usePooling then [] else generatedFor modelRunnerOutput r)
      (hpooled : request.usePooling = true → pooledFor modelRunnerOutput r = none) :
      GoesOn schedulerOutput modelRunnerOutput r request request'

namespace Scheduler

variable {s s' : Scheduler H} {schedulerOutput : SchedulerOutput}
  {modelRunnerOutput : ModelRunnerOutput}

/-- A running request that its result has brought to an end. -/
structure Stops (schedulerOutput : SchedulerOutput) (modelRunnerOutput : ModelRunnerOutput)
    (s : Scheduler H) (r : RequestId) (request : Request H) : Prop where
  running : r ∈ s.running
  scheduled : schedulerOutput.numScheduledTokens.findD r 0 ≠ 0
  folds : ∃ kept, Folds (rolledBack (s.request r) schedulerOutput modelRunnerOutput r) request
    kept true

/-- The requests while results are folded in: those to come and the queued ones are as
they were, those done go on or have stopped. -/
structure Followed (s : Scheduler H) (schedulerOutput : SchedulerOutput)
    (modelRunnerOutput : ModelRunnerOutput) (u : UpdateState H) (rest : List RequestId) :
    Prop where
  settled : UpdateSettled u rest
  queue : u.scheduler.queued = s.queued
  unseen : ∀ r ∈ rest ++ s.queued, u.scheduler.request r = s.request r
  running : ∀ r ∈ rest, r ∈ s.running
  goesOn : ∀ r ∈ u.stillRunning, r ∈ s.running ∧
    GoesOn schedulerOutput modelRunnerOutput r (s.request r) (u.scheduler.request r)
  stopped : ∀ r ∈ s.requests, r ∉ u.scheduler.requests →
    Stops schedulerOutput modelRunnerOutput s r (u.scheduler.request r)

theorem Followed.step {u u' : UpdateState H} {r : RequestId} {rest : List RequestId}
    (h : Followed s schedulerOutput modelRunnerOutput u (r :: rest)) (hpart : s.Partitioned)
    (hstep : UpdateState.UpdateOutcome schedulerOutput modelRunnerOutput r u u') :
    Followed s schedulerOutput modelRunnerOutput u' rest := by
  have hsettled := h.settled.step hstep
  have hrunning : r ∈ s.running := h.running r List.mem_cons_self
  have hsame : u.scheduler.request r = s.request r :=
    h.unseen r (List.mem_append_left _ List.mem_cons_self)
  have hrest : ∀ r' ∈ rest, r' ∈ s.running := fun r' hr' =>
    h.running r' (List.mem_cons_of_mem _ hr')
  -- the request visited is none of the others
  have hnodup := h.settled.partition.running_nodup
  rw [List.nodup_append] at hnodup
  have hdone : ∀ r' ∈ u.stillRunning, r' ≠ r := fun r' hr' =>
    hnodup.2.2 r' hr' r List.mem_cons_self
  have hunseen : ∀ request : Request H, ∀ r' ∈ rest ++ s.queued,
      Function.update u.scheduler.request r request r' = s.request r' := by
    intro request r' hr'
    have hne : r' ≠ r := by
      rintro rfl
      rcases List.mem_append.mp hr' with hin | hin
      · exact (List.nodup_cons.mp hnodup.2.1).1 hin
      · exact hpart.not_running_of_waiting hin hrunning
    rw [Function.update_of_ne hne]
    exact h.unseen r' (by rw [List.cons_append]; exact List.mem_cons_of_mem _ hr')
  have hothers : ∀ request : Request H, ∀ r' ∈ u.stillRunning, r' ∈ s.running ∧
      GoesOn schedulerOutput modelRunnerOutput r' (s.request r')
        (Function.update u.scheduler.request r request r') := by
    intro request r' hr'
    rw [Function.update_of_ne (hdone r' hr')]
    exact h.goesOn r' hr'
  have hknown : r ∈ u.scheduler.requests := h.settled.partition.known_of_running
    (List.mem_append_right _ List.mem_cons_self)
  have hgone : ∀ request : Request H, ∀ r' ∈ s.requests, r' ∉ u.scheduler.requests →
      Stops schedulerOutput modelRunnerOutput s r'
        (Function.update u.scheduler.request r request r') := by
    intro request r' hr' hgone
    have hne : r' ≠ r := fun heq => hgone (heq ▸ hknown)
    rw [Function.update_of_ne hne]
    exact h.stopped r' hr' hgone
  cases hstep with
  | skip hscheduled =>
      refine ⟨hsettled, h.queue, fun r' hr' => h.unseen r' ?_, hrest, fun r' hr' => ?_, h.stopped⟩
      · rw [List.cons_append]
        exact List.mem_cons_of_mem _ hr'
      · rcases List.mem_append.mp hr' with hr' | hr'
        · exact h.goesOn r' hr'
        · obtain rfl := List.mem_singleton.mp hr'
          show _ ∧ GoesOn _ _ r' _ (u.scheduler.request r')
          rw [hsame]
          exact ⟨hrunning, .passed hscheduled⟩
  | @goOn request kept outputs drafts accepted hscheduled hfolds hkept hpooled houtputs =>
      refine ⟨hsettled, h.queue, hunseen request, hrest, fun r' hr' => ?_, hgone request⟩
      rcases List.mem_append.mp hr' with hr' | hr'
      · exact hothers request r' hr'
      · obtain rfl := List.mem_singleton.mp hr'
        show _ ∧ GoesOn _ _ r' _ (Function.update u.scheduler.request r' request r')
        rw [Function.update_self]
        rw [hsame] at hfolds hkept hpooled
        exact ⟨hrunning, .folded hscheduled hfolds hkept hpooled⟩
  | @stop request kept output kv connector cache drafts accepted hscheduled hfolds hkept houtput
      hfree hconnector =>
      refine ⟨hsettled, h.queue, hunseen request, hrest, hothers request, fun r' hr' hnot => ?_⟩
      by_cases heq : r' = r
      · show Stops _ _ s r' (Function.update u.scheduler.request r request r')
        rw [heq, Function.update_self]
        rw [hsame] at hfolds
        exact ⟨hrunning, hscheduled, kept, hfolds⟩
      · exact hgone request r' hr' fun hin => hnot ((List.mem_erase_of_ne heq).mpr hin)

/-- What `update_from_output` makes of the running requests, and of the queue. -/
structure UpdateFollows (s s' : Scheduler H) (schedulerOutput : SchedulerOutput)
    (modelRunnerOutput : ModelRunnerOutput) : Prop where
  queued : s'.queued = s.queued
  waiting : ∀ r ∈ s.queued, s'.request r = s.request r
  running : ∀ r ∈ s'.running, r ∈ s.running ∧ ∃ request,
    GoesOn schedulerOutput modelRunnerOutput r (s.request r) request ∧
      s'.request r = drafted modelRunnerOutput r request
  stopped : ∀ r ∈ s.requests, r ∉ s'.requests →
    Stops schedulerOutput modelRunnerOutput s r (s'.request r)

theorem updateFromOutput_follows {outputs : Dict ℕ (List EngineCoreOutput)} (h : s.Settled)
    (hok : s.updateFromOutput schedulerOutput modelRunnerOutput = .ok (outputs, s')) :
    UpdateFollows s s' schedulerOutput modelRunnerOutput := by
  have hsettled := h.updateFromOutput hok
  obtain ⟨u, s₁, hall, hshed, -, heq⟩ := updateFromOutput_ok hok
  have hfollowed : Followed s schedulerOutput modelRunnerOutput u [] := by
    refine UpdateState.updateAll_invariant hall ?_ fun _ _ _ _ hstep hs => hs.step h.partition hstep
    exact ⟨⟨h.partition, h.skipped⟩, rfl, fun _ _ => rfl, fun _ hr => hr,
      fun _ hr => absurd hr List.not_mem_nil, fun _ hr hnot => absurd hr hnot⟩
  obtain ⟨-, hframe⟩ := shedAll_ok (P := fun _ => True) hshed trivial fun _ _ _ _ _ _ => trivial
  have hrequest : s'.request = draftedTable modelRunnerOutput u.stillRunning
      u.scheduler.request := by
    rw [heq, hframe]
  have hrunning : s'.running = u.stillRunning := by rw [heq]
  have hqueue : s'.queued = s.queued := by
    rw [← hfollowed.queue, heq, hframe]
    rfl
  have hrequests : s'.requests = u.scheduler.requests := by rw [heq, hframe]
  refine ⟨hqueue, fun r hr => ?_, fun r hr => ?_, fun r hr hgone => ?_⟩
  · have hnot : r ∉ u.stillRunning := by
      rw [← hrunning]
      exact hsettled.partition.not_running_of_waiting (hqueue ▸ hr)
    rw [hrequest, draftedTable, if_neg hnot]
    exact hfollowed.unseen r hr
  · rw [hrunning] at hr
    obtain ⟨hwas, hgoes⟩ := hfollowed.goesOn r hr
    refine ⟨hwas, _, hgoes, ?_⟩
    rw [hrequest, draftedTable, if_pos hr]
  · have hnot : r ∉ u.stillRunning := by
      rw [← hrunning]
      exact fun hr => hgone (hsettled.partition.known_of_running hr)
    rw [hrequest, draftedTable, if_neg hnot]
    exact hfollowed.stopped r hr (hrequests ▸ hgone)

/-! ### The other calls -/

theorem finishOne_follows {finishedStatus : RequestStatus} {r : RequestId} (h : s.Settled)
    (hok : s.finishOne finishedStatus r = .ok s') :
    ∀ r' ∈ s'.running, r' ∈ s.running ∧ s'.request r' = s.request r' := by
  intro r' hr'
  rcases finishOne_ok hok with ⟨-, rfl⟩ | ⟨-, running, waiting, kv, connector, cache,
    hplace, -, -, rfl⟩
  · exact ⟨hr', rfl⟩
  have hwas : r' ∈ s.running ∧ r' ≠ r := by
    rcases hplace with ⟨-, -, rfl, -⟩ | ⟨hstatus, rfl, -⟩
    · exact ⟨List.mem_of_mem_erase hr', fun heq =>
        h.partition.running_nodup.not_mem_erase (heq ▸ hr')⟩
    · exact ⟨hr', fun heq => hstatus (heq ▸ h.partition.status r' hr')⟩
  refine ⟨hwas.1, ?_⟩
  show Function.update s.request r _ r' = s.request r'
  rw [Function.update_of_ne hwas.2]

/-- A call that may come at any time changes nothing of a request that runs after it,
but what its grammar was compiled to. -/
theorem Step.follows {event : Event} (hstep : Step s event s') (hanytime : event.anytime = true)
    (h : s.Settled) : ∀ r ∈ s'.running, r ∈ s.running ∧
      ∃ grammar, s'.request r = { s.request r with structuredOutputRequest := grammar } := by
  intro r hr
  cases hstep with
  | @addRequest args request hrequest hfresh =>
      obtain ⟨hid, -⟩ := Request.init_ok hrequest
      rw [addRequest_eq] at hr ⊢
      refine ⟨hr, (s.request r).structuredOutputRequest, ?_⟩
      have hne : r ≠ request.requestId := by
        rintro rfl
        exact hfresh (hid ▸ h.partition.known_of_running hr)
      show Function.update s.request request.requestId _ r = _
      rw [Function.update_of_ne hne]
  | finishRequests hok =>
      obtain ⟨hfinished, hall⟩ := finishRequests_ok hok
      have hsame := finishAll_invariant (P := fun s' => s'.Settled ∧
          ∀ r ∈ s'.running, r ∈ s.running ∧ s'.request r = s.request r) hall
        ⟨h, fun r hr => ⟨hr, rfl⟩⟩ fun s₁ s₂ r' _ hone hs => by
          refine ⟨hs.1.finishOne hfinished hone, fun r hr => ?_⟩
          obtain ⟨hwas, heq⟩ := finishOne_follows hs.1 hone r hr
          exact ⟨(hs.2 r hwas).1, heq.trans (hs.2 r hwas).2⟩
      obtain ⟨hwas, heq⟩ := hsame.2 r hr
      exact ⟨hwas, (s.request r).structuredOutputRequest, heq⟩
  | schedule hok => cases hanytime
  | updateFromOutput hok => cases hanytime
  | resetPrefixCache => exact ⟨hr, (s.request r).structuredOutputRequest, rfl⟩
  | @grammar r' result hcompiling =>
      by_cases heq : r = r'
      · subst heq
        refine ⟨hr, some result, ?_⟩
        show Function.update s.request r _ r = _
        rw [Function.update_self]
      · refine ⟨hr, (s.request r).structuredOutputRequest, ?_⟩
        show Function.update s.request r' _ r = _
        rw [Function.update_of_ne heq]
  | sharedStore hconnector => exact ⟨hr, (s.request r).structuredOutputRequest, rfl⟩

end Scheduler

end Pvllm
