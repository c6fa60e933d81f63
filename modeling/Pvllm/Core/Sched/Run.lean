import Pvllm.Core.Sched.Outcomes
import Pvllm.Core.Tables
import Pvllm.Library.LabelledRun
import Mathlib.Logic.Relation

/-!
Runs of the scheduler.

A step of a run is a call on the scheduler, or something that happens to what
it reads from outside: a grammar is compiled, another engine writes to the
shared store. The label records the arguments of the call and its answer. The
points the loops of one call of `schedule` pass are `Loops`; `schedule_ok` and
`finish_ok` take a call apart, and `schedule_ne_outOfFuel` says that the model's
fuel never runs out.
-/

namespace Pvllm

variable {H : Type} [DecidableEq H]

/-- What a step of a run was. -/
inductive Event where
  | addRequest (args : RequestArgs)
  | finishRequests (requestIds : List RequestId) (finishedStatus : RequestStatus)
  | schedule (output : SchedulerOutput)
  | updateFromOutput (schedulerOutput : SchedulerOutput) (modelRunnerOutput : ModelRunnerOutput)
      (outputs : Dict ℕ (List EngineCoreOutput))
  | resetPrefixCache
  | grammar (requestId : RequestId) (result : Grammar)
  | sharedStore

namespace Scheduler

/-- One step of the scheduler. A request is added under an id not in use. -/
inductive Step : Scheduler H → Event → Scheduler H → Prop
  | addRequest {s : Scheduler H} {args : RequestArgs} {request : Request H}
      (hrequest : Request.init args = .ok request) (hfresh : args.requestId ∉ s.requests) :
      Step s (.addRequest args) (s.addRequest request)
  | finishRequests {s s' : Scheduler H} {requestIds : List RequestId}
      {finishedStatus : RequestStatus}
      (hok : s.finishRequests requestIds finishedStatus = .ok s') :
      Step s (.finishRequests requestIds finishedStatus) s'
  | schedule {s s' : Scheduler H} {output : SchedulerOutput} (hok : s.schedule = .ok (output, s')) :
      Step s (.schedule output) s'
  | updateFromOutput {s s' : Scheduler H} {schedulerOutput : SchedulerOutput}
      {modelRunnerOutput : ModelRunnerOutput} {outputs : Dict ℕ (List EngineCoreOutput)}
      (hok : s.updateFromOutput schedulerOutput modelRunnerOutput = .ok (outputs, s')) :
      Step s (.updateFromOutput schedulerOutput modelRunnerOutput outputs) s'
  | resetPrefixCache {s : Scheduler H} : Step s .resetPrefixCache s.resetPrefixCache.2
  | grammar {s : Scheduler H} {r : RequestId} {result : Grammar}
      (hcompiling : (s.request r).structuredOutputRequest = some .compiling) :
      Step s (.grammar r result) (s.modifyRequest r fun request =>
        { request with structuredOutputRequest := some result })
  | sharedStore {s : Scheduler H} {connector : SimSharedStoreConnector H} {store : SimKVStore H}
      (hconnector : s.connector = some connector) :
      Step s .sharedStore { s with connector := some { connector with store := store } }

end Scheduler

/-! ### One call of `schedule` -/

namespace StepState

/-- From one point of the loops to another. -/
abbrev Loops (l l' : StepState H) : Prop :=
  Relation.ReflTransGen (fun l l' : StepState H => l.advance = .ok l') l l'

/-- What holds at a point of the loops and is kept by every step holds at every
later point. -/
theorem Loops.invariant {P : StepState H → Prop} {l l' : StepState H} (hloops : Loops l l')
    (hstart : P l) (hkeep : ∀ l l', Outcome l l' → P l → P l') : P l' := by
  induction hloops with
  | refl => exact hstart
  | tail _ hstep ih => exact hkeep _ _ (advance_outcome hstep) ih

/-- After the loops nothing moves. -/
theorem Loops.stays {l l' : StepState H} (hloops : Loops l l') (hfinished : l.phase = .finished) :
    l' = l := by
  induction hloops with
  | refl => rfl
  | tail hbefore hstep ih =>
      subst ih
      unfold advance at hstep
      rw [hfinished] at hstep
      exact (Except.ok.inj hstep).symm

def checkLoops (p : StepState H → Bool) (l : StepState H) : ℕ → Bool
  | 0 => false
  | fuel + 1 => p l && (decide (l.phase = .finished) ||
    match l.advance with
    | .error _ => true
    | .ok l => l.checkLoops p fuel)

theorem checkLoops_sound {p : StepState H → Bool} {l l' : StepState H} {fuel : ℕ}
    (h : l.checkLoops p fuel = true) (hloops : Loops l l') : p l' = true := by
  induction fuel generalizing l with
  | zero => cases h
  | succ fuel ih =>
      simp only [checkLoops, Bool.and_eq_true, Bool.or_eq_true, decide_eq_true_eq] at h
      obtain ⟨hhere, hafter⟩ := h
      rcases Relation.ReflTransGen.cases_head hloops with rfl | ⟨l₁, hstep, hrest⟩
      · exact hhere
      rcases hafter with hfinished | hafter
      · rw [Loops.stays hloops hfinished]
        exact hhere
      · rw [hstep] at hafter
        exact ih hafter hrest

theorem runLoops_ok {fuel : ℕ} {l l' : StepState H} (h : l.runLoops fuel = .ok l') :
    Loops l l' ∧ l'.phase = .finished := by
  induction fuel generalizing l with
  | zero => cases h
  | succ fuel ih =>
      unfold runLoops at h
      split at h
      · rename_i hfinished
        obtain rfl := Except.ok.inj h
        exact ⟨.refl, hfinished⟩
      · split at h
        · cases h
        rename_i l₁ hstep
        obtain ⟨hloops, hfinished⟩ := ih h
        exact ⟨.head hstep hloops, hfinished⟩

/-- What is left to do: each running request is taken up and given slots or
preempted, and each waiting one is looked up and let in. -/
def remaining (l : StepState H) : ℕ :=
  let queued := if l.preemptedReqs = [] then 2 * l.scheduler.waiting.items.length + 2 else 1
  let left := 2 * (l.scheduler.running.length - l.reqIndex) + l.scheduler.running.length
  match l.phase with
  | .running => left + 1 + queued
  | .allocating _ _ =>
    2 * (l.scheduler.running.length - (l.reqIndex + 1)) + 2 + l.scheduler.running.length + queued
  | .admission => 2 * l.scheduler.waiting.items.length + 2
  | .admitting .. => 2 * l.scheduler.waiting.items.length + 1
  | .finished => 0

omit [DecidableEq H] in
theorem maxVictim_mem (request : RequestId → Request H) (best : RequestId) (l : List RequestId) :
    Scheduler.maxVictim request best l ∈ best :: l := by
  induction l generalizing best with
  | nil => exact List.mem_singleton_self _
  | cons r l ih =>
      unfold Scheduler.maxVictim
      split
      · exact List.mem_cons_of_mem _ (ih r)
      · have hmem := ih best
        rw [List.mem_cons] at hmem ⊢
        exact hmem.imp_right (List.mem_cons_of_mem _)

omit [DecidableEq H] in
theorem selectVictim_mem {s : Scheduler H} {victim : RequestId}
    (h : s.selectVictim = .ok victim) :
    victim ∈ s.running ∧ (s.config.policy = .fcfs → s.running.getLast? = some victim) := by
  unfold Scheduler.selectVictim at h
  split at h
  · rename_i hpolicy
    split at h
    · cases h
    rename_i r rest hrunning
    obtain rfl := Except.ok.inj h
    refine ⟨?_, fun hfcfs => by rw [hpolicy] at hfcfs; cases hfcfs⟩
    rw [hrunning]
    exact maxVictim_mem ..
  · split at h
    · cases h
    rename_i r hlast
    obtain rfl := Except.ok.inj h
    exact ⟨List.mem_of_getLast? hlast, fun _ => hlast⟩

omit [DecidableEq H] in
/-- Taking the victim off the running list, by position or by name. -/
theorem perm_dropVictim {s : Scheduler H} {victim : RequestId} (h : s.selectVictim = .ok victim) :
    s.running.Perm (victim :: if s.config.policy = .fcfs then s.running.dropLast
      else s.running.erase victim) := by
  obtain ⟨hmem, hlast⟩ := selectVictim_mem h
  split
  · rename_i hpolicy
    have hsplit := List.dropLast_append_getLast? victim (hlast hpolicy)
    exact (List.perm_append_singleton victim _).symm.trans (by rw [hsplit]) |>.symm
  · exact List.perm_cons_erase hmem

theorem Prepared.waiting_eq {s s' : Scheduler H} {r : RequestId} (h : Prepared s s' r) :
    s'.waiting = s.waiting := by
  rw [h.frame]

omit [DecidableEq H] in
theorem commitRunning_running (l : StepState H) (r : RequestId) (n : ℕ)
    (blocks : List (List BlockId)) (kv : KVCacheManager H) :
    (l.commitRunning r n blocks kv).scheduler.running = l.scheduler.running := by
  unfold commitRunning
  dsimp only
  split <;> rfl

omit [DecidableEq H] in
theorem commitRunning_waiting (l : StepState H) (r : RequestId) (n : ℕ)
    (blocks : List (List BlockId)) (kv : KVCacheManager H) :
    (l.commitRunning r n blocks kv).scheduler.waiting = l.scheduler.waiting := by
  unfold commitRunning
  dsimp only
  split <;> rfl

/-- Every step leaves less to do. -/
theorem Outcome.remaining_lt {l l' : StepState H} (h : Outcome l l')
    (hphase : l.phase ≠ .finished) : l'.remaining < l.remaining := by
  cases h with
  | rest hfinished => exact absurd hfinished hphase
  | enter hrunning =>
      by_cases hnone : l.preemptedReqs = []
      · simp only [remaining, hrunning, hnone, if_true]
        omega
      · simp only [remaining, hrunning, hnone, if_false]
        omega
  | pass hrunning hr =>
      have hlt := (List.getElem?_eq_some_iff.mp hr).1
      simp only [remaining, hrunning, disableSpeculation_running, disableSpeculation_waiting]
      omega
  | takeUp hrunning hr hn hbudget hspec hlen =>
      have hlt := (List.getElem?_eq_some_iff.mp hr).1
      simp only [remaining, hrunning, disableSpeculation_running, disableSpeculation_waiting]
      omega
  | commit hallocating hok =>
      simp only [remaining, hallocating]
      rw [commitRunning_running, commitRunning_waiting]
      simp only [commitRunning]
      omega
  | @preempt r victim n kv inBatch blocks scheduled inputs cache encoderBudget tokenBudget reqIndex
      loras hallocating hok hvictim hstatus hfree hbatch hinputs =>
      have hperm := (perm_dropVictim hvictim).length_eq
      rw [List.length_cons] at hperm
      -- the index goes back by one at most, and one request less is running
      have hindex : reqIndex = l.reqIndex ∨ reqIndex = l.reqIndex - 1 := by
        rcases hbatch with h | h
        · exact Or.inl h.2.2.2.2.2
        · exact Or.inr h.2.2.2.2.2.2
      have hnonempty : l.preemptedReqs ++ [victim] ≠ [] := by simp
      generalize (if l.scheduler.config.policy = .fcfs then l.scheduler.running.dropLast
        else l.scheduler.running.erase victim) = rest at hperm ⊢
      by_cases hself : victim = r
      · simp only [remaining, hallocating, hself, if_true]
        omega
      · simp only [remaining, hallocating, hself, hnonempty, if_false]
        split <;> omega
  | close hadmission hs => simp [remaining, hadmission]
  | setAside hadmission hs hfree hpop =>
      have hitems := congrArg List.length (RequestQueue.popRequest_eq_ok hpop)
      rw [hs.waiting_eq, List.length_cons] at hitems
      simp only [remaining, hadmission]
      omega
  | lookUp hadmission hs hpreempted hhits hexternal hrunning hn hbudget hlen =>
      simp [remaining, hadmission, hs.waiting_eq]
  | decline hadmitting hok => simp [remaining, hadmitting]
  | accept hadmitting hok hpop hstatus hconnector =>
      have hitems := congrArg List.length (RequestQueue.popRequest_eq_ok hpop)
      rw [List.length_cons] at hitems
      simp only [remaining, hadmitting]
      omega

/-- With fuel for what is left to do, a call ends, or fails where a step of its
loops fails. -/
theorem runLoops_total {l : StepState H} {fuel : ℕ} (hfuel : l.remaining < fuel) :
    (∃ l', l.runLoops fuel = .ok l') ∨
      ∃ l' e, Loops l l' ∧ l'.advance = .error e ∧ l.runLoops fuel = .error e := by
  induction fuel generalizing l with
  | zero => omega
  | succ fuel ih =>
      unfold runLoops
      by_cases hphase : l.phase = .finished
      · exact Or.inl ⟨l, if_pos hphase⟩
      rw [if_neg hphase]
      cases hstep : l.advance with
      | error e => exact Or.inr ⟨l, e, .refl, hstep, rfl⟩
      | ok l₁ =>
          have hless := (advance_outcome hstep).remaining_lt hphase
          rcases ih (l := l₁) (by omega) with hdone | ⟨l', e, hloops, herror, hsame⟩
          · exact Or.inl hdone
          · exact Or.inr ⟨l', e, .head hstep hloops, herror, hsame⟩

/-! ### After the loops -/

def advancedTable (request : RequestId → Request H) (scheduled : List (RequestId × ℕ))
    (r : RequestId) : Request H :=
  match Dict.findIn r scheduled with
  | none => request r
  | some n => (request r).advanced n

omit [DecidableEq H] in
theorem updateAfterSchedule_ok {s s' : Scheduler H} {scheduled : List (RequestId × ℕ)}
    (hnodup : (scheduled.map Prod.fst).Nodup) (h : updateAfterSchedule s scheduled = .ok s') :
    (∀ r ∈ scheduled.map Prod.fst, r ∈ s.requests) ∧
      s' = { s with request := advancedTable s.request scheduled, finishedReqIds := [] } := by
  induction scheduled generalizing s with
  | nil => exact ⟨by simp, (Except.ok.inj h).symm⟩
  | cons entry rest ih =>
      obtain ⟨r, n⟩ := entry
      rw [List.map_cons, List.nodup_cons] at hnodup
      unfold updateAfterSchedule at h
      split at h
      · cases h
      rename_i hmem
      obtain ⟨hrest, rfl⟩ := ih hnodup.2 h
      refine ⟨?_, ?_⟩
      · rw [List.map_cons, List.forall_mem_cons]
        exact ⟨not_not.mp hmem, hrest⟩
      · simp only [Scheduler.modifyRequest]
        congr 1
        funext r'
        by_cases hr : r' = r
        · subst hr
          have hnone := (Dict.findIn_eq_none_iff r' rest).mpr hnodup.1
          simp [advancedTable, Dict.findIn, hnone]
        · simp [advancedTable, Dict.findIn, hr, Ne.symm hr]

omit [DecidableEq H] in
theorem restoreSkippedWaiting_frame (s : Scheduler H) :
    s.restoreSkippedWaiting = { s with
      waiting := s.restoreSkippedWaiting.waiting
      skippedWaiting := s.restoreSkippedWaiting.skippedWaiting } := by
  unfold Scheduler.restoreSkippedWaiting
  split <;> rfl

omit [DecidableEq H] in
/-- The set-aside requests go back to the waiting queue, and none is left. -/
theorem restoreSkippedWaiting_items (s : Scheduler H) :
    s.restoreSkippedWaiting.skippedWaiting.items = [] ∧
      s.restoreSkippedWaiting.waiting.items.Perm (s.skippedWaiting.items ++ s.waiting.items) := by
  unfold Scheduler.restoreSkippedWaiting
  split
  · rename_i hnil
    exact ⟨hnil, by rw [hnil, List.nil_append]⟩
  · exact ⟨rfl, RequestQueue.prependRequests_perm ..⟩

/-- What a call answers, and the scheduler it leaves, from where its loops ended. -/
structure Finishes (l : StepState H) (output : SchedulerOutput) (s' : Scheduler H) : Prop where
  newReqs : l.makeNewRequestData = .ok output.scheduledNewReqs
  cachedReqs : l.makeCachedRequestData = .ok output.scheduledCachedReqs
  rows : l.structuredOutputRows = .ok output.structuredOutputRequestIds
  scheduled : output.numScheduledTokens = l.numScheduledTokens
  total : output.totalNumScheduledTokens = (l.numScheduledTokens.items.map (·.2)).sum
  spec : output.scheduledSpecDecodeTokens = l.scheduledSpecDecodeTokens
  encoder : output.scheduledEncoderInputs = l.scheduledEncoderInputs
  finishedReqIds : output.finishedReqIds = l.scheduler.finishedReqIds
  preempted : output.preemptedReqIds = if l.preemptedReqs = [] then none else some l.preemptedReqs
  known : ∀ r ∈ l.numScheduledTokens.keys, r ∈ l.scheduler.requests
  fits : l.scheduler.running.length ≤ l.scheduler.config.maxNumRunningReqs
  state : s' = { l.scheduler.restoreSkippedWaiting with
    request := advancedTable l.scheduler.request l.numScheduledTokens.items
    finishedReqIds := []
    encoderCacheManager := s'.encoderCacheManager
    connector := s'.connector
    stepIndex := s'.stepIndex }
  connector : s'.connector = l.scheduler.connector.map (·.buildConnectorMeta.2)
  metadata : output.kvConnectorMetadata = l.scheduler.connector.map (·.buildConnectorMeta.1)

omit [DecidableEq H] in
theorem finish_ok {l : StepState H} {output : SchedulerOutput} {s' : Scheduler H}
    (h : l.finish = .ok (output, s')) : Finishes l output s' := by
  unfold finish at h
  dsimp only at h
  split at h
  · cases h
  split at h
  · cases h
  rename_i hfits
  rw [restoreSkippedWaiting_frame] at h
  split at h
  · cases h
  rename_i newReqs hnew
  split at h
  · cases h
  rename_i cachedReqs hcached
  split at h
  · cases h
  rename_i rows hrows
  split at h
  · cases h
  rename_i s₁ hafter
  obtain ⟨hknown, hstate⟩ := updateAfterSchedule_ok l.numScheduledTokens.nodup_keys hafter
  simp only [Except.ok.injEq, Prod.mk.injEq] at h
  obtain ⟨rfl, rfl⟩ := h
  subst hstate
  refine ⟨hnew, hcached, hrows, rfl, rfl, rfl, rfl, rfl, rfl, hknown, Nat.not_lt.mp hfits, ?_, rfl,
    rfl⟩
  rw [restoreSkippedWaiting_frame]

omit [DecidableEq H] in
/-- The evicted entries are reported, and forgotten. -/
theorem finish_freed {l : StepState H} {output : SchedulerOutput} {s' : Scheduler H}
    (h : l.finish = .ok (output, s')) :
    output.freeEncoderMmHashes = l.scheduler.encoderCacheManager.freed ∧
      s'.encoderCacheManager = { l.scheduler.encoderCacheManager with freed := [] } := by
  unfold finish at h
  dsimp only at h
  split at h
  · cases h
  split at h
  · cases h
  rw [restoreSkippedWaiting_frame] at h
  split at h
  · cases h
  split at h
  · cases h
  split at h
  · cases h
  split at h
  · cases h
  rename_i s₁ hafter
  obtain ⟨-, hstate⟩ := updateAfterSchedule_ok l.numScheduledTokens.nodup_keys hafter
  simp only [Except.ok.injEq, Prod.mk.injEq] at h
  obtain ⟨rfl, rfl⟩ := h
  subst hstate
  exact ⟨rfl, rfl⟩

end StepState

namespace Scheduler

/-- A call is its loops, and what follows them. -/
theorem schedule_finish {s s' : Scheduler H} {output : SchedulerOutput}
    (h : s.schedule = .ok (output, s')) :
    ∃ l, StepState.Loops (StepState.start s) l ∧ l.phase = .finished ∧
      l.finish = .ok (output, s') := by
  unfold schedule at h
  split at h
  · cases h
  rename_i l hloops
  obtain ⟨hreach, hfinished⟩ := StepState.runLoops_ok hloops
  exact ⟨l, hreach, hfinished, h⟩

theorem schedule_ok {s s' : Scheduler H} {output : SchedulerOutput}
    (h : s.schedule = .ok (output, s')) :
    ∃ l, StepState.Loops (StepState.start s) l ∧ l.phase = .finished ∧
      StepState.Finishes l output s' := by
  obtain ⟨l, hloops, hfinished, hfinish⟩ := schedule_finish h
  exact ⟨l, hloops, hfinished, StepState.finish_ok hfinish⟩

/-- The fuel of a call is enough: it fails only where a step of its loops, or
what follows them, fails. -/
theorem schedule_total (s : Scheduler H) :
    (∃ l, StepState.Loops (StepState.start s) l ∧ l.phase = .finished ∧
        s.schedule = l.finish) ∨
      ∃ l e, StepState.Loops (StepState.start s) l ∧ l.advance = .error e ∧
        s.schedule = .error e := by
  have hfuel : (StepState.start s).remaining < s.scheduleFuel := by
    simp only [StepState.remaining, StepState.start, scheduleFuel, if_true]
    omega
  unfold schedule
  rcases StepState.runLoops_total hfuel with ⟨l, hloops⟩ | ⟨l, e, hreach, herror, hloops⟩
  · obtain ⟨hreach, hfinished⟩ := StepState.runLoops_ok hloops
    exact Or.inl ⟨l, hreach, hfinished, by rw [hloops]⟩
  · exact Or.inr ⟨l, e, hreach, herror, by rw [hloops]⟩

end Scheduler

end Pvllm
