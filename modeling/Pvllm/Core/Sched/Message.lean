import Pvllm.Core.Sched.Coherence
import Pvllm.Core.Sched.References

/-!
What a decision tells the worker.

The worker learns of a request from the new requests of a decision, hears of it
again as a cached one, and drops it when it is named as preempted or as finished.
`Told` says which requests those are: what is sent as cached was running before the
call, and what is running after it was running before or is sent as new.
-/

namespace Pvllm

variable {H : Type} [DecidableEq H]

/-! ### The running requests of a call -/

namespace StepState

variable {s : Scheduler H} {l l' : StepState H}

/-- Which requests come into the batch, and from where. -/
structure Joined (s : Scheduler H) (l : StepState H) : Prop where
  cached : ∀ r ∈ l.scheduledRunningReqs, r ∈ s.running
  running : ∀ r ∈ l.scheduler.running,
    r ∈ s.running ∨ r ∈ l.scheduledNewReqs ++ l.scheduledResumedReqs

theorem Outcome.joined (h : Outcome l l') (hb : Batch l) (hl : Joined s l) : Joined s l' := by
  cases h with
  | rest hphase => exact hl
  | enter hphase => exact ⟨hl.cached, hl.running⟩
  | pass hphase hr =>
      refine ⟨hl.cached, fun r hr => hl.running r ?_⟩
      rwa [disableSpeculation_running] at hr
  | takeUp hphase hr hn hbudget hspec hlen =>
      refine ⟨hl.cached, fun r hr => hl.running r ?_⟩
      rwa [disableSpeculation_running] at hr
  | @commit r n blocks kv hphase hok =>
      have hover : l.phase.overRunning = true := by rw [hphase]; rfl
      obtain ⟨hnew, hresumed, -⟩ := hb.first hover
      have hrunning := List.mem_of_mem_take (hb.allocating r n hphase).2.2.1
      refine ⟨fun r' hr' => ?_, fun r' hr' => hl.running r' ?_⟩
      · rcases List.mem_append.mp hr' with hr' | hr'
        · exact hl.cached r' hr'
        · -- in the first loop nothing was admitted
          rw [List.mem_singleton.mp hr']
          simpa [hnew, hresumed] using hl.running r hrunning
      · rw [commitRunning_request] at hr'
        exact hr'
  | @preempt r victim n kv inBatch blocks scheduled inputs cache encoderBudget tokenBudget reqIndex
      loras hphase hok hvictim hstatus hfree hbatch hinputs =>
      refine ⟨fun r' hr' => hl.cached r' ?_, fun r' hr' => hl.running r' ?_⟩
      · change r' ∈ inBatch at hr'
        rcases hbatch with ⟨-, rfl, -⟩ | ⟨-, -, rfl, -⟩
        · exact hr'
        · exact List.mem_of_mem_erase hr'
      · dsimp only at hr'
        split at hr'
        · exact List.dropLast_subset _ hr'
        · exact List.mem_of_mem_erase hr'
  | close hphase hs =>
      rcases hs with rfl | ⟨r, hs⟩
      · exact ⟨hl.cached, hl.running⟩
      · exact ⟨hl.cached, fun r' hr' => hl.running r' (hs.running_eq ▸ hr')⟩
  | setAside hphase hs hfree hpop =>
      exact ⟨hl.cached, fun r' hr' => hl.running r' (hs.running_eq ▸ hr')⟩
  | lookUp hphase hs hpreempted hhits hexternal hrunning hn hbudget hlen =>
      exact ⟨hl.cached, fun r' hr' => hl.running r' (hs.running_eq ▸ hr')⟩
  | decline hphase hok => exact ⟨hl.cached, hl.running⟩
  | @accept r₁ r hits blocks numLocal numExternal n ids kv waiting connector loras hphase hok hpop
      hstatus hconnector =>
      refine ⟨hl.cached, fun r' hr' => ?_⟩
      have hin : r' ∈ l.scheduler.running ∨ r' = r := by simpa using hr'
      rw [List.mem_append]
      rcases hin with hin | rfl
      · refine (hl.running r' hin).imp_right fun hmem => ?_
        rw [List.mem_append] at hmem
        dsimp only
        split
        · exact hmem.imp_left (List.mem_append_left _)
        · exact hmem.imp_right (List.mem_append_left _)
      · refine Or.inr ?_
        dsimp only
        split
        · exact Or.inl (List.mem_append_right _ (List.mem_singleton_self _))
        · exact Or.inr (List.mem_append_right _ (List.mem_singleton_self _))

theorem Loops.joined (hpart : s.Partitioned) (hloops : Loops (start s) l) : Joined s l := by
  induction hloops with
  | refl => exact ⟨fun r hr => absurd hr List.not_mem_nil, fun r hr => Or.inl hr⟩
  | tail hloops hstep ih => exact (advance_outcome hstep).joined (Loops.batch hpart hloops) ih

end StepState

/-! ### The message -/

namespace Scheduler

/-- Which requests a decision names, and as what. -/
structure Told (s : Scheduler H) (output : SchedulerOutput) (s' : Scheduler H) : Prop where
  finished : output.finishedReqIds = s.finishedReqIds
  drained : s'.finishedReqIds = []
  requests : s'.requests = s.requests
  fresh : ∀ new ∈ output.scheduledNewReqs, new.reqId ∈ s'.running ∧
    new.mmFeatures = (s.request new.reqId).mmFeatures
  cached : ∀ r ∈ output.scheduledCachedReqs.reqIds, r ∈ s.running ∧ r ∈ s'.running
  running : ∀ r ∈ s'.running, r ∈ s.running ∨ r ∈ output.scheduledNewReqs.map (·.reqId)
  keys : ∀ r, r ∈ output.numScheduledTokens.keys ↔
    r ∈ output.scheduledNewReqs.map (·.reqId) ∨ r ∈ output.scheduledCachedReqs.reqIds
  encoder : ∀ r ∈ output.scheduledEncoderInputs.keys, r ∈ output.numScheduledTokens.keys
  idle : output.totalNumScheduledTokens = 0 → output.numScheduledTokens.keys = []

theorem schedule_told {s s' : Scheduler H} {output : SchedulerOutput} (hpart : s.Partitioned)
    (hok : s.schedule = .ok (output, s')) : s.Told output s' := by
  obtain ⟨l, hloops, hfinished, hfinishes⟩ := schedule_ok hok
  obtain ⟨-, hrequests, hdone⟩ := hloops.static
  have hb := hloops.batch hpart
  have hjoined := hloops.joined hpart
  have hrunning : s'.running = l.scheduler.running := by
    rw [hfinishes.state, StepState.restoreSkippedWaiting_frame]
  have hnew := StepState.makeNewRequestData_reqIds hb.partition.requestId hfinishes.newReqs
  have hfeatures := StepState.makeNewRequestData_map (fun new => (new.reqId, new.mmFeatures))
    (fun r => (r, (s.request r).mmFeatures))
    (fun r blocks => Prod.ext (hb.partition.requestId r) (hloops.keeps r).encoder.2)
    hfinishes.newReqs
  have hcached : output.scheduledCachedReqs.reqIds = l.scheduledRunningReqs :=
    (StepState.makeCachedRequestData_lists hfinishes.cachedReqs).1
  constructor
  case finished => exact hfinishes.finishedReqIds.trans hdone
  case drained => rw [hfinishes.state]
  case requests =>
    rw [hfinishes.state, StepState.restoreSkippedWaiting_frame]
    exact hrequests
  case fresh =>
    intro new hmem
    constructor
    · rw [hrunning]
      apply hb.running
      rw [StepState.batch, List.mem_append, ← hnew]
      exact Or.inr (List.mem_map_of_mem hmem)
    · have hpair := List.mem_map_of_mem (f := fun new => (new.reqId, new.mmFeatures)) hmem
      rw [hfeatures] at hpair
      obtain ⟨r, -, heq⟩ := List.mem_map.mp hpair
      obtain ⟨rfl, heq⟩ := Prod.mk.inj heq
      exact heq.symm
  case cached =>
    intro r hr
    rw [hcached] at hr
    rw [hrunning]
    exact ⟨hjoined.cached r hr, hb.running r (List.mem_append_left _ hr)⟩
  case running =>
    intro r hr
    rw [hnew]
    exact hjoined.running r (hrunning ▸ hr)
  case keys =>
    intro r
    rw [hfinishes.scheduled, hb.keys, hnew, hcached, StepState.batch, List.mem_append]
    exact Or.comm
  case encoder =>
    intro r hr
    rw [hfinishes.encoder] at hr
    rw [hfinishes.scheduled, hb.keys]
    rcases hb.encoder r hr with hin | ⟨n, hphase⟩
    · exact hin
    · rw [hfinished] at hphase
      cases hphase
  case idle =>
    intro hzero
    rw [hfinishes.total] at hzero
    rw [hfinishes.scheduled, List.eq_nil_iff_forall_not_mem]
    intro r hr
    obtain ⟨n, hfind⟩ := (Dict.mem_keys_iff ..).mp hr
    -- whoever is in the batch has at least one token
    have hpos := hb.pos r n hfind
    have hnone := List.sum_eq_zero_iff_forall_eq_nat.mp hzero n
      (List.mem_map_of_mem (f := (·.2)) ((Dict.find_eq_some_iff ..).mp hfind))
    omega

end Scheduler

end Pvllm
