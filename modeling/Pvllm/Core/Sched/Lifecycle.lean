import Pvllm.Core.Sched.Batch

/-!
The life of a request over a run of the scheduler.

`Settled` is the partition between steps, where nothing is set aside; every step
keeps it. `Reported` counts the ends: each request that ended is about to be
reported or was, once. `run_placed` puts both together, with the fact that no
output is produced for a request after it was ended from outside.
-/

namespace Pvllm

variable {H : Type} [DecidableEq H]

/-! ### A new request -/

omit [DecidableEq H] in
theorem Request.init_ok {args : RequestArgs} {request : Request H}
    (h : Request.init args = .ok request) :
    request.requestId = args.requestId ∧ request.Queued := by
  unfold Request.init at h
  split at h
  · cases h
  split at h
  · cases h
  obtain rfl := Except.ok.inj h
  refine ⟨rfl, ?_, rfl⟩
  dsimp only
  split
  · exact Or.inr (Or.inl rfl)
  · exact Or.inl rfl

omit [DecidableEq H] in
theorem Request.attachBlockHasher_frame (request : Request H) (hasher : BlockHasher H) :
    request.attachBlockHasher hasher = { request with
      blockHasher := some hasher
      blockHashes := (request.attachBlockHasher hasher).blockHashes } := by
  unfold Request.attachBlockHasher
  rw [Request.updateBlockHashes_frame]

namespace Scheduler

/-- The request as it is stored when it is added. -/
def stored (s : Scheduler H) (request : Request H) : Request H :=
  match s.kvCacheManager.blockHasher with
  | some hasher => request.attachBlockHasher hasher
  | none => request

omit [DecidableEq H] in
theorem stored_frame (s : Scheduler H) (request : Request H) :
    s.stored request = { request with
      blockHasher := (s.stored request).blockHasher
      blockHashes := (s.stored request).blockHashes } := by
  unfold stored
  split
  · rename_i hasher _
    rw [Request.attachBlockHasher_frame]
  · rfl

omit [DecidableEq H] in
theorem addRequest_eq (s : Scheduler H) (request : Request H) :
    s.addRequest request = { s with
      request := Function.update s.request request.requestId (s.stored request)
      waiting := s.waiting.addRequest
        (Function.update s.request request.requestId (s.stored request)) request.requestId
      requests := EncoderCacheManager.insertNew s.requests request.requestId } := by
  have hid : (s.stored request).requestId = request.requestId := by rw [stored_frame]
  unfold addRequest
  dsimp only
  change ({ s with
    request := Function.update s.request (s.stored request).requestId (s.stored request)
    waiting := s.waiting.addRequest
      (Function.update s.request (s.stored request).requestId (s.stored request))
      (s.stored request).requestId
    requests := EncoderCacheManager.insertNew s.requests (s.stored request).requestId } :
      Scheduler H) = _
  rw [hid]

/-- Between steps: the partition, and nothing set aside. -/
structure Settled (s : Scheduler H) : Prop where
  partition : s.Partitioned
  skipped : s.skippedWaiting.items = []

theorem Settled.queued_eq {s : Scheduler H} (h : s.Settled) : s.queued = s.waiting.items := by
  rw [queued, h.skipped, List.append_nil]

theorem init_settled {config : SchedulerConfig} {kvCacheConfig : KVCacheConfig}
    {enableCaching : Bool} {hashFn : HashInput H → H} {seed : ℕ}
    {connector : Option (SimSharedStoreConnector H)} {s : Scheduler H}
    (h : init config kvCacheConfig enableCaching hashFn seed connector = .ok s) :
    s.Settled ∧ s.requests = [] ∧ s.finishedReqIds = [] := by
  unfold init at h
  split at h
  · cases h
  rename_i kv hkv
  split at h
  · cases h
  obtain rfl := Except.ok.inj h
  obtain ⟨horder, -, -, -, hempty, -⟩ := KVCacheManager.init_inOrder hkv
  exact ⟨⟨⟨fun _ => rfl, List.nodup_nil, List.Perm.refl _, nofun, nofun, fun _ _ => rfl,
    fun r _ manager hm => hempty manager hm r, ⟨_, horder⟩⟩, rfl⟩, rfl, rfl⟩

theorem Settled.addRequest {s : Scheduler H} (h : s.Settled) {args : RequestArgs}
    {request : Request H} (hrequest : Request.init args = .ok request)
    (hfresh : args.requestId ∉ s.requests) : (s.addRequest request).Settled := by
  obtain ⟨hid, hqueued⟩ := Request.init_ok hrequest
  rw [← hid] at hfresh
  rw [addRequest_eq]
  set r := request.requestId with hr
  have hstored : (s.stored request).requestId = r ∧ (s.stored request).Queued := by
    rw [stored_frame]
    exact ⟨rfl, hqueued.status, hqueued.numComputedTokens⟩
  refine ⟨?_, h.skipped⟩
  have hinsert : EncoderCacheManager.insertNew s.requests r = s.requests ++ [r] :=
    if_neg hfresh
  rw [Partitioned, hinsert]
  refine (h.partition.add hfresh hstored.1 hstored.2).congr_perm (List.Perm.refl _) ?_
  rw [h.queued_eq, queued, h.skipped, List.append_nil]
  exact (RequestQueue.addRequest_perm ..).symm

/-! ### Ending a request -/

theorem Settled.finishOne {s s' : Scheduler H} (h : s.Settled) {finishedStatus : RequestStatus}
    {r : RequestId} (hfinished : finishedStatus.isFinished = true)
    (hok : s.finishOne finishedStatus r = .ok s') : s'.Settled := by
  rcases finishOne_ok hok with ⟨-, rfl⟩ |
    ⟨hknown, running, waiting, kv, connector, cache, hplace, hfree, -, rfl⟩
  · exact h
  refine ⟨?_, h.skipped⟩
  have hpart := h.partition
  rcases hplace with ⟨hstatus, hmem, rfl, rfl⟩ | ⟨hstatus, rfl, hremove⟩
  · refine hpart.release (hpart.requestId r) hfinished ?_ (fun r' hr' => List.mem_of_mem_erase hr')
      (fun _ hr' => hr') (fun r' hr' hne => (List.mem_erase_of_ne hne).mpr hr') hfree
    exact (List.perm_cons_erase hmem).append_right s.queued
  · have hnot : r ∉ s.running := fun hmem => hstatus (hpart.status r hmem)
    have hmem : r ∈ s.waiting.items := by
      rw [← h.queued_eq]
      exact (List.mem_append.mp (hpart.perm.mem_iff.mp hknown)).resolve_left hnot
    have hwaiting := hpart.waiting_nodup
    rw [h.queued_eq] at hwaiting
    have hitems := RequestQueue.removeRequest_eq_ok hwaiting hremove
    have hqueued : waiting.items ++ s.skippedWaiting.items = s.waiting.items.erase r := by
      rw [hitems, h.skipped, List.append_nil]
    rw [Partitioned, queued]
    dsimp only
    rw [hqueued]
    refine hpart.release (hpart.requestId r) hfinished ?_ (fun _ hr' => hr')
      (fun r' hr' => h.queued_eq ▸ List.mem_of_mem_erase hr') (fun _ hr' _ => hr') hfree
    rw [h.queued_eq]
    exact ((List.perm_cons_erase hmem).append_left _).trans List.perm_middle

theorem Settled.finishRequests {s s' : Scheduler H} (h : s.Settled)
    {finishedStatus : RequestStatus} {requestIds : List RequestId}
    (hok : s.finishRequests requestIds finishedStatus = .ok s') : s'.Settled := by
  obtain ⟨hfinished, hall⟩ := finishRequests_ok hok
  exact finishAll_invariant hall h fun s s' r _ hone hs => hs.finishOne hfinished hone

/-! ### Scheduling -/

omit [DecidableEq H] in
theorem advancedTable_status (request : RequestId → Request H) (scheduled : List (RequestId × ℕ))
    (r : RequestId) :
    (StepState.advancedTable request scheduled r).requestId = (request r).requestId ∧
      (StepState.advancedTable request scheduled r).status = (request r).status := by
  unfold StepState.advancedTable
  split <;> exact ⟨rfl, rfl⟩

omit [DecidableEq H] in
theorem advancedTable_of_not_mem {request : RequestId → Request H}
    {scheduled : List (RequestId × ℕ)} {r : RequestId} (h : r ∉ scheduled.map Prod.fst) :
    StepState.advancedTable request scheduled r = request r := by
  rw [StepState.advancedTable, (Dict.findIn_eq_none_iff r scheduled).mpr h]

theorem Settled.schedule {s s' : Scheduler H} (h : s.Settled) {output : SchedulerOutput}
    (hok : s.schedule = .ok (output, s')) : s'.Settled := by
  obtain ⟨l, hloops, -, hfinishes⟩ := schedule_ok hok
  have hb := hloops.batch h.partition
  obtain ⟨hskipped, hperm⟩ := StepState.restoreSkippedWaiting_items l.scheduler
  have hqueued : l.scheduler.queued.Perm (l.scheduler.restoreSkippedWaiting.waiting.items ++
      l.scheduler.restoreSkippedWaiting.skippedWaiting.items) := by
    rw [hskipped, List.append_nil]
    exact List.perm_append_comm.trans hperm.symm
  have hadvanced := (hb.partition.congr_perm (List.Perm.refl _) hqueued).congr_request
    (StepState.advancedTable l.scheduler.request l.numScheduledTokens.items)
    (fun r => (advancedTable_status ..).1) (fun r => (advancedTable_status ..).2) fun r hr => by
      have hnot := hb.partition.not_running_of_waiting (hqueued.mem_iff.mpr hr)
      rw [advancedTable_of_not_mem fun hmem => hnot (hb.running r ((hb.keys r).mp hmem))]
  rw [hfinishes.state, StepState.restoreSkippedWaiting_frame]
  exact ⟨hadvanced, hskipped⟩

/-! ### Folding results back -/

omit [DecidableEq H] in
theorem Folds.requestId {request request' : Request H} {kept : List TokenId} {stopped : Bool}
    (h : Folds request request' kept stopped) : request'.requestId = request.requestId := by
  rw [h.eq, Request.appendAll_frame]
  rfl

/-- The partition, with the requests the loop goes on with and those it has not
come to as the running ones. -/
structure UpdateSettled (u : UpdateState H) (rest : List RequestId) : Prop where
  partition : Partition u.scheduler.request u.scheduler.kvCacheManager u.scheduler.requests
    (u.stillRunning ++ rest) u.scheduler.queued
  skipped : u.scheduler.skippedWaiting.items = []

theorem UpdateSettled.step {u u' : UpdateState H} {r : RequestId} {rest : List RequestId}
    {schedulerOutput : SchedulerOutput} {modelRunnerOutput : ModelRunnerOutput}
    (h : UpdateSettled u (r :: rest))
    (hstep : UpdateState.UpdateOutcome schedulerOutput modelRunnerOutput r u u') :
    UpdateSettled u' rest := by
  have hmem : r ∈ u.stillRunning ++ r :: rest := by simp
  have hsplit : u.stillRunning ++ r :: rest = u.stillRunning ++ [r] ++ rest := by simp
  have hpart := h.partition
  cases hstep with
  | skip hscheduled =>
      rw [hsplit] at hpart
      exact ⟨hpart, h.skipped⟩
  | goOn hscheduled hfolds hkept hpooled houtputs =>
      have hupdated := hpart.update_running hmem
        ((Folds.requestId hfolds).trans (hpart.requestId r))
        ((hfolds.goesOn rfl).1.trans (hpart.status r hmem))
      rw [hsplit] at hupdated
      exact ⟨hupdated, h.skipped⟩
  | stop hscheduled hfolds hkept houtput hfree hconnector =>
      refine ⟨hpart.release ((Folds.requestId hfolds).trans (hpart.requestId r))
        (hfolds.finished rfl) ?_ (fun r' hr' => ?_) (fun _ hr' => hr') (fun r' hr' hne => ?_) hfree,
        h.skipped⟩
      · exact List.perm_middle.append_right _
      · rcases List.mem_append.mp hr' with hr' | hr'
        · exact List.mem_append_left _ hr'
        · exact List.mem_append_right _ (List.mem_cons_of_mem _ hr')
      · rcases List.mem_append.mp hr' with hr' | hr'
        · exact List.mem_append_left _ hr'
        · exact List.mem_append_right _ ((List.mem_cons.mp hr').resolve_left hne)

theorem partition_shedAll {s s' : Scheduler H} {l : List RequestId}
    (h : Partition s.request s.kvCacheManager s.requests l s.queued)
    (hok : s.shedAll l = .ok s') :
    Partition s.request s'.kvCacheManager s.requests l s.queued := by
  refine (shedAll_ok (P := fun m => Partition s.request m s.requests l s.queued) hok h
    fun r hr m m' hshed hpart => ?_).1
  obtain ⟨free, horder⟩ := hpart.order
  obtain ⟨free', horder', -⟩ := KVCacheManager.removeSkippedBlocks_inOrder horder hshed
  refine hpart.manager_running hr (fun r' hne => ?_) ⟨free', horder'⟩
  refine KVCacheManager.removeSkippedBlocks_getBlocks_of_ne horder hshed ?_
  rwa [hpart.requestId]

theorem Settled.updateFromOutput {s s' : Scheduler H} (h : s.Settled)
    {schedulerOutput : SchedulerOutput} {modelRunnerOutput : ModelRunnerOutput}
    {outputs : Dict ℕ (List EngineCoreOutput)}
    (hok : s.updateFromOutput schedulerOutput modelRunnerOutput = .ok (outputs, s')) :
    s'.Settled := by
  obtain ⟨u, s₁, hall, hshed, -, rfl⟩ := updateFromOutput_ok hok
  have hsettled : UpdateSettled u [] :=
    UpdateState.updateAll_invariant hall ⟨h.partition, h.skipped⟩
      fun _ _ _ _ hstep hs => hs.step hstep
  have hpart := hsettled.partition
  rw [List.append_nil] at hpart
  have hshedded := partition_shedAll hpart hshed
  obtain ⟨-, heq⟩ := shedAll_ok (P := fun _ => True) hshed trivial fun _ _ _ _ _ _ => trivial
  have hdrafted := hshedded.congr_request
    (draftedTable modelRunnerOutput u.stillRunning u.scheduler.request)
    (fun r => by rw [draftedTable_frame]; rfl) (fun r => by rw [draftedTable_frame]; rfl)
    fun r _ => by rw [draftedTable_frame]; rfl
  rw [heq]
  exact ⟨hdrafted, hsettled.skipped⟩

/-! ### Every step -/

theorem Settled.resetPrefixCache {s : Scheduler H} (h : s.Settled) :
    s.resetPrefixCache.2.Settled := by
  obtain ⟨free, horder⟩ := h.partition.order
  obtain ⟨horder', -, hmanagers, -⟩ := KVCacheManager.resetPrefixCache_spec horder
  refine ⟨h.partition.manager_same (fun r => ?_) ⟨free, horder'⟩, h.skipped⟩
  exact congrArg (List.map fun manager => manager.getBlocks r) hmanagers

theorem Step.settled {s s' : Scheduler H} {e : Event} (hstep : Step s e s') (h : s.Settled) :
    s'.Settled := by
  cases hstep with
  | addRequest hrequest hfresh => exact h.addRequest hrequest hfresh
  | finishRequests hok => exact h.finishRequests hok
  | schedule hok => exact h.schedule hok
  | updateFromOutput hok => exact h.updateFromOutput hok
  | resetPrefixCache => exact h.resetPrefixCache
  | grammar hcompiling => exact ⟨h.partition.update_same _ rfl rfl rfl, h.skipped⟩
  | sharedStore hconnector => exact ⟨h.partition, h.skipped⟩

theorem run_settled {s s' : Scheduler H} {events : List Event} (hrun : Run Step s events s')
    (h : s.Settled) : s'.Settled :=
  hrun.invariant (P := fun _ s => s.Settled) h fun _ _ _ _ _ h hstep => hstep.settled h

end Scheduler

end Pvllm
