import Pvllm.Core.Sched.Run

/-!
What folding a step's results back can do, and what ending requests from
outside can.

`Folds` says how a result changes the one request it is for, `UpdateOutcome`
lists what one iteration of `update_from_output` does, and `finishOne_ok` is the
one thing `finish_requests` does to a request that is still there.
-/

namespace Pvllm

variable {H : Type} [DecidableEq H]

/-! ### One request -/

namespace Request

omit [DecidableEq H] in
def appendAll (request : Request H) (tokenIds : List TokenId) : Request H :=
  tokenIds.foldl appendOutputTokenIds request

omit [DecidableEq H] in
@[simp] theorem appendAll_nil (request : Request H) : request.appendAll [] = request := rfl

omit [DecidableEq H] in
@[simp] theorem appendAll_cons (request : Request H) (tokenId : TokenId)
    (tokenIds : List TokenId) : request.appendAll (tokenId :: tokenIds) =
      (request.appendOutputTokenIds tokenId).appendAll tokenIds := rfl

omit [DecidableEq H] in
/-- Hashing changes the hashes only. -/
theorem updateBlockHashes_frame (request : Request H) :
    request.updateBlockHashes =
      { request with blockHashes := request.updateBlockHashes.blockHashes } := by
  unfold updateBlockHashes
  split <;> rfl

omit [DecidableEq H] in
/-- Appending changes the outputs and the hashes only. -/
theorem appendAll_frame (request : Request H) (tokenIds : List TokenId) :
    request.appendAll tokenIds = { request with
      outputTokenIds := request.outputTokenIds ++ tokenIds
      blockHashes := (request.appendAll tokenIds).blockHashes } := by
  induction tokenIds generalizing request with
  | nil => simp
  | cons tokenId tokenIds ih =>
      rw [appendAll_cons, ih, appendOutputTokenIds, updateBlockHashes_frame]
      simp

omit [DecidableEq H] in
/-- Setting the end of a request aside from its tokens. -/
def ended (request : Request H) (status : RequestStatus) (stopReason : Option TokenId) :
    Request H :=
  { request with status := status, stopReason := stopReason }

omit [DecidableEq H] in
theorem ended_self (request : Request H) :
    request.ended request.status request.stopReason = request := rfl

end Request

omit [DecidableEq H] in
/-- What `check_stop` does to a request: nothing, or its end. -/
theorem checkStop_ok {request request' : Request H} {maxModelLen : ℕ} {stopped : Bool}
    (h : checkStop request maxModelLen = .ok (stopped, request')) :
    ∃ status stopReason, request' = request.ended status stopReason ∧
      (stopped = false → status = request.status ∧ stopReason = request.stopReason) ∧
      (stopped = true → status.isFinished = true) := by
  unfold checkStop at h
  split at h
  · cases h
  split at h
  · obtain ⟨rfl, rfl⟩ := Prod.mk.inj (Except.ok.inj h)
    exact ⟨_, _, (Request.ended_self _).symm, fun _ => ⟨rfl, rfl⟩, nofun⟩
  split at h
  · cases h
  split at h
  · obtain ⟨rfl, rfl⟩ := Prod.mk.inj (Except.ok.inj h)
    exact ⟨_, _, rfl, nofun, fun _ => rfl⟩
  split at h
  · obtain ⟨rfl, rfl⟩ := Prod.mk.inj (Except.ok.inj h)
    exact ⟨_, _, rfl, nofun, fun _ => rfl⟩
  split at h
  · obtain ⟨rfl, rfl⟩ := Prod.mk.inj (Except.ok.inj h)
    exact ⟨_, _, rfl, nofun, fun _ => rfl⟩
  · obtain ⟨rfl, rfl⟩ := Prod.mk.inj (Except.ok.inj h)
    exact ⟨_, _, (Request.ended_self _).symm, fun _ => ⟨rfl, rfl⟩, nofun⟩

/-- A request with a result folded into it: the tokens kept are appended, and
where it stopped it is finished. -/
structure Folds (request request' : Request H) (kept : List TokenId) (stopped : Bool) : Prop where
  eq : request' = (request.appendAll kept).ended request'.status request'.stopReason
  goesOn : stopped = false →
    request'.status = request.status ∧ request'.stopReason = request.stopReason
  finished : stopped = true → request'.status.isFinished = true

namespace Scheduler

omit [DecidableEq H] in
theorem updateRequestWithOutput_ok {maxModelLen : ℕ} {request request' : Request H}
    {tokenIds kept : List TokenId} {stopped : Bool}
    (h : updateRequestWithOutput maxModelLen request tokenIds = .ok (kept, stopped, request')) :
    Folds request request' kept stopped ∧ kept <+: tokenIds ∧
      (stopped = false → kept = tokenIds) ∧ (stopped = true → kept ≠ []) := by
  induction tokenIds generalizing request kept with
  | nil =>
      simp only [updateRequestWithOutput, Except.ok.injEq, Prod.mk.injEq] at h
      obtain ⟨rfl, rfl, rfl⟩ := h
      exact ⟨⟨rfl, fun _ => ⟨rfl, rfl⟩, nofun⟩, List.prefix_rfl, fun _ => rfl,
        nofun⟩
  | cons tokenId tokenIds ih =>
      unfold updateRequestWithOutput at h
      split at h
      · cases h
      · rename_i request₁ hstop
        obtain ⟨status, stopReason, heq, -, hfinished⟩ := checkStop_ok hstop
        simp only [Except.ok.injEq, Prod.mk.injEq] at h
        obtain ⟨rfl, rfl, rfl⟩ := h
        refine ⟨⟨?_, nofun, fun _ => ?_⟩, ?_, nofun, by simp⟩
        · rw [heq]
          rfl
        · rw [heq]
          exact hfinished rfl
        · exact (List.prefix_cons_inj _).mpr (List.nil_prefix)
      · rename_i request₁ hstop
        obtain ⟨status, stopReason, heq, hsame, -⟩ := checkStop_ok hstop
        obtain ⟨rfl, rfl⟩ := hsame rfl
        rw [Request.ended_self] at heq
        subst heq
        split at h
        · cases h
        rename_i kept₁ stopped₁ request₂ hrest
        simp only [Except.ok.injEq, Prod.mk.injEq] at h
        obtain ⟨rfl, rfl, rfl⟩ := h
        obtain ⟨hfolds, hprefix, hall, hsome⟩ := ih hrest
        refine ⟨⟨hfolds.eq, fun hs => ?_, hfolds.finished⟩, (List.prefix_cons_inj _).mpr hprefix,
          fun hs => by rw [hall hs], by simp⟩
        obtain ⟨hstatus, hreason⟩ := hfolds.goesOn hs
        rw [hstatus, hreason, Request.appendOutputTokenIds, Request.updateBlockHashes_frame]
        exact ⟨rfl, rfl⟩

/-- Releasing a request that is finished: its blocks go, it is reported, and it
is no longer known. -/
theorem freeRequest_ok {s s' : Scheduler H} {r : RequestId} (h : s.freeRequest r = .ok s') :
    (s.request r).isFinished = true ∧ ∃ kv connector cache, s.kvCacheManager.free r = .ok kv ∧
      connector = s.connector.map (·.requestFinished (s.request r)) ∧
      s' = { s with
        connector := connector
        encoderCacheManager := cache
        kvCacheManager := kv
        finishedReqIds := EncoderCacheManager.insertNew s.finishedReqIds r
        requests := s.requests.erase r } := by
  unfold freeRequest at h
  dsimp only at h
  split at h
  · cases h
  rename_i hfinished
  split at h
  · cases h
  rename_i kv hfree
  exact ⟨by simpa using hfinished, kv, _, _, hfree, rfl,
    (Except.ok.inj h).symm⟩

end Scheduler

/-! ### One iteration of `update_from_output` -/

namespace UpdateState

variable {u u' : UpdateState H} {schedulerOutput : SchedulerOutput}
  {modelRunnerOutput : ModelRunnerOutput} {r : RequestId}

omit [DecidableEq H] in
theorem rollBack_eq (u : UpdateState H) (r : RequestId) (numDrafts numGenerated : ℕ) :
    ∃ drafts accepted, u.rollBack r numDrafts numGenerated = { u.scheduler with
      request := Function.update u.scheduler.request r
        ((u.scheduler.request r).withNumComputedTokens
          ((u.scheduler.request r).numComputedTokens - (numDrafts - (numGenerated - 1))))
      numDraftTokensTotal := drafts
      numAcceptedTokensTotal := accepted } := by
  unfold rollBack
  dsimp only
  split
  · rename_i hzero
    refine ⟨u.scheduler.numDraftTokensTotal, u.scheduler.numAcceptedTokensTotal, ?_⟩
    rw [hzero, Nat.zero_sub, Nat.sub_zero]
    change u.scheduler = { u.scheduler with
      request := Function.update u.scheduler.request r (u.scheduler.request r) }
    rw [Function.update_eq_self]
  · exact ⟨_, _, rfl⟩

def generatedFor (modelRunnerOutput : ModelRunnerOutput) (r : RequestId) : List TokenId :=
  (Scheduler.atIndex modelRunnerOutput r modelRunnerOutput.sampledTokenIds).getD []

def pooledFor (modelRunnerOutput : ModelRunnerOutput) (r : RequestId) : Option PoolingOutput :=
  (Scheduler.atIndex modelRunnerOutput r (modelRunnerOutput.poolerOutput.getD [])).join

/-- The request with the rejected drafts rolled off its computed count. -/
def rolledBack (request : Request H) (schedulerOutput : SchedulerOutput)
    (modelRunnerOutput : ModelRunnerOutput) (r : RequestId) : Request H :=
  request.withNumComputedTokens (request.numComputedTokens -
    ((schedulerOutput.scheduledSpecDecodeTokens.findD r []).length -
      ((generatedFor modelRunnerOutput r).length - 1)))

/-- What one iteration does: nothing, for a request outside the batch; fold the
result in; or fold it in and release the request. -/
inductive UpdateOutcome (schedulerOutput : SchedulerOutput) (modelRunnerOutput : ModelRunnerOutput)
    (r : RequestId) (u : UpdateState H) : UpdateState H → Prop
  | skip (hscheduled : schedulerOutput.numScheduledTokens.findD r 0 = 0) :
      UpdateOutcome schedulerOutput modelRunnerOutput r u
        { u with stillRunning := u.stillRunning ++ [r] }
  | goOn {request : Request H} {kept : List TokenId} {outputs : Dict ℕ (List EngineCoreOutput)}
      {drafts accepted : ℕ} (hscheduled : schedulerOutput.numScheduledTokens.findD r 0 ≠ 0)
      (hfolds : Folds (rolledBack (u.scheduler.request r) schedulerOutput modelRunnerOutput r)
        request kept false)
      (hkept : kept = if (u.scheduler.request r).usePooling then []
        else generatedFor modelRunnerOutput r)
      (hpooled : (u.scheduler.request r).usePooling = true → pooledFor modelRunnerOutput r = none)
      (houtputs : kept = [] ∧ outputs = u.outputs ∨
        kept ≠ [] ∧ ∃ output : EngineCoreOutput, output.requestId = r ∧
          output.newTokenIds = kept ∧
          outputs = u.outputs.store request.clientIndex
            (u.outputs.findD request.clientIndex [] ++ [output])) :
      UpdateOutcome schedulerOutput modelRunnerOutput r u {
        scheduler := { u.scheduler with
          request := Function.update u.scheduler.request r request
          numDraftTokensTotal := drafts
          numAcceptedTokensTotal := accepted }
        outputs := outputs
        stillRunning := u.stillRunning ++ [r] }
  | stop {request : Request H} {kept : List TokenId} {output : EngineCoreOutput}
      {kv : KVCacheManager H} {connector : Option (SimSharedStoreConnector H)}
      {cache : EncoderCacheManager} {drafts accepted : ℕ}
      (hscheduled : schedulerOutput.numScheduledTokens.findD r 0 ≠ 0)
      (hfolds : Folds (rolledBack (u.scheduler.request r) schedulerOutput modelRunnerOutput r)
        request kept true)
      (hkept : kept <+: if (u.scheduler.request r).usePooling then []
        else generatedFor modelRunnerOutput r)
      (houtput : output.requestId = r ∧ output.newTokenIds = kept)
      (hfree : u.scheduler.kvCacheManager.free r = .ok kv)
      (hconnector : connector = u.scheduler.connector.map (·.requestFinished request)) :
      UpdateOutcome schedulerOutput modelRunnerOutput r u {
        scheduler := { u.scheduler with
          request := Function.update u.scheduler.request r request
          numDraftTokensTotal := drafts
          numAcceptedTokensTotal := accepted
          connector := connector
          encoderCacheManager := cache
          kvCacheManager := kv
          finishedReqIds := EncoderCacheManager.insertNew u.scheduler.finishedReqIds r
          requests := u.scheduler.requests.erase r }
        outputs := u.outputs.store request.clientIndex
          (u.outputs.findD request.clientIndex [] ++ [output])
        stillRunning := u.stillRunning }

omit [DecidableEq H] in
theorem applyOutput_ok {s : Scheduler H} {generated kept : List TokenId}
    {poolingOutput vector : Option PoolingOutput} {stopped : Bool} {request : Request H}
    (h : applyOutput s r generated poolingOutput = .ok (kept, stopped, vector, request)) :
    Folds (s.request r) request kept stopped ∧
      (kept <+: if (s.request r).usePooling then [] else generated) ∧
      (stopped = false → kept = if (s.request r).usePooling then [] else generated) ∧
      (stopped = false → (s.request r).usePooling = true → poolingOutput = none) := by
  unfold applyOutput at h
  dsimp only at h
  split at h
  · rename_i hpooling
    rw [if_pos hpooling]
    split at h
    · simp only [Except.ok.injEq, Prod.mk.injEq] at h
      obtain ⟨rfl, rfl, -, rfl⟩ := h
      exact ⟨⟨rfl, fun _ => ⟨rfl, rfl⟩, nofun⟩, List.prefix_rfl, fun _ => rfl, fun _ _ => rfl⟩
    · simp only [Except.ok.injEq, Prod.mk.injEq] at h
      obtain ⟨rfl, rfl, -, rfl⟩ := h
      exact ⟨⟨rfl, nofun, fun _ => rfl⟩, List.prefix_rfl, nofun, nofun⟩
  · rename_i hpooling
    rw [if_neg hpooling]
    split at h
    · cases h
    rename_i kept₁ stopped₁ request₁ hupdate
    simp only [Except.ok.injEq, Prod.mk.injEq] at h
    obtain ⟨rfl, rfl, -, rfl⟩ := h
    obtain ⟨hfolds, hprefix, hall, -⟩ := Scheduler.updateRequestWithOutput_ok hupdate
    exact ⟨hfolds, hprefix, hall, fun _ hyes => absurd hyes hpooling⟩

theorem updateOne_outcome (h : u.updateOne schedulerOutput modelRunnerOutput r = .ok u') :
    UpdateOutcome schedulerOutput modelRunnerOutput r u u' := by
  unfold updateOne at h
  split at h
  · rename_i hzero
    obtain rfl := Except.ok.inj h
    exact .skip hzero
  rename_i hscheduled
  dsimp only at h
  obtain ⟨drafts, accepted, hroll⟩ := rollBack_eq u r
    (schedulerOutput.scheduledSpecDecodeTokens.findD r []).length
    (generatedFor modelRunnerOutput r).length
  unfold generatedFor at hroll
  rw [hroll] at h
  split at h
  · cases h
  rename_i kept stopped vector request happly
  obtain ⟨hfolds, hprefix, hall, hnone⟩ := applyOutput_ok happly
  simp only [Function.update_self] at hfolds hprefix hall hnone
  split at h
  · rename_i hstopped
    subst hstopped
    split at h
    · cases h
    rename_i s₁ hfree
    obtain ⟨hfinished, kv, connector, cache, hkv, hconnector, rfl⟩ := Scheduler.freeRequest_ok hfree
    obtain rfl := Except.ok.inj h
    simp only [Scheduler.modifyRequest, Function.update_self] at hconnector
    simp only [Scheduler.modifyRequest, Function.update_idem, or_true, if_true]
    exact .stop hscheduled hfolds hprefix ⟨rfl, rfl⟩ hkv hconnector
  · rename_i hstopped
    have hgoes : stopped = false := by simpa using hstopped
    subst hgoes
    obtain rfl := Except.ok.inj h
    simp only [Scheduler.modifyRequest, Function.update_idem]
    refine .goOn hscheduled hfolds (hall rfl) (hnone rfl) ?_
    by_cases hkept : kept = []
    · exact Or.inl ⟨hkept, by simp [hkept]⟩
    · exact Or.inr ⟨hkept, _, rfl, rfl, by rw [if_pos (Or.inl hkept)]⟩

/-- An iteration for a request of the batch applies its result to what it is
after the rejected drafts are off; the result ends the request or leaves it. -/
theorem updateOne_applied (h : u.updateOne schedulerOutput modelRunnerOutput r = .ok u')
    (hscheduled : schedulerOutput.numScheduledTokens.findD r 0 ≠ 0) :
    ∃ s kept stopped vector,
      s.request r = rolledBack (u.scheduler.request r) schedulerOutput modelRunnerOutput r ∧
      s.config = u.scheduler.config ∧
      applyOutput s r (generatedFor modelRunnerOutput r) (pooledFor modelRunnerOutput r) =
        .ok (kept, stopped, vector, u'.scheduler.request r) ∧
      u'.scheduler.requests =
        if stopped then u.scheduler.requests.erase r else u.scheduler.requests := by
  unfold updateOne at h
  rw [if_neg hscheduled] at h
  dsimp only at h
  obtain ⟨drafts, accepted, hroll⟩ := rollBack_eq u r
    (schedulerOutput.scheduledSpecDecodeTokens.findD r []).length
    (generatedFor modelRunnerOutput r).length
  generalize hs : u.rollBack r (schedulerOutput.scheduledSpecDecodeTokens.findD r []).length
    (generatedFor modelRunnerOutput r).length = s at hroll
  unfold generatedFor at hs
  rw [hs] at h
  split at h
  · cases h
  rename_i kept stopped vector request happly
  have hrequest : s.request r =
      rolledBack (u.scheduler.request r) schedulerOutput modelRunnerOutput r := by
    rw [hroll]
    exact Function.update_self ..
  refine ⟨s, kept, stopped, vector, hrequest, by rw [hroll], ?_⟩
  have hrequests : s.requests = u.scheduler.requests := by rw [hroll]
  rw [← hrequests]
  split at h
  · rename_i hstopped
    split at h
    · cases h
    rename_i s₁ hfree
    obtain ⟨-, kv, connector, cache, -, -, rfl⟩ := Scheduler.freeRequest_ok hfree
    obtain rfl := Except.ok.inj h
    refine ⟨?_, (if_pos hstopped).symm⟩
    show _ = Except.ok (kept, stopped, vector, Function.update s.request r request r)
    rw [Function.update_self]
    exact happly
  · rename_i hstopped
    obtain rfl := Except.ok.inj h
    refine ⟨?_, (if_neg hstopped).symm⟩
    show _ = Except.ok (kept, stopped, vector, Function.update s.request r request r)
    rw [Function.update_self]
    exact happly

/-- What holds before the loop of `update_from_output` and is kept by every
iteration holds after it. The second argument is what is still to be visited. -/
theorem updateAll_induct {P : UpdateState H → List RequestId → Prop} {l : List RequestId}
    (hok : updateAll schedulerOutput modelRunnerOutput u l = .ok u') (hstart : P u l)
    (hkeep : ∀ u u' r rest, u.updateOne schedulerOutput modelRunnerOutput r = .ok u' →
      P u (r :: rest) → P u' rest) : P u' [] := by
  induction l generalizing u with
  | nil =>
      obtain rfl := Except.ok.inj hok
      exact hstart
  | cons r rest ih =>
      unfold updateAll at hok
      split at hok
      · cases hok
      rename_i u₁ hone
      exact ih hok (hkeep u u₁ r rest hone hstart)

/-- The same, with an iteration as one of its outcomes. -/
theorem updateAll_invariant {P : UpdateState H → List RequestId → Prop} {l : List RequestId}
    (hok : updateAll schedulerOutput modelRunnerOutput u l = .ok u') (hstart : P u l)
    (hkeep : ∀ u u' r rest, UpdateOutcome schedulerOutput modelRunnerOutput r u u' →
      P u (r :: rest) → P u' rest) : P u' [] :=
  updateAll_induct hok hstart fun u u' r rest hone => hkeep u u' r rest (updateOne_outcome hone)

end UpdateState

namespace Scheduler

/-! ### The whole of `update_from_output` -/

omit [DecidableEq H] in
/-- Shedding goes over the requests one by one; it changes the manager, and the
encoder cache. -/
theorem shedAll_ok {s s' : Scheduler H} {l : List RequestId} {P : KVCacheManager H → Prop}
    (h : s.shedAll l = .ok s') (hstart : P s.kvCacheManager)
    (hkeep : ∀ r ∈ l, ∀ m m', m.removeSkippedBlocks (s.request r) = .ok m' → P m → P m') :
    P s'.kvCacheManager ∧ s' = { s with
      kvCacheManager := s'.kvCacheManager
      encoderCacheManager := s'.encoderCacheManager } := by
  induction l generalizing s with
  | nil =>
      obtain rfl := Except.ok.inj h
      exact ⟨hstart, rfl⟩
  | cons r rest ih =>
      unfold shedAll at h
      split at h
      · cases h
      rename_i m hm
      dsimp only at h
      obtain ⟨hfirst, hrest⟩ := List.forall_mem_cons.mp hkeep
      split at h
      · exact ih (s := { s with kvCacheManager := m }) h (hfirst _ _ hm hstart) hrest
      · exact ih (s := Scheduler.freeEncoderInputs { s with kvCacheManager := m } r) h
          (hfirst _ _ hm hstart) hrest

omit [DecidableEq H] in
def drafted (modelRunnerOutput : ModelRunnerOutput) (r : RequestId) (request : Request H) :
    Request H :=
  match modelRunnerOutput.specTokenIds.bind (atIndex modelRunnerOutput r) with
  | none => request
  | some specTokenIds => request.withSpecTokenIds specTokenIds

omit [DecidableEq H] in
theorem storeDrafts_eq (modelRunnerOutput : ModelRunnerOutput) (r : RequestId) (s : Scheduler H) :
    s.storeDrafts modelRunnerOutput r = s.modifyRequest r (drafted modelRunnerOutput r) := by
  have hself : s = s.modifyRequest r fun request => request := by
    rw [modifyRequest, Function.update_eq_self]
  unfold storeDrafts drafted
  cases modelRunnerOutput.specTokenIds with
  | none => exact hself
  | some drafts =>
      rw [Option.bind_some]
      dsimp only
      cases atIndex modelRunnerOutput r drafts with
      | none => exact hself
      | some specTokenIds => rfl

omit [DecidableEq H] in
def draftedTable (modelRunnerOutput : ModelRunnerOutput) (l : List RequestId)
    (request : RequestId → Request H) (r : RequestId) : Request H :=
  if r ∈ l then drafted modelRunnerOutput r (request r) else request r

omit [DecidableEq H] in
/-- Storing drafts changes nothing but them. -/
theorem draftedTable_frame (modelRunnerOutput : ModelRunnerOutput) (l : List RequestId)
    (request : RequestId → Request H) (r : RequestId) :
    draftedTable modelRunnerOutput l request r = (request r).withSpecTokenIds
      (draftedTable modelRunnerOutput l request r).specTokenIds := by
  unfold draftedTable
  split
  · unfold drafted
    split <;> rfl
  · rfl

omit [DecidableEq H] in
theorem drafted_idem (modelRunnerOutput : ModelRunnerOutput) (r : RequestId)
    (request : Request H) :
    drafted modelRunnerOutput r (drafted modelRunnerOutput r request) =
      drafted modelRunnerOutput r request := by
  unfold drafted
  split <;> rfl

omit [DecidableEq H] in
theorem foldl_storeDrafts (modelRunnerOutput : ModelRunnerOutput) (l : List RequestId)
    (s : Scheduler H) :
    l.foldl (fun s r => s.storeDrafts modelRunnerOutput r) s =
      { s with request := draftedTable modelRunnerOutput l s.request } := by
  induction l generalizing s with
  | nil => rfl
  | cons r l ih =>
      rw [List.foldl_cons, ih, storeDrafts_eq, modifyRequest]
      dsimp only
      congr 1
      funext r'
      unfold draftedTable
      by_cases hr : r' = r
      · subst hr
        by_cases hl : r' ∈ l <;> simp [hl, drafted_idem]
      · simp [hr]

theorem updateFromOutput_ok {s s' : Scheduler H} {schedulerOutput : SchedulerOutput}
    {modelRunnerOutput : ModelRunnerOutput} {outputs : Dict ℕ (List EngineCoreOutput)}
    (h : s.updateFromOutput schedulerOutput modelRunnerOutput = .ok (outputs, s')) :
    ∃ u s₁, UpdateState.updateAll schedulerOutput modelRunnerOutput ⟨s, .empty, []⟩ s.running =
        .ok u ∧ u.scheduler.shedAll u.stillRunning = .ok s₁ ∧ outputs = u.outputs ∧
      s' = { s₁ with
        request := draftedTable modelRunnerOutput u.stillRunning s₁.request
        running := u.stillRunning } := by
  unfold updateFromOutput at h
  split at h
  · cases h
  rename_i u hall
  split at h
  · cases h
  rename_i s₁ hshed
  simp only [foldl_storeDrafts, Except.ok.injEq, Prod.mk.injEq] at h
  exact ⟨u, s₁, hall, hshed, h.1.symm, h.2.symm⟩

/-! ### Ending requests from outside -/

/-- What ending does to a request that is still there: it leaves the queue it is
in, with the status it is given, and is released. -/
theorem finishOne_ok {s s' : Scheduler H} {finishedStatus : RequestStatus} {r : RequestId}
    (h : s.finishOne finishedStatus r = .ok s') :
    ((r ∉ s.requests ∨ (s.request r).isFinished = true) ∧ s' = s) ∨
    r ∈ s.requests ∧ ∃ running waiting kv connector cache,
      ((s.request r).status = .running ∧ r ∈ s.running ∧ running = s.running.erase r ∧
          waiting = s.waiting ∨
        (s.request r).status ≠ .running ∧ running = s.running ∧
          s.waiting.removeRequest r = .ok waiting) ∧
      s.kvCacheManager.free r = .ok kv ∧ connector = s.connector.map
        (·.requestFinished ((s.request r).withStatus finishedStatus)) ∧
      s' = { s with
        request := Function.update s.request r ((s.request r).withStatus finishedStatus)
        running := running
        waiting := waiting
        connector := connector
        encoderCacheManager := cache
        kvCacheManager := kv
        finishedReqIds := EncoderCacheManager.insertNew s.finishedReqIds r
        requests := s.requests.erase r } := by
  unfold finishOne at h
  split at h
  · rename_i hgone
    exact Or.inl ⟨hgone, (Except.ok.inj h).symm⟩
  rename_i hhere
  rw [not_or, not_not] at hhere
  refine Or.inr ⟨hhere.1, ?_⟩
  dsimp only at h
  split at h
  · cases h
  rename_i s₁ hremoved
  obtain ⟨hfinished, kv, connector, cache, hfree, hconnector, rfl⟩ := freeRequest_ok h
  split at hremoved
  · rename_i hstatus
    split at hremoved
    · rename_i hmem
      obtain rfl := Except.ok.inj hremoved
      simp only [modifyRequest, Function.update_self] at hconnector
      exact ⟨_, _, kv, connector, cache, Or.inl ⟨hstatus, hmem, rfl, rfl⟩, hfree, hconnector, rfl⟩
    · cases hremoved
  · rename_i hstatus
    split at hremoved
    · cases hremoved
    rename_i waiting hremove
    obtain rfl := Except.ok.inj hremoved
    simp only [modifyRequest, Function.update_self] at hconnector
    exact ⟨_, waiting, kv, connector, cache, Or.inr ⟨hstatus, rfl, hremove⟩, hfree, hconnector, rfl⟩

/-- What holds before `finish_requests` and is kept for every id holds after it. -/
theorem finishAll_invariant {P : Scheduler H → Prop} {s s' : Scheduler H}
    {finishedStatus : RequestStatus} {l : List RequestId}
    (hok : finishAll finishedStatus s l = .ok s') (hstart : P s)
    (hkeep : ∀ s s', ∀ r ∈ l, s.finishOne finishedStatus r = .ok s' → P s → P s') : P s' := by
  induction l generalizing s with
  | nil =>
      obtain rfl := Except.ok.inj hok
      exact hstart
  | cons r rest ih =>
      unfold finishAll at hok
      split at hok
      · cases hok
      rename_i s₁ hone
      exact ih hok (hkeep s s₁ r List.mem_cons_self hone hstart)
        fun s s' r' hr' => hkeep s s' r' (List.mem_cons_of_mem _ hr')

theorem finishRequests_ok {s s' : Scheduler H} {finishedStatus : RequestStatus}
    {requestIds : List RequestId} (h : s.finishRequests requestIds finishedStatus = .ok s') :
    finishedStatus.isFinished = true ∧ finishAll finishedStatus s requestIds = .ok s' := by
  unfold finishRequests at h
  split at h
  · rename_i hstatus
    exact ⟨hstatus, h⟩
  · cases h

end Scheduler

end Pvllm
