import Pvllm.Core.Sched.Reports
import Pvllm.Core.EncoderReferences

/-!
What the outputs of a step say of the requests that end in it.

A request leaves the scheduler in `update_from_output` exactly when an output of the
step gives its finish reason, and only one output does. Requests ended from outside
leave without one.
-/

namespace Pvllm

variable {H : Type} [DecidableEq H]

def outputsOf (outputs : Dict ℕ (List EngineCoreOutput)) : List EngineCoreOutput :=
  outputs.items.flatMap Prod.snd

def finishedIn (outputs : List EngineCoreOutput) : List RequestId :=
  (outputs.filter (·.finishReason.isSome)).map (·.requestId)

theorem finishedIn_append (first second : List EngineCoreOutput) :
    finishedIn (first ++ second) = finishedIn first ++ finishedIn second := by
  simp [finishedIn]

/-- Of the requests known before, those no longer known are the ones told, each once. -/
structure Finishes (before after told : List RequestId) : Prop where
  nodup : told.Nodup
  known : ∀ r ∈ told, r ∈ before
  after : ∀ r, r ∈ after ↔ r ∈ before ∧ r ∉ told

namespace Finishes

variable {before between after told told' : List RequestId}

theorem refl (before : List RequestId) : Finishes before before [] :=
  ⟨List.nodup_nil, nofun, by simp⟩

theorem perm (h : Finishes before after told) (hperm : told.Perm told') :
    Finishes before after told' where
  nodup := hperm.nodup_iff.mp h.nodup
  known r hr := h.known r (hperm.mem_iff.mpr hr)
  after r := by rw [h.after, hperm.mem_iff]

theorem trans (h : Finishes before between told) (h' : Finishes between after told') :
    Finishes before after (told ++ told') where
  nodup := List.nodup_append'.mpr ⟨h.nodup, h'.nodup, fun r hr hr' =>
    ((h.after r).mp (h'.known r hr')).2 hr⟩
  known r hr := (List.mem_append.mp hr).elim (h.known r) fun hr =>
    ((h.after r).mp (h'.known r hr)).1
  after r := by
    rw [h'.after, h.after, List.mem_append]
    tauto

/-- One request goes. -/
theorem erase {r : RequestId} (hr : r ∈ before) (hnodup : before.Nodup) :
    Finishes before (before.erase r) [r] where
  nodup := List.nodup_singleton r
  known := List.forall_mem_singleton.mpr hr
  after r' := by
    rw [hnodup.mem_erase_iff, List.mem_singleton]
    exact and_comm

end Finishes

theorem Partition.getFinishedReason_iff {request : RequestId → Request H}
    {kv : KVCacheManager H} {requests running waiting : List RequestId} {r : RequestId}
    (h : Partition request kv requests running waiting) :
    (request r).getFinishedReason.isSome = true ↔ r ∉ requests := by
  unfold Request.getFinishedReason
  constructor
  · intro hreason hknown
    rcases List.mem_append.mp (h.perm.mem_iff.mp hknown) with hr | hr
    · rw [h.status r hr] at hreason
      cases hreason
    · rcases (h.queued r hr).status with hstatus | hstatus | hstatus <;>
        · rw [hstatus] at hreason
          cases hreason
  · intro hgone
    have hfinished := h.gone r hgone
    unfold Request.isFinished at hfinished
    revert hfinished
    cases (request r).status <;> decide

namespace UpdateState

variable {u u' : UpdateState H} {schedulerOutput : SchedulerOutput}
  {modelRunnerOutput : ModelRunnerOutput} {r : RequestId}

/-- An iteration produces at most one output, for the request it visits, and tells what its
status is then. -/
theorem updateOne_outputs (h : u.updateOne schedulerOutput modelRunnerOutput r = .ok u') :
    (u'.scheduler.requests = u.scheduler.requests ∧ u'.outputs = u.outputs) ∨
      ∃ client output, output.requestId = r ∧
        output.finishReason = (u'.scheduler.request r).getFinishedReason ∧
        u'.outputs = u.outputs.store client (u.outputs.findD client [] ++ [output]) := by
  unfold updateOne at h
  split at h
  · obtain rfl := Except.ok.inj h
    exact Or.inl ⟨rfl, rfl⟩
  dsimp only at h
  obtain ⟨drafts, accepted, hroll⟩ := rollBack_eq u r
    (schedulerOutput.scheduledSpecDecodeTokens.findD r []).length
    (generatedFor modelRunnerOutput r).length
  unfold generatedFor at hroll
  rw [hroll] at h
  split at h
  · cases h
  rename_i kept stopped vector request happly
  have hself (s : Scheduler H) : (s.modifyRequest r fun _ => request).request r = request :=
    Function.update_self ..
  split at h
  · rename_i hstopped
    split at h
    · cases h
    rename_i s₁ hfree
    obtain ⟨-, kv, connector, cache, -, -, rfl⟩ := Scheduler.freeRequest_ok hfree
    obtain rfl := Except.ok.inj h
    refine Or.inr ⟨_, _, rfl, ?_, if_pos (Or.inr hstopped)⟩
    dsimp only
    rw [hself]
  · obtain rfl := Except.ok.inj h
    dsimp only
    split
    · refine Or.inr ⟨_, _, rfl, ?_, rfl⟩
      rw [hself]
    · exact Or.inl ⟨rfl, rfl⟩

theorem updateOne_finishes {rest before : List RequestId}
    (hsettled : Scheduler.UpdateSettled u (r :: rest))
    (h : Finishes before u.scheduler.requests (finishedIn (outputsOf u.outputs)))
    (hone : u.updateOne schedulerOutput modelRunnerOutput r = .ok u') :
    Finishes before u'.scheduler.requests (finishedIn (outputsOf u'.outputs)) := by
  have hmem : r ∈ u.stillRunning ++ r :: rest := by simp
  have hknown : r ∈ u.scheduler.requests := hsettled.partition.known_of_running hmem
  have houtputs := updateOne_outputs hone
  have hsettled' := hsettled.step (updateOne_outcome hone)
  suffices hstep : Finishes u.scheduler.requests u'.scheduler.requests
      (if r ∈ u'.scheduler.requests then [] else [r]) by
    rcases houtputs with ⟨hrequests, houtputs⟩ | ⟨client, output, hid, hreason, houtputs⟩
    · rw [hrequests, houtputs]
      exact h
    · have hperm : (finishedIn (outputsOf u'.outputs)).Perm
          (finishedIn (outputsOf u.outputs) ++ finishedIn [output]) := by
        rw [← finishedIn_append, houtputs]
        exact ((u.outputs.perm_flatMap_store client [output]).filter _).map _
      have htold : finishedIn [output] = if r ∈ u'.scheduler.requests then [] else [r] := by
        have hsome : output.finishReason.isSome = true ↔ r ∉ u'.scheduler.requests := by
          rw [hreason]
          exact hsettled'.partition.getFinishedReason_iff
        split
        · rename_i hstays
          simp [finishedIn, hsome, hstays]
        · rename_i hgone
          simp [finishedIn, hsome.mpr hgone, hid]
      rw [htold] at hperm
      exact (h.trans hstep).perm hperm.symm
  cases updateOne_outcome hone with
  | skip hscheduled =>
      rw [if_pos hknown]
      exact .refl _
  | goOn hscheduled hfolds hkept hpooled houtputs =>
      rw [if_pos (show r ∈ u.scheduler.requests from hknown)]
      exact .refl _
  | stop hscheduled hfolds hkept houtput hfree hconnector =>
      rw [if_neg (show r ∉ u.scheduler.requests.erase r from
        hsettled.partition.nodup.not_mem_erase)]
      exact .erase hknown hsettled.partition.nodup

end UpdateState

namespace Scheduler

variable {s s' : Scheduler H}

/-- The outputs of a step tell which requests end in it. -/
theorem updateFromOutput_finishes (hsettled : s.Settled) {schedulerOutput : SchedulerOutput}
    {modelRunnerOutput : ModelRunnerOutput} {outputs : Dict ℕ (List EngineCoreOutput)}
    (hok : s.updateFromOutput schedulerOutput modelRunnerOutput = .ok (outputs, s')) :
    Finishes s.requests s'.requests (finishedIn (outputsOf outputs)) := by
  obtain ⟨u, s₁, hall, hshed, rfl, rfl⟩ := updateFromOutput_ok hok
  obtain ⟨-, heq⟩ := shedAll_ok (P := fun _ => True) hshed trivial fun _ _ _ _ _ _ => trivial
  rw [heq]
  refine (UpdateState.updateAll_induct (P := fun u rest => UpdateSettled u rest ∧
    Finishes s.requests u.scheduler.requests (finishedIn (outputsOf u.outputs))) hall
    ⟨⟨hsettled.partition, hsettled.skipped⟩, .refl _⟩ ?_).2
  intro u u' r rest hone ⟨hsettled, h⟩
  exact ⟨hsettled.step (UpdateState.updateOne_outcome hone),
    UpdateState.updateOne_finishes hsettled h hone⟩

theorem finishAll_requests {finishedStatus : RequestStatus} {l : List RequestId}
    (hsettled : s.Settled) (hfinished : finishedStatus.isFinished = true)
    (hok : finishAll finishedStatus s l = .ok s') (r : RequestId) :
    r ∈ s'.requests ↔ r ∈ s.requests ∧ r ∉ l := by
  induction l generalizing s with
  | nil =>
      obtain rfl := Except.ok.inj hok
      simp
  | cons r₀ rest ih =>
      unfold finishAll at hok
      split at hok
      · cases hok
      rename_i s₁ hone
      have hstep : r ∈ s₁.requests ↔ r ∈ s.requests ∧ r ≠ r₀ := by
        have hgone := finishOne_gone hsettled hone
        constructor
        · intro hr
          exact ⟨finishOne_requests hone r hr, fun heq => hgone (heq ▸ hr)⟩
        · rintro ⟨hr, hne⟩
          rcases finishOne_ok hone with ⟨-, rfl⟩ | ⟨-, -, -, -, -, -, -, -, -, rfl⟩
          · exact hr
          · exact (List.mem_erase_of_ne hne).mpr hr
      rw [ih (hsettled.finishOne hfinished hone) hok, hstep, List.mem_cons, not_or, and_assoc]

theorem finishRequests_requests {finishedStatus : RequestStatus} {requestIds : List RequestId}
    (hsettled : s.Settled) (hok : s.finishRequests requestIds finishedStatus = .ok s')
    (r : RequestId) : r ∈ s'.requests ↔ r ∈ s.requests ∧ r ∉ requestIds := by
  obtain ⟨hfinished, hall⟩ := finishRequests_ok hok
  exact finishAll_requests hsettled hfinished hall r

/-! ### Requests whose grammar failed to compile -/

/-- The requests to end with an error, each once, wait for the grammar that failed. -/
structure GrammarErrorsWait (s : Scheduler H) : Prop where
  nodup : s.grammarCompileErrorReqs.Nodup
  waits : ∀ r ∈ s.grammarCompileErrorReqs,
    (s.request r).status = .waitingForStructuredOutputGrammar ∧
      (s.request r).structuredOutputRequest = some .failed

omit [DecidableEq H] in
/-- A change of the table that leaves the waiting ones alone. -/
theorem GrammarErrorsWait.congr (h : s.GrammarErrorsWait)
    (hreqs : s'.grammarCompileErrorReqs = s.grammarCompileErrorReqs)
    (htable : ∀ r, (s.request r).status = .waitingForStructuredOutputGrammar →
      (s.request r).structuredOutputRequest = some .failed →
      (s'.request r).status = (s.request r).status ∧
        (s'.request r).structuredOutputRequest = (s.request r).structuredOutputRequest) :
    s'.GrammarErrorsWait := by
  refine ⟨hreqs ▸ h.nodup, fun r hr => ?_⟩
  obtain ⟨hstatus, hfailed⟩ := h.waits r (hreqs ▸ hr)
  obtain ⟨hstatus', hfailed'⟩ := htable r hstatus hfailed
  exact ⟨hstatus'.trans hstatus, hfailed'.trans hfailed⟩

omit [DecidableEq H] in
theorem GrammarErrorsWait.of_eq (h : s.GrammarErrorsWait)
    (hreqs : s'.grammarCompileErrorReqs = s.grammarCompileErrorReqs)
    (htable : s'.request = s.request) : s'.GrammarErrorsWait :=
  h.congr hreqs fun _ _ _ => htable ▸ ⟨rfl, rfl⟩

omit [DecidableEq H] in
/-- A change of one request that does not wait for its grammar. -/
theorem GrammarErrorsWait.update (h : s.GrammarErrorsWait) {r : RequestId} {request : Request H}
    (hreqs : s'.grammarCompileErrorReqs = s.grammarCompileErrorReqs)
    (htable : s'.request = Function.update s.request r request)
    (hr : (s.request r).status ≠ .waitingForStructuredOutputGrammar ∨
      (s.request r).structuredOutputRequest ≠ some .failed) : s'.GrammarErrorsWait := by
  refine h.congr hreqs fun r' hstatus hfailed => ?_
  have hne : r' ≠ r := by
    rintro rfl
    exact hr.elim (absurd hstatus) (absurd hfailed)
  rw [htable, Function.update_of_ne hne]
  exact ⟨rfl, rfl⟩

omit [DecidableEq H] in
theorem GrammarErrorsWait.dropDrafts (h : s.GrammarErrorsWait) (r : RequestId) :
    (s.modifyRequest r (·.withSpecTokenIds [])).GrammarErrorsWait := by
  refine h.congr rfl fun r' _ _ => ?_
  unfold modifyRequest
  dsimp only
  by_cases hr : r' = r
  · subst hr
    rw [Function.update_self]
    exact ⟨rfl, rfl⟩
  · rw [Function.update_of_ne hr]
    exact ⟨rfl, rfl⟩

end Scheduler

namespace StepState

variable {l l' : StepState H} {s : Scheduler H} {r : RequestId}

omit [DecidableEq H] in
theorem setAside_grammar (h : l.setAside s = .ok l') :
    l'.scheduler.request = s.request ∧
      l'.scheduler.grammarCompileErrorReqs = s.grammarCompileErrorReqs := by
  unfold setAside at h
  split at h
  · cases h
  obtain rfl := Except.ok.inj h
  exact ⟨rfl, rfl⟩

theorem lookupStep_grammar (h : l.lookupStep s r = .ok l') :
    l'.scheduler.request = s.request ∧
      l'.scheduler.grammarCompileErrorReqs = s.grammarCompileErrorReqs := by
  unfold lookupStep at h
  split at h
  · cases h
  rename_i hits numLocal kv _
  dsimp only at h
  have hmatch : (matchExternal { s with kvCacheManager := kv } (s.request r) numLocal).2.request =
      s.request ∧ (matchExternal { s with kvCacheManager := kv } (s.request r)
        numLocal).2.grammarCompileErrorReqs = s.grammarCompileErrorReqs := by
    unfold matchExternal
    split <;> exact ⟨rfl, rfl⟩
  generalize matchExternal { s with kvCacheManager := kv } (s.request r) numLocal = external
    at h hmatch
  split at h
  · obtain rfl := Except.ok.inj h
    exact hmatch
  split at h
  · obtain rfl := Except.ok.inj h
    exact hmatch
  split at h
  · cases h
  split at h
  · split at h
    · cases h
    obtain ⟨hrequest, hreqs⟩ := setAside_grammar h
    exact ⟨hrequest.trans hmatch.1, hreqs.trans hmatch.2⟩
  · obtain rfl := Except.ok.inj h
    exact hmatch

theorem admissionStep_grammar (hs : l.scheduler.GrammarErrorsWait)
    (h : l.admissionStep = .ok l') : l'.scheduler.GrammarErrorsWait := by
  unfold admissionStep at h
  dsimp only at h
  split at h
  · obtain rfl := Except.ok.inj h
    exact hs
  split at h
  · obtain rfl := Except.ok.inj h
    exact hs
  split at h
  · obtain rfl := Except.ok.inj h
    exact hs
  split at h
  · cases h
  rename_i r _
  split at h
  · obtain ⟨hrequest, hreqs⟩ := setAside_grammar h
    exact hs.of_eq hreqs hrequest
  split at h
  · rename_i hstatus
    unfold Scheduler.promoteGrammarRequest at h
    cases hgrammar : (l.scheduler.request r).structuredOutputRequest with
    | none =>
        rw [hgrammar] at h
        obtain ⟨hrequest, hreqs⟩ := lookupStep_grammar h
        exact hs.update hreqs hrequest (Or.inr (by rw [hgrammar]; nofun))
    | some grammar =>
        rw [hgrammar] at h
        cases grammar with
        | compiling =>
            obtain ⟨hrequest, hreqs⟩ := setAside_grammar h
            exact hs.of_eq hreqs hrequest
        | failed =>
            obtain ⟨hrequest, hreqs⟩ := setAside_grammar h
            refine ⟨hreqs ▸ EncoderCacheManager.insertNew_nodup hs.nodup, fun r' hr' => ?_⟩
            rw [hrequest]
            rcases EncoderCacheManager.mem_insertNew.mp (hreqs ▸ hr') with hr' | rfl
            · exact hs.waits r' hr'
            · exact ⟨hstatus, hgrammar⟩
        | compiled =>
            obtain ⟨hrequest, hreqs⟩ := lookupStep_grammar h
            exact hs.update hreqs hrequest (Or.inr (by rw [hgrammar]; nofun))
  · obtain ⟨hrequest, hreqs⟩ := lookupStep_grammar h
    exact hs.of_eq hreqs hrequest

theorem advance_grammar (hs : l.scheduler.GrammarErrorsWait) (h : l.advance = .ok l') :
    l'.scheduler.GrammarErrorsWait := by
  by_cases hadmission : l.phase = .admission
  · unfold advance at h
    rw [hadmission] at h
    exact admissionStep_grammar hs h
  · have hspec (r : RequestId) : (disableSpeculation l.scheduler r).GrammarErrorsWait := by
      rcases disableSpeculation_eq l.scheduler r with heq | heq
      · rw [heq]
        exact hs
      · rw [heq]
        exact hs.dropDrafts r
    cases advance_outcome h with
    | rest hphase => exact hs
    | enter hphase hover => exact hs
    | @pass r cache budget hphase hr hnone => exact (hspec r).of_eq rfl rfl
    | @takeUp r n inputs cache budget hphase hr hn hbudget hspeculated hlen =>
        exact (hspec r).of_eq rfl rfl
    | @commit r n blocks kv hphase hok =>
        have hkv : Scheduler.GrammarErrorsWait { l.scheduler with kvCacheManager := kv } :=
          hs.of_eq rfl rfl
        unfold commitRunning
        dsimp only
        split
        · exact hkv
        · exact hkv.dropDrafts r
    | preempt hphase hok hvictim hstatus hfree hbatch hinputs =>
        exact hs.update rfl rfl (Or.inl (by rw [hstatus]; nofun))
    | close hphase _ => exact absurd hphase hadmission
    | setAside hphase => exact absurd hphase hadmission
    | lookUp hphase => exact absurd hphase hadmission
    | decline hphase hok => exact hs.of_eq rfl rfl
    | accept hphase hok hpop hstatus hconnector =>
        refine hs.update rfl rfl (Or.inl ?_)
        rcases hstatus with hstatus | hstatus <;>
          · rw [hstatus]
            nofun

end StepState

namespace Scheduler

variable {s s' : Scheduler H}

theorem GrammarErrorsWait.schedule (h : s.GrammarErrorsWait) {output : SchedulerOutput}
    (hok : s.schedule = .ok (output, s')) : s'.GrammarErrorsWait := by
  obtain ⟨l, hloops, -, hfinishes⟩ := schedule_ok hok
  have hl : l.scheduler.GrammarErrorsWait := by
    clear hfinishes
    induction hloops with
    | refl => exact h
    | tail _ hstep ih => exact StepState.advance_grammar ih hstep
  rw [hfinishes.state, StepState.restoreSkippedWaiting_frame]
  refine hl.congr rfl fun r _ _ => ?_
  show (StepState.advancedTable _ _ r).status = _ ∧
    (StepState.advancedTable _ _ r).structuredOutputRequest = _
  unfold StepState.advancedTable
  split <;> exact ⟨rfl, rfl⟩

theorem GrammarErrorsWait.updateFromOutput (h : s.GrammarErrorsWait) (hsettled : s.Settled)
    {schedulerOutput : SchedulerOutput} {modelRunnerOutput : ModelRunnerOutput}
    {outputs : Dict ℕ (List EngineCoreOutput)}
    (hok : s.updateFromOutput schedulerOutput modelRunnerOutput = .ok (outputs, s')) :
    s'.GrammarErrorsWait := by
  obtain ⟨u, s₁, hall, hshed, -, rfl⟩ := updateFromOutput_ok hok
  obtain ⟨-, heq⟩ := shedAll_ok (P := fun _ => True) hshed trivial fun _ _ _ _ _ _ => trivial
  have hu := (UpdateState.updateAll_invariant (P := fun u rest => UpdateSettled u rest ∧
    u.scheduler.GrammarErrorsWait) hall ⟨⟨hsettled.partition, hsettled.skipped⟩, h⟩ ?_).2
  · rw [heq]
    refine hu.congr rfl fun r _ _ => ?_
    show (draftedTable _ _ _ r).status = _ ∧ (draftedTable _ _ _ r).structuredOutputRequest = _
    rw [draftedTable_frame]
    exact ⟨rfl, rfl⟩
  · intro u u' r rest hone ⟨hs, hwait⟩
    have hrunning : (u.scheduler.request r).status ≠ .waitingForStructuredOutputGrammar := by
      rw [hs.partition.status r (by simp)]
      nofun
    refine ⟨hs.step hone, ?_⟩
    cases hone with
    | skip hscheduled => exact hwait
    | goOn hscheduled hfolds hkept hpooled houtputs => exact hwait.update rfl rfl (Or.inl hrunning)
    | stop hscheduled hfolds hkept houtput hfree hconnector =>
        exact hwait.update rfl rfl (Or.inl hrunning)

/-- Such a request is known, and not running. -/
theorem GrammarErrorsWait.known (h : s.GrammarErrorsWait) (hsettled : s.Settled) :
    ∀ r ∈ s.grammarCompileErrorReqs, r ∈ s.requests := by
  intro r hr
  by_contra hgone
  have hfinished := hsettled.partition.gone r hgone
  rw [Request.isFinished, (h.waits r hr).1] at hfinished
  cases hfinished

end Scheduler

end Pvllm
