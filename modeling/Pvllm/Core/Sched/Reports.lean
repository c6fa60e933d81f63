import Pvllm.Core.Sched.Lifecycle

/-!
What a run tells about requests that ended.

A request that ends is put in `finished_req_ids` once, and the next output of
`schedule` carries it away: `Reported` counts both places together. No output is
produced for a request that is not running, so none follows an abort.
-/

namespace Pvllm

variable {H : Type} [DecidableEq H]

namespace Event

def added : Event → Option RequestId
  | .addRequest args => some args.requestId
  | _ => none

def reported : Event → List RequestId
  | .schedule output => output.finishedReqIds
  | _ => []

def emitted : Event → List RequestId
  | .updateFromOutput _ _ outputs => outputs.items.flatMap fun entry =>
    entry.2.map fun output => output.requestId
  | _ => []

end Event

namespace Scheduler

/-! ### Counting the ends -/

/-- Of the requests added, those no longer known were reported or are about to
be, once. -/
structure Reported (added reported requests finished : List RequestId) : Prop where
  known : ∀ r ∈ requests, r ∈ added
  count : ∀ r, reported.count r + finished.count r =
    if r ∈ added ∧ r ∉ requests then 1 else 0

theorem Reported.release {added reported requests finished : List RequestId} {r : RequestId}
    (h : Reported added reported requests finished) (hr : r ∈ requests)
    (hnodup : requests.Nodup) :
    Reported added reported (requests.erase r)
      (EncoderCacheManager.insertNew finished r) where
  known r' hr' := h.known r' (List.mem_of_mem_erase hr')
  count r' := by
    have hcount := h.count r
    rw [if_neg (by simp [hr])] at hcount
    have hnot : r ∉ finished := fun hmem => by
      have := List.count_pos_iff.mpr hmem
      omega
    rw [EncoderCacheManager.insertNew, if_neg hnot, List.count_append]
    by_cases heq : r' = r
    · subst heq
      have hgone : r' ∉ requests.erase r' := hnodup.not_mem_erase
      rw [if_pos ⟨h.known r' hr, hgone⟩, List.count_singleton_self]
      omega
    · simp only [List.mem_erase_of_ne heq, ← h.count r', List.count_singleton,
        beq_iff_eq, Ne.symm heq, if_false]
      omega

theorem Reported.finishOne {s s' : Scheduler H} {finishedStatus : RequestStatus} {r : RequestId}
    {added reported : List RequestId} (hsettled : s.Settled)
    (h : Reported added reported s.requests s.finishedReqIds)
    (hok : s.finishOne finishedStatus r = .ok s') :
    Reported added reported s'.requests s'.finishedReqIds := by
  rcases finishOne_ok hok with ⟨-, rfl⟩ | ⟨hknown, -, -, -, -, -, -, -, -, rfl⟩
  · exact h
  · exact h.release hknown hsettled.partition.nodup

theorem Reported.update {u u' : UpdateState H} {r : RequestId} {rest : List RequestId}
    {schedulerOutput : SchedulerOutput} {modelRunnerOutput : ModelRunnerOutput}
    {added reported : List RequestId} (hsettled : UpdateSettled u (r :: rest))
    (h : Reported added reported u.scheduler.requests u.scheduler.finishedReqIds)
    (hstep : UpdateState.UpdateOutcome schedulerOutput modelRunnerOutput r u u') :
    Reported added reported u'.scheduler.requests u'.scheduler.finishedReqIds := by
  cases hstep with
  | skip hscheduled => exact h
  | goOn hscheduled hfolds hkept hpooled houtputs => exact h
  | stop hscheduled hfolds hkept houtput hfree hconnector =>
      exact h.release (hsettled.partition.known_of_running (by simp)) hsettled.partition.nodup

/-- Every step keeps the count, where ids are not used twice. -/
theorem Reported.step {s s' : Scheduler H} {e : Event} {added reported : List RequestId}
    (hsettled : s.Settled) (h : Reported added reported s.requests s.finishedReqIds)
    (hstep : Step s e s') (hfresh : ∀ r, e.added = some r → r ∉ added) :
    Reported (added ++ e.added.toList) (reported ++ e.reported) s'.requests s'.finishedReqIds := by
  have hsame : ∀ {l l' : List RequestId}, Reported added reported l l' →
      Reported (added ++ []) (reported ++ []) l l' := by
    intro l l' h
    rwa [List.append_nil, List.append_nil]
  cases hstep with
  | @addRequest args request hrequest hunused =>
      obtain ⟨hid, -⟩ := Request.init_ok hrequest
      have hnew := hfresh args.requestId rfl
      rw [addRequest_eq, hid]
      simp only [Event.added, Event.reported, Option.toList_some, List.append_nil,
        EncoderCacheManager.insertNew, hunused, if_false]
      refine ⟨fun r hr => ?_, fun r => ?_⟩
      · rw [List.mem_append] at hr ⊢
        exact hr.imp_left (h.known r)
      · rw [h.count r]
        by_cases heq : r = args.requestId
        · subst heq
          rw [if_neg (fun hmem => hnew hmem.1), if_neg (by simp)]
        · simp [heq]
  | finishRequests hok =>
      obtain ⟨hfinished, hall⟩ := finishRequests_ok hok
      refine hsame (finishAll_invariant (P := fun s => s.Settled ∧
        Reported added reported s.requests s.finishedReqIds) hall ⟨hsettled, h⟩ ?_).2
      intro s s' r _ hone ⟨hs, h⟩
      exact ⟨hs.finishOne hfinished hone, h.finishOne hs hone⟩
  | @schedule _ output hok =>
      obtain ⟨l, hloops, -, hfinishes⟩ := schedule_ok hok
      obtain ⟨-, hrequests, hfinished⟩ := hloops.static
      -- the ids that have finished go out with the decision, and are forgotten
      have hids : output.finishedReqIds = s.finishedReqIds :=
        hfinishes.finishedReqIds.trans hfinished
      have hknown : s'.requests = s.requests := by
        rw [hfinishes.state, StepState.restoreSkippedWaiting_frame]
        exact hrequests
      have hnone : s'.finishedReqIds = [] := by rw [hfinishes.state]
      simp only [Event.added, Event.reported, Option.toList_none, List.append_nil]
      rw [hids, hknown, hnone]
      refine ⟨h.known, fun r => ?_⟩
      rw [List.count_append, List.count_nil, Nat.add_zero]
      exact h.count r
  | updateFromOutput hok =>
      obtain ⟨u, s₁, hall, hshed, -, rfl⟩ := updateFromOutput_ok hok
      have hupdated := UpdateState.updateAll_invariant (P := fun u rest => UpdateSettled u rest ∧
        Reported added reported u.scheduler.requests u.scheduler.finishedReqIds) hall
        ⟨⟨hsettled.partition, hsettled.skipped⟩, h⟩ ?_
      · obtain ⟨-, heq⟩ := shedAll_ok (P := fun _ => True) hshed trivial fun _ _ _ _ _ _ => trivial
        rw [heq]
        exact hsame hupdated.2
      · intro u u' r rest hone ⟨hs, h⟩
        exact ⟨hs.step hone, h.update hs hone⟩
  | resetPrefixCache => exact hsame h
  | grammar hcompiling => exact hsame h
  | sharedStore hconnector => exact hsame h

/-! ### Who ends -/

/-- What is taken out of the requests is what ends. -/
structure Ends (s s' : Scheduler H) : Prop where
  subset : ∀ r ∈ s'.requests, r ∈ s.requests
  finished : ∀ r, r ∈ s'.finishedReqIds ↔
    r ∈ s.finishedReqIds ∨ (r ∈ s.requests ∧ r ∉ s'.requests)

omit [DecidableEq H] in
theorem Ends.of_eq {s s' : Scheduler H} (hrequests : s'.requests = s.requests)
    (hfinished : s'.finishedReqIds = s.finishedReqIds) : Ends s s' := by
  refine ⟨fun r hr => hrequests ▸ hr, fun r => ?_⟩
  rw [hfinished, hrequests]
  exact ⟨Or.inl, fun h => h.elim id fun h => absurd h.1 h.2⟩

omit [DecidableEq H] in
theorem Ends.trans {s s' s'' : Scheduler H} (h : Ends s s') (h' : Ends s' s'') : Ends s s'' := by
  refine ⟨fun r hr => h.subset r (h'.subset r hr), fun r => ?_⟩
  have hsubset := h.subset r
  have hsubset' := h'.subset r
  rw [h'.finished, h.finished]
  tauto

omit [DecidableEq H] in
theorem Ends.release {s s' : Scheduler H} {r : RequestId} (hr : r ∈ s.requests)
    (hnodup : s.requests.Nodup) (hrequests : s'.requests = s.requests.erase r)
    (hfinished : s'.finishedReqIds = EncoderCacheManager.insertNew s.finishedReqIds r) :
    Ends s s' := by
  refine ⟨fun r' hr' => List.mem_of_mem_erase (hrequests ▸ hr'), fun r' => ?_⟩
  rw [hfinished, hrequests, EncoderCacheManager.mem_insertNew, hnodup.mem_erase_iff]
  constructor
  · rintro (h | rfl)
    · exact Or.inl h
    · exact Or.inr ⟨hr, fun h => h.1 rfl⟩
  · rintro (h | ⟨hin, hnot⟩)
    · exact Or.inl h
    · exact Or.inr (by_contra fun hne => hnot ⟨hne, hin⟩)

/-- In every step but a call of `schedule`, an id is due to be reported if it was or
if its request goes. -/
theorem Step.finished {s s' : Scheduler H} {event : Event} (hstep : Step s event s')
    (hsettled : s.Settled) : (∃ output, event = .schedule output) ∨
      ∀ r, r ∈ s'.finishedReqIds ↔
        r ∈ s.finishedReqIds ∨ (r ∈ s.requests ∧ r ∉ s'.requests) := by
  cases hstep with
  | addRequest hrequest hfresh =>
      refine Or.inr fun r => ?_
      rw [addRequest_eq]
      refine ⟨Or.inl, fun h => h.elim id fun ⟨hin, hnot⟩ => absurd ?_ hnot⟩
      exact EncoderCacheManager.mem_insertNew.mpr (Or.inl hin)
  | finishRequests hok =>
      obtain ⟨hfinished, hall⟩ := finishRequests_ok hok
      refine Or.inr (finishAll_invariant (P := fun s' => s'.Settled ∧ Ends s s') hall
        ⟨hsettled, .of_eq rfl rfl⟩ ?_).2.finished
      intro s₁ s₂ r _ hone ⟨hs, hends⟩
      refine ⟨hs.finishOne hfinished hone, hends.trans ?_⟩
      rcases finishOne_ok hone with ⟨-, rfl⟩ | ⟨hknown, -, -, -, -, -, -, -, -, rfl⟩
      · exact .of_eq rfl rfl
      · exact .release hknown hs.partition.nodup rfl rfl
  | schedule hok => exact Or.inl ⟨_, rfl⟩
  | updateFromOutput hok =>
      obtain ⟨u, s₁, hall, hshed, -, rfl⟩ := updateFromOutput_ok hok
      obtain ⟨-, heq⟩ := shedAll_ok (P := fun _ => True) hshed trivial fun _ _ _ _ _ _ => trivial
      rw [heq]
      refine Or.inr (UpdateState.updateAll_invariant (P := fun u rest => UpdateSettled u rest ∧
        Ends s u.scheduler) hall ⟨⟨hsettled.partition, hsettled.skipped⟩, .of_eq rfl rfl⟩
          ?_).2.finished
      intro u u' r rest hone ⟨hs, hends⟩
      refine ⟨hs.step hone, hends.trans ?_⟩
      cases hone with
      | skip hscheduled => exact .of_eq rfl rfl
      | goOn hscheduled hfolds hkept hpooled houtputs => exact .of_eq rfl rfl
      | stop hscheduled hfolds hkept houtput hfree hconnector =>
          exact .release (hs.partition.known_of_running (by simp)) hs.partition.nodup rfl rfl
  | resetPrefixCache => exact Or.inr (Ends.of_eq rfl rfl).finished
  | grammar hcompiling => exact Or.inr (Ends.of_eq rfl rfl).finished
  | sharedStore hconnector => exact Or.inr (Ends.of_eq rfl rfl).finished

/-! ### Who gets an output -/

theorem updateFromOutput_emitted {s s' : Scheduler H} {schedulerOutput : SchedulerOutput}
    {modelRunnerOutput : ModelRunnerOutput} {outputs : Dict ℕ (List EngineCoreOutput)}
    (hok : s.updateFromOutput schedulerOutput modelRunnerOutput = .ok (outputs, s')) :
    ∀ r ∈ (Event.updateFromOutput schedulerOutput modelRunnerOutput outputs).emitted,
      r ∈ s.running := by
  obtain ⟨u, s₁, hall, -, rfl, -⟩ := updateFromOutput_ok hok
  have hvisited := UpdateState.updateAll_invariant (P := fun u rest =>
    (∀ r ∈ rest, r ∈ s.running) ∧ ∀ client outputs, u.outputs.find client = some outputs →
      ∀ output ∈ outputs, output.requestId ∈ s.running) hall
    ⟨fun r hr => hr, fun _ _ hfind => by cases hfind⟩ ?_
  · intro r hr
    simp only [Event.emitted, List.mem_flatMap, List.mem_map] at hr
    obtain ⟨⟨client, outputs⟩, hentry, output, hmem, rfl⟩ := hr
    exact hvisited.2 client outputs ((Dict.find_eq_some_iff ..).mpr hentry) output hmem
  · intro u u' r rest hone ⟨hrest, hout⟩
    obtain ⟨hr, hrest⟩ := List.forall_mem_cons.mp hrest
    refine ⟨hrest, ?_⟩
    -- one more output, for the request that is visited
    have hstore : ∀ client output, output.requestId = r → ∀ client' outputs,
        (u.outputs.store client (u.outputs.findD client [] ++ [output])).find client' =
          some outputs → ∀ output ∈ outputs, output.requestId ∈ s.running := by
      intro client output hid client' outputs hfind output' hmem
      rw [Dict.find_store] at hfind
      split at hfind
      · obtain rfl := Option.some.inj hfind
        rcases List.mem_append.mp hmem with hmem | hmem
        · unfold Dict.findD at hmem
          cases hold : u.outputs.find client with
          | none => rw [hold] at hmem; cases hmem
          | some old =>
              rw [hold] at hmem
              exact hout client old hold output' hmem
        · rw [List.mem_singleton.mp hmem, hid]
          exact hr
      · exact hout client' outputs hfind output' hmem
    cases hone with
    | skip hscheduled => exact hout
    | goOn hscheduled hfolds hkept hpooled houtputs =>
        rcases houtputs with ⟨-, rfl⟩ | ⟨-, output, hid, -, rfl⟩
        · exact hout
        · exact hstore _ output hid
    | stop hscheduled hfolds hkept houtput hfree hconnector => exact hstore _ _ houtput.1

/-! ### Ended requests stay away -/

theorem finishOne_requests {s s' : Scheduler H} {finishedStatus : RequestStatus} {r : RequestId}
    (hok : s.finishOne finishedStatus r = .ok s') : ∀ r' ∈ s'.requests, r' ∈ s.requests := by
  rcases finishOne_ok hok with ⟨-, rfl⟩ | ⟨-, -, -, -, -, -, -, -, -, rfl⟩
  · exact fun _ hr => hr
  · exact fun _ hr => List.mem_of_mem_erase hr

/-- A step brings in no request but the one it adds. -/
theorem Step.known {s s' : Scheduler H} {e : Event} (hstep : Step s e s') {r : RequestId}
    (hr : r ∈ s'.requests) : r ∈ s.requests ∨ e.added = some r := by
  cases hstep with
  | @addRequest args request hrequest hunused =>
      obtain ⟨hid, -⟩ := Request.init_ok hrequest
      rw [addRequest_eq, hid, EncoderCacheManager.insertNew, if_neg hunused, List.mem_append,
        List.mem_singleton] at hr
      exact hr.imp_right fun heq => congrArg some heq.symm
  | finishRequests hok =>
      have hsub := finishAll_invariant (P := fun s' => ∀ r ∈ s'.requests, r ∈ s.requests)
        (finishRequests_ok hok).2 (fun _ hr => hr)
        fun _ _ _ _ hone h r hr => h r (finishOne_requests hone r hr)
      exact Or.inl (hsub r hr)
  | schedule hok =>
      obtain ⟨l, hloops, -, hfinishes⟩ := schedule_ok hok
      rw [hfinishes.state, StepState.restoreSkippedWaiting_frame] at hr
      exact Or.inl (hloops.static.2.1 ▸ hr)
  | updateFromOutput hok =>
      obtain ⟨u, s₁, hall, hshed, -, rfl⟩ := updateFromOutput_ok hok
      obtain ⟨-, heq⟩ := shedAll_ok (P := fun _ => True) hshed trivial fun _ _ _ _ _ _ => trivial
      rw [heq] at hr
      have hsub := UpdateState.updateAll_invariant
        (P := fun u _ => ∀ r ∈ u.scheduler.requests, r ∈ s.requests) hall (fun _ hr => hr) ?_
      · exact Or.inl (hsub r hr)
      · intro u u' r rest hone h
        cases hone with
        | skip hscheduled => exact h
        | goOn hscheduled hfolds hkept hpooled houtputs => exact h
        | stop hscheduled hfolds hkept houtput hfree hconnector =>
            exact fun r' hr' => h r' (List.mem_of_mem_erase hr')
  | resetPrefixCache => exact Or.inl hr
  | grammar hcompiling => exact Or.inl hr
  | sharedStore hconnector => exact Or.inl hr

theorem finishOne_gone {s s' : Scheduler H} {finishedStatus : RequestStatus} {r : RequestId}
    (hsettled : s.Settled) (hok : s.finishOne finishedStatus r = .ok s') : r ∉ s'.requests := by
  rcases finishOne_ok hok with ⟨hgone, rfl⟩ | ⟨-, -, -, -, -, -, -, -, -, rfl⟩
  · rcases hgone with hgone | hfinished
    · exact hgone
    · -- a known request is not finished
      intro hknown
      have hpart := hsettled.partition
      rcases List.mem_append.mp (hpart.perm.mem_iff.mp hknown) with hr | hr
      · rw [Request.isFinished, hpart.status r hr] at hfinished
        cases hfinished
      · rw [(hpart.queued r hr).not_finished] at hfinished
        cases hfinished
  · exact hsettled.partition.nodup.not_mem_erase

theorem finishAll_gone {s s' : Scheduler H} {finishedStatus : RequestStatus}
    {l : List RequestId} (hsettled : s.Settled) (hfinished : finishedStatus.isFinished = true)
    (hok : finishAll finishedStatus s l = .ok s') : ∀ r ∈ l, r ∉ s'.requests := by
  induction l generalizing s with
  | nil => nofun
  | cons r rest ih =>
      unfold finishAll at hok
      split at hok
      · cases hok
      rename_i s₁ hone
      have hgone := finishOne_gone hsettled hone
      have hsettled₁ := hsettled.finishOne hfinished hone
      rw [List.forall_mem_cons]
      refine ⟨?_, ih hsettled₁ hok⟩
      exact finishAll_invariant (P := fun s => r ∉ s.requests) hok hgone
        fun _ _ _ _ hone h hr => h (finishOne_requests hone r hr)

/-- Over a run that does not add it again, a request that is not known stays so,
and nothing is emitted for it. -/
theorem run_silent {s s' : Scheduler H} {events : List Event} {r : RequestId}
    (hrun : Run Step s events s') (hsettled : s.Settled) (hgone : r ∉ s.requests)
    (hadded : r ∉ events.filterMap Event.added) : r ∉ events.flatMap Event.emitted := by
  refine (hrun.invariant (P := fun events s => r ∉ events.filterMap Event.added →
    s.Settled ∧ r ∉ s.requests ∧ r ∉ events.flatMap Event.emitted)
    (fun _ => ⟨hsettled, hgone, nofun⟩) ?_ hadded).2.2
  intro events s e s' _ ih hstep hadded
  rw [List.filterMap_append, List.mem_append, not_or] at hadded
  obtain ⟨hsettled, hgone, hsilent⟩ := ih hadded.1
  refine ⟨hstep.settled hsettled, fun hr => ?_, ?_⟩
  · rcases hstep.known hr with hr | hr
    · exact hgone hr
    · exact hadded.2 (by simp [hr])
  · rw [List.flatMap_append, List.mem_append, not_or, List.flatMap_singleton]
    refine ⟨hsilent, fun hr => ?_⟩
    cases hstep with
    | updateFromOutput hok =>
        exact hgone (hsettled.partition.known_of_running (updateFromOutput_emitted hok r hr))
    | addRequest => cases hr
    | finishRequests => cases hr
    | schedule => cases hr
    | resetPrefixCache => cases hr
    | grammar => cases hr
    | sharedStore => cases hr

/-! ### Over a run -/

/-- Where the requests are: each known one in one queue, once, as its status
tells, and waiting ones with nothing computed and no block. -/
structure Placed (s : Scheduler H) : Prop where
  once : ∀ r, (s.running ++ s.waiting.items).count r = if r ∈ s.requests then 1 else 0
  status : ∀ r, (s.request r).status = .running ↔ r ∈ s.running
  skipped : s.skippedWaiting.items = []
  idle : ∀ r ∈ s.waiting.items, (s.request r).numComputedTokens = 0 ∧
    ∀ manager ∈ s.kvCacheManager.singleTypeManagers, manager.getBlocks r = []

theorem Settled.placed {s : Scheduler H} (h : s.Settled) : s.Placed where
  once r := by
    have hperm := h.partition.perm
    rw [h.queued_eq] at hperm
    rw [← hperm.count_eq]
    split
    · rename_i hmem
      exact List.count_eq_one_of_mem h.partition.nodup hmem
    · rename_i hmem
      exact List.count_eq_zero.mpr hmem
  status _ := h.partition.status_iff
  skipped := h.skipped
  idle r hr := by
    rw [← h.queued_eq] at hr
    exact ⟨(h.partition.queued r hr).numComputedTokens,
      h.partition.idle r (h.partition.not_running_of_waiting hr)⟩

/-- What the run has told: each end once, by the next output at the latest, and
nothing about a request that was ended from outside. -/
structure Accountable (events : List Event) (s : Scheduler H) : Prop where
  once : ∀ r, (events.flatMap Event.reported).count r + s.finishedReqIds.count r =
    if r ∈ events.filterMap Event.added ∧ r ∉ s.requests then 1 else 0
  next : ∀ before output, events = before ++ [.schedule output] → s.finishedReqIds = []
  silent : ∀ before after requestIds finishedStatus,
    events = before ++ .finishRequests requestIds finishedStatus :: after →
      ∀ r ∈ requestIds, r ∈ before.filterMap Event.added → r ∉ after.flatMap Event.emitted

theorem run_reported {s s' : Scheduler H} {events : List Event} (hrun : Run Step s events s')
    (hsettled : s.Settled) (hstart : s.requests = []) (hfinished : s.finishedReqIds = [])
    (hfresh : (events.filterMap Event.added).Nodup) :
    Reported (events.filterMap Event.added) (events.flatMap Event.reported) s'.requests
      s'.finishedReqIds := by
  refine (hrun.invariant (P := fun events s => (events.filterMap Event.added).Nodup →
    s.Settled ∧ Reported (events.filterMap Event.added) (events.flatMap Event.reported) s.requests
      s.finishedReqIds) (fun _ => ⟨hsettled, ?_⟩) ?_ hfresh).2
  · rw [hstart, hfinished]
    exact ⟨nofun, fun r => by simp⟩
  · intro events s e s' _ ih hstep hfresh
    have hlast : [e].filterMap Event.added = e.added.toList := by
      cases h : e.added <;> simp [h]
    rw [List.filterMap_append, hlast] at hfresh ⊢
    rw [List.flatMap_append, List.flatMap_singleton]
    obtain ⟨hsettled, hreported⟩ := ih (List.nodup_append.mp hfresh).1
    refine ⟨hstep.settled hsettled, hreported.step hsettled hstep fun r hr hmem => ?_⟩
    exact (List.nodup_append.mp hfresh).2.2 r hmem r (by simp [hr]) rfl

theorem run_accountable {s s' : Scheduler H} {events : List Event} (hrun : Run Step s events s')
    (hsettled : s.Settled) (hstart : s.requests = []) (hfinished : s.finishedReqIds = [])
    (hfresh : (events.filterMap Event.added).Nodup) : Accountable events s' where
  once := (run_reported hrun hsettled hstart hfinished hfresh).count
  next before output heq := by
    subst heq
    obtain ⟨s₁, -, hlast⟩ := hrun.split
    cases hlast.single with
    | schedule hok =>
        obtain ⟨l, -, -, hfinishes⟩ := schedule_ok hok
        rw [hfinishes.state]
  silent before after requestIds finishedStatus heq r hr hadded := by
    subst heq
    rw [List.append_cons] at hrun hfresh
    obtain ⟨s₂, hbefore, hafter⟩ := hrun.split
    obtain ⟨s₁, hfirst, hend⟩ := hbefore.split
    have hsettled₁ := run_settled hfirst hsettled
    have hsettled₂ := hend.single.settled hsettled₁
    refine run_silent hafter hsettled₂ ?_ fun hagain => ?_
    · cases hend.single with
      | finishRequests hok =>
          obtain ⟨hstatus, hall⟩ := finishRequests_ok hok
          exact finishAll_gone hsettled₁ hstatus hall r hr
    · rw [List.filterMap_append] at hfresh
      refine (List.nodup_append.mp hfresh).2.2 r ?_ r hagain rfl
      rw [List.filterMap_append]
      exact List.mem_append_left _ hadded

/-- After every run, each known request is in exactly one queue and only running
ones hold blocks; where no id is used twice, each end is reported once and
nothing follows an abort. -/
theorem run_placed {config : SchedulerConfig} {kvCacheConfig : KVCacheConfig}
    {enableCaching : Bool} {hashFn : HashInput H → H} {seed : ℕ}
    {connector : Option (SimSharedStoreConnector H)} {s₀ s : Scheduler H} {events : List Event}
    (hinit : init config kvCacheConfig enableCaching hashFn seed connector = .ok s₀)
    (hrun : Run Step s₀ events s) :
    s.Placed ∧ ((events.filterMap Event.added).Nodup → Accountable events s) := by
  obtain ⟨hsettled, hrequests, hfinished⟩ := init_settled hinit
  exact ⟨(run_settled hrun hsettled).placed, run_accountable hrun hsettled hrequests hfinished⟩

/-- A configuration for short runs: sixteen tokens a step, four requests. -/
def shortConfig (policy : SchedulingPolicy) : SchedulerConfig where
  maxNumScheduledTokens := 16
  maxNumRunningReqs := 4
  maxModelLen := 32
  enableChunkedPrefill := true
  longPrefillTokenThreshold := 0
  maxNumPartialPrefills := 4
  policy := policy
  maxLoras := none
  specDisableByBatchSize := none
  maxNumEncoderInputTokens := 256
  encoderCacheSize := 256
  maxNumScheduledTokens_pos := by decide
  maxNumRunningReqs_pos := by decide
  maxNumPartialPrefills_pos := by decide

def shortKVConfig (numBlocks : ℕ) : KVCacheConfig where
  numBlocks := numBlocks
  blockSize := 2
  kvCacheGroups := [⟨.fullAttention, 2, Nat.zero_lt_two, fun _ h => KVCacheKind.noConfusion h⟩]
  uniform _ h := by rw [List.mem_singleton.mp h]
  blockSize_pos := Nat.zero_lt_two

/-- A request is added, scheduled, ended before its result is back, and reported. -/
def abortRun : Except PyError (Scheduler Digest × Scheduler Digest × Scheduler Digest ×
    Scheduler Digest × Request Digest × SchedulerOutput × SchedulerOutput) := do
  let s₀ ← init (shortConfig .fcfs) (shortKVConfig 8) true Digest.hash 0 none
  let request ← Request.init (.text 1 [1, 2, 3, 4, 5] 8)
  let (output₁, s₁) ← (s₀.addRequest request).schedule
  let s₂ ← s₁.finishRequests [1] .finishedAborted
  let (output₂, s₃) ← s₂.schedule
  return (s₀, s₁, s₂, s₃, request, output₁, output₂)

/-- The placement and the reports, on a run that ends a request in flight. -/
theorem run_placed_abort : ∃ (s : Scheduler Digest) (events : List Event),
    events.length = 4 ∧ s.Placed ∧ Accountable events s := by
  obtain ⟨⟨s₀, s₁, s₂, s₃, request, output₁, output₂⟩, hrun, -⟩ :=
    exists_of_okAnd (x := abortRun) (p := fun _ => true) (by decide +kernel)
  unfold abortRun at hrun
  obtain ⟨_, hinit, hrun⟩ := except_bind_iff.mp hrun
  obtain ⟨_, hrequest, hrun⟩ := except_bind_iff.mp hrun
  obtain ⟨⟨_, _⟩, hfirst, hrun⟩ := except_bind_iff.mp hrun
  obtain ⟨_, hfinish, hrun⟩ := except_bind_iff.mp hrun
  obtain ⟨⟨_, _⟩, hsecond, hrun⟩ := except_bind_iff.mp hrun
  cases hrun
  obtain ⟨-, hnone, -⟩ := init_settled hinit
  have hfresh : (RequestArgs.text 1 [1, 2, 3, 4, 5] 8).requestId ∉ s₀.requests := by
    rw [hnone]
    exact List.not_mem_nil
  have hsteps := (((Run.nil.snoc (Step.addRequest hrequest hfresh)).snoc
    (Step.schedule hfirst)).snoc (Step.finishRequests hfinish)).snoc (Step.schedule hsecond)
  obtain ⟨hplaced, haccountable⟩ := run_placed hinit hsteps
  exact ⟨s₃, _, rfl, hplaced, haccountable (List.nodup_singleton 1)⟩

end Scheduler

end Pvllm
