import Pvllm.Core.Sched.Reports
import Pvllm.Core.Sched.Exchange

/-!
The bitmask rows of the constrained requests.

`schedule` numbers the constrained requests of its batch from a flag,
`is_prefill_chunk`, that is only brought up to date once the output is built: it
says whether the step before stopped short of the known tokens. The worker samples
for the requests whose tokens are all in with this step. The two agree exactly
where the step leaves the flag of every constrained request it schedules as it
was.
-/

namespace Pvllm

variable {H : Type} [DecidableEq H]

omit [DecidableEq H] in
/-- Two states of a request whose flag is the same, and of which both or none is
constrained. -/
structure Request.Alike (request request' : Request H) : Prop where
  isPrefillChunk : request'.isPrefillChunk = request.isPrefillChunk
  useStructuredOutput : request'.useStructuredOutput = request.useStructuredOutput

namespace Request.Alike

variable {request request' request'' : Request H}

omit [DecidableEq H]

theorem refl (request : Request H) : Alike request request := ⟨rfl, rfl⟩

theorem trans (h : Alike request request') (h' : Alike request' request'') :
    Alike request request'' :=
  ⟨h'.1.trans h.1, h'.2.trans h.2⟩

theorem update {table : RequestId → Request H} {r : RequestId} (h : Alike (table r) request')
    (r' : RequestId) : Alike (table r') (Function.update table r request' r') := by
  by_cases hr : r' = r
  · subst hr
    rwa [Function.update_self]
  · rw [Function.update_of_ne hr]
    exact refl _

theorem withSpecTokenIds (drafts : List TokenId) :
    Alike request (request.withSpecTokenIds drafts) := ⟨rfl, rfl⟩

theorem withStatus (status : RequestStatus) : Alike request (request.withStatus status) :=
  ⟨rfl, rfl⟩

theorem preempted : Alike request request.preempted := ⟨rfl, rfl⟩

theorem admitted (numComputedTokens numCachedTokens : ℕ) :
    Alike request (request.admitted numComputedTokens numCachedTokens) := ⟨rfl, rfl⟩

end Request.Alike

omit [DecidableEq H] in
theorem Folds.alike {request request' : Request H} {kept : List TokenId} {stopped : Bool}
    (h : Folds request request' kept stopped) : request.Alike request' := by
  have heq := h.eq
  rw [Request.appendAll_frame] at heq
  rw [heq]
  exact ⟨rfl, rfl⟩

theorem UpdateState.UpdateOutcome.alike {u u' : UpdateState H} {schedulerOutput : SchedulerOutput}
    {modelRunnerOutput : ModelRunnerOutput} {r : RequestId}
    (h : UpdateOutcome schedulerOutput modelRunnerOutput r u u') (r' : RequestId) :
    (u.scheduler.request r').Alike (u'.scheduler.request r') := by
  have hroll : (u.scheduler.request r).Alike (rolledBack (u.scheduler.request r) schedulerOutput
      modelRunnerOutput r) := ⟨rfl, rfl⟩
  cases h with
  | skip hscheduled => exact .refl _
  | goOn hscheduled hfolds hkept hpooled houtputs => exact (hroll.trans hfolds.alike).update r'
  | stop hscheduled hfolds hkept houtput hfree hconnector =>
      exact (hroll.trans hfolds.alike).update r'

namespace StepState

variable {l l' : StepState H}

omit [DecidableEq H] in
theorem disableSpeculation_alike (s : Scheduler H) (r r' : RequestId) :
    (s.request r').Alike ((disableSpeculation s r).request r') := by
  rcases disableSpeculation_eq s r with heq | heq
  · rw [heq]
    exact .refl _
  · rw [heq]
    exact Request.Alike.update (.withSpecTokenIds []) r'

theorem Prepared.alike {s s' : Scheduler H} {r : RequestId} (h : Prepared s s' r)
    (r' : RequestId) : (s.request r').Alike (s'.request r') := by
  rcases h.table with heq | ⟨-, status, -, heq⟩
  · rw [heq]
    exact .refl _
  · rw [heq]
    exact Request.Alike.update (.withStatus status) r'

/-- The loops read the flag and do not write it. -/
theorem Outcome.alike (h : Outcome l l') (r' : RequestId) :
    (l.scheduler.request r').Alike (l'.scheduler.request r') := by
  cases h with
  | rest hphase => exact .refl _
  | enter hphase => exact .refl _
  | pass hphase hr => exact disableSpeculation_alike ..
  | takeUp hphase hr hn hbudget hspec hlen => exact disableSpeculation_alike ..
  | commit hphase hok =>
      rw [commitRunning_request]
      exact Request.Alike.update (.withSpecTokenIds []) r'
  | preempt hphase hok hvictim hstatus hfree hbatch hinputs =>
      exact Request.Alike.update .preempted r'
  | close hphase hs =>
      rcases hs with rfl | ⟨r, hs⟩
      · exact .refl _
      · exact hs.alike r'
  | setAside hphase hs hfree hpop => exact hs.alike r'
  | lookUp hphase hs hpreempted hhits hexternal hrunning hn hbudget hlen => exact hs.alike r'
  | decline hphase hok => exact .refl _
  | accept hphase hok hpop hstatus hconnector =>
      exact Request.Alike.update (.admitted ..) r'

theorem Loops.alike (hloops : Loops l l') (r : RequestId) :
    (l.scheduler.request r).Alike (l'.scheduler.request r) :=
  hloops.invariant (P := fun l' => (l.scheduler.request r).Alike (l'.scheduler.request r))
    (.refl _) fun _ _ hstep h => h.trans (hstep.alike r)

/-! ### The numbering -/

omit [DecidableEq H] in
theorem mem_zip_range {r : RequestId} {row : ℕ} {order : List RequestId} :
    (r, row) ∈ order.zip (List.range order.length) ↔ order[row]? = some r := by
  rw [List.mem_iff_getElem?]
  constructor
  · rintro ⟨i, hi⟩
    obtain ⟨hr, hrow⟩ := List.getElem?_zip_eq_some.mp hi
    obtain ⟨hlt, rfl⟩ := List.getElem?_eq_some_iff.mp hrow
    rwa [List.getElem_range]
  · intro h
    have hlt := (List.getElem?_eq_some_iff.mp h).1
    exact ⟨row, List.getElem?_zip_eq_some.mpr ⟨h, List.getElem?_range hlt⟩⟩

omit [DecidableEq H] in
theorem structuredOutputRows_ok {rows : Dict RequestId ℕ} (h : l.structuredOutputRows = .ok rows) :
    ∃ order : List RequestId, order.Nodup ∧
      (∀ r, r ∈ order ↔ r ∈ l.numScheduledTokens.keys ∧
        (l.scheduler.request r).useStructuredOutput = true ∧
        (l.scheduler.request r).isPrefillChunk = false) ∧
      ∀ r row, rows.find r = some row ↔ order[row]? = some r := by
  unfold structuredOutputRows at h
  dsimp only at h
  split at h
  · cases h
  obtain rfl := Except.ok.inj h
  set order := (l.numScheduledTokens.keys.filter fun r =>
    (l.scheduler.request r).useStructuredOutput &&
      !(l.scheduler.request r).isPrefillChunk).mergeSort with horder
  have hnodup : order.Nodup :=
    (List.mergeSort_perm ..).nodup_iff.mpr (l.numScheduledTokens.keys_nodup.filter _)
  have hkeys : ((order.zip (List.range order.length)).map Prod.fst).Nodup := by
    rwa [List.map_fst_zip (by simp)]
  refine ⟨order, hnodup, fun r => ?_, fun r row => ?_⟩
  · rw [horder, List.mem_mergeSort, List.mem_filter]
    simp
  · rw [Dict.find_foldl_store hkeys, Dict.find_empty, Option.or_none, ← mem_zip_range]
    exact ⟨Dict.mem_of_findIn, Dict.findIn_of_mem hkeys⟩

end StepState

/-! ### What the rows should be -/

omit [DecidableEq H] in
/-- The rows are those of the constrained requests that sample in this step, the
ones whose known tokens are all computed with it, and number them from zero. `s`
is the scheduler after the call, with this step's tokens counted. -/
structure SchedulerOutput.RowsMatch (output : SchedulerOutput) (s : Scheduler H) : Prop where
  keys : ∀ r, r ∈ output.structuredOutputRequestIds.keys ↔
    r ∈ output.numScheduledTokens.keys ∧ (s.request r).useStructuredOutput = true ∧
      (s.request r).numTokens ≤ (s.request r).numComputedTokens
  injective : ∀ r r' row, output.structuredOutputRequestIds.find r = some row →
    output.structuredOutputRequestIds.find r' = some row → r = r'
  onto : ∀ row, row < output.structuredOutputRequestIds.keys.length ↔
    ∃ r, output.structuredOutputRequestIds.find r = some row

namespace Scheduler

open StepState (Loops advancedTable)

variable {s s' : Scheduler H} {output : SchedulerOutput}

omit [DecidableEq H] in
theorem advancedTable_of_mem (request : RequestId → Request H) {scheduled : Dict RequestId ℕ}
    {r : RequestId} (h : r ∈ scheduled.keys) :
    ∃ n, advancedTable request scheduled.items r = (request r).advanced n := by
  obtain ⟨n, hn⟩ := (scheduled.mem_keys_iff r).mp h
  refine ⟨n, ?_⟩
  unfold advancedTable
  rw [show Dict.findIn r scheduled.items = some n from hn]

/-- The rows a call gives, from the flags it found. -/
theorem schedule_rows (hok : s.schedule = .ok (output, s')) :
    ∃ order : List RequestId, order.Nodup ∧
      (∀ r, r ∈ order ↔ r ∈ output.numScheduledTokens.keys ∧
        (s'.request r).useStructuredOutput = true ∧ (s.request r).isPrefillChunk = false) ∧
      (∀ r row, output.structuredOutputRequestIds.find r = some row ↔ order[row]? = some r) ∧
      ∀ r ∈ output.numScheduledTokens.keys,
        (s'.request r).useStructuredOutput = (s.request r).useStructuredOutput ∧
          ((s'.request r).isPrefillChunk = true ↔
            (s'.request r).numComputedTokens < (s'.request r).numTokens) := by
  obtain ⟨l, hloops, -, hfinishes⟩ := schedule_ok hok
  obtain ⟨order, hnodup, hmem, hrows⟩ := StepState.structuredOutputRows_ok hfinishes.rows
  have htable : s'.request = advancedTable l.scheduler.request l.numScheduledTokens.items := by
    rw [hfinishes.state]
  refine ⟨order, hnodup, fun r => ?_, hrows, fun r hr => ?_⟩
  · rw [hmem, hfinishes.scheduled]
    refine and_congr_right fun hr => ?_
    obtain ⟨n, hn⟩ := advancedTable_of_mem l.scheduler.request hr
    rw [htable, hn, (hloops.alike r).isPrefillChunk]
    exact Iff.rfl
  · rw [hfinishes.scheduled] at hr
    obtain ⟨n, hn⟩ := advancedTable_of_mem l.scheduler.request hr
    rw [htable, hn]
    exact ⟨(hloops.alike r).useStructuredOutput, decide_eq_true_iff⟩

theorem length_keys_of_order {rows : Dict RequestId ℕ} {order : List RequestId}
    (hnodup : order.Nodup) (hrows : ∀ r row, rows.find r = some row ↔ order[row]? = some r) :
    rows.keys.length = order.length ∧ ∀ r, r ∈ rows.keys ↔ r ∈ order := by
  have hmem : ∀ r, r ∈ rows.keys ↔ r ∈ order := by
    intro r
    rw [Dict.mem_keys_iff, List.mem_iff_getElem?]
    exact exists_congr fun row => hrows r row
  exact ⟨((List.perm_ext_iff_of_nodup rows.keys_nodup hnodup).mpr hmem).length_eq, hmem⟩

/-- From any state: the rows of a call match the requests it samples for if and
only if it leaves the flag of every constrained request it schedules as it was, up
where this step's tokens stop short of the known ones and down where they do not. -/
theorem schedule_rowsMatch_iff (hok : s.schedule = .ok (output, s')) :
    output.RowsMatch s' ↔ ∀ r ∈ output.numScheduledTokens.keys,
      (s'.request r).useStructuredOutput = true →
        ((s.request r).isPrefillChunk = true ↔
          (s'.request r).numComputedTokens < (s'.request r).numTokens) := by
  obtain ⟨order, hnodup, hmem, hrows, -⟩ := schedule_rows hok
  obtain ⟨hlength, hkeys⟩ := length_keys_of_order hnodup hrows
  constructor
  · intro hmatch r hr hstructured
    have hiff := hmatch.keys r
    rw [hkeys, hmem] at hiff
    cases hold : (s.request r).isPrefillChunk with
    | false =>
        have hall := (hiff.mp ⟨hr, hstructured, hold⟩).2.2
        simpa using hall
    | true =>
        have hnot : ¬ (s'.request r).numTokens ≤ (s'.request r).numComputedTokens := by
          intro hall
          have hdown := (hiff.mpr ⟨hr, hstructured, hall⟩).2.2
          rw [hold] at hdown
          cases hdown
        simpa using hnot
  · intro hsame
    refine ⟨fun r => ?_, fun r r' row h h' => ?_, fun row => ?_⟩
    · rw [hkeys, hmem]
      refine and_congr_right fun hr => and_congr_right fun hstructured => ?_
      rw [← not_lt, ← hsame r hr hstructured, Bool.not_eq_true]
    · rw [hrows] at h h'
      rw [h] at h'
      exact Option.some.inj h'
    · rw [hlength]
      constructor
      · intro hlt
        exact ⟨order[row], (hrows _ _).mpr (List.getElem?_eq_getElem hlt)⟩
      · rintro ⟨r, hr⟩
        exact (List.getElem?_eq_some_iff.mp ((hrows r row).mp hr)).1

/-! ### Over runs -/

/-- A step whose output, if it is a call of `schedule`, has the rows it should. -/
def MatchingStep (s : Scheduler H) (event : Event) (s' : Scheduler H) : Prop :=
  Step s event s' ∧ ∀ output, event = .schedule output → output.RowsMatch s'

/-- A step that splits no constrained request: a call of `schedule` that takes one
up takes all its known tokens. -/
def WholeStep (s : Scheduler H) (event : Event) (s' : Scheduler H) : Prop :=
  Step s event s' ∧ ∀ output, event = .schedule output → ∀ r ∈ output.numScheduledTokens.keys,
    (s'.request r).useStructuredOutput = true →
      (s'.request r).numTokens ≤ (s'.request r).numComputedTokens

/-- No constrained request is flagged. -/
def FlagsDown (s : Scheduler H) : Prop :=
  ∀ r, (s.request r).useStructuredOutput = true → (s.request r).isPrefillChunk = false

theorem schedule_alike (h : s.schedule = .ok (output, s')) {r : RequestId}
    (hr : r ∉ output.numScheduledTokens.keys) : (s.request r).Alike (s'.request r) := by
  obtain ⟨l, hloops, -, hfinishes⟩ := schedule_ok h
  rw [hfinishes.scheduled] at hr
  rw [hfinishes.state]
  show (s.request r).Alike (advancedTable ..)
  rw [advancedTable_of_not_mem hr]
  exact hloops.alike r

theorem updateFromOutput_alike {schedulerOutput : SchedulerOutput}
    {modelRunnerOutput : ModelRunnerOutput} {outputs : Dict ℕ (List EngineCoreOutput)}
    (h : s.updateFromOutput schedulerOutput modelRunnerOutput = .ok (outputs, s'))
    (r : RequestId) : (s.request r).Alike (s'.request r) := by
  obtain ⟨u, s₁, hall, hshed, -, rfl⟩ := updateFromOutput_ok h
  obtain ⟨-, heq⟩ := shedAll_ok (P := fun _ => True) hshed trivial fun _ _ _ _ _ _ => trivial
  have halike : (s.request r).Alike (u.scheduler.request r) :=
    UpdateState.updateAll_invariant (P := fun u _ => (s.request r).Alike (u.scheduler.request r))
      hall (.refl _) fun _ _ _ _ hone h => h.trans (hone.alike r)
  refine halike.trans ?_
  rw [heq]
  show (u.scheduler.request r).Alike (draftedTable ..)
  rw [draftedTable_frame]
  exact .withSpecTokenIds _

theorem finishOne_alike {finishedStatus : RequestStatus} {r : RequestId}
    (h : s.finishOne finishedStatus r = .ok s') (r' : RequestId) :
    (s.request r').Alike (s'.request r') := by
  rcases finishOne_ok h with ⟨-, rfl⟩ | ⟨-, -, -, -, -, -, -, -, -, rfl⟩
  · exact .refl _
  · exact Request.Alike.update (.withStatus finishedStatus) r'

omit [DecidableEq H] in
theorem init_isPrefillChunk {args : RequestArgs} {request : Request H}
    (h : Request.init args = .ok request) : request.isPrefillChunk = false := by
  unfold Request.init at h
  split at h
  · cases h
  split at h
  · cases h
  obtain rfl := Except.ok.inj h
  rfl

omit [DecidableEq H] in
theorem FlagsDown.of_alike (hdown : s.FlagsDown)
    (halike : ∀ r, (s.request r).Alike (s'.request r)) : s'.FlagsDown := by
  intro r hstructured
  rw [(halike r).useStructuredOutput] at hstructured
  rw [(halike r).isPrefillChunk, hdown r hstructured]

/-- Only an output can raise a flag, and one that splits no constrained request
raises none of theirs. -/
theorem WholeStep.flagsDown {event : Event} (hstep : WholeStep s event s') (hdown : s.FlagsDown) :
    s'.FlagsDown := by
  obtain ⟨hstep, hwhole⟩ := hstep
  cases hstep with
  | @addRequest args request hrequest hfresh =>
      rw [addRequest_eq]
      intro r hstructured
      by_cases hr : r = request.requestId
      · subst hr
        show (Function.update s.request _ _ _).isPrefillChunk = false
        rw [Function.update_self, stored_frame]
        show request.isPrefillChunk = false
        exact init_isPrefillChunk hrequest
      · have hsame : Function.update s.request request.requestId (s.stored request) r =
            s.request r := Function.update_of_ne hr ..
        dsimp only at hstructured ⊢
        rw [hsame] at hstructured ⊢
        exact hdown r hstructured
  | finishRequests hok =>
      obtain ⟨-, hall⟩ := finishRequests_ok hok
      exact finishAll_invariant hall hdown fun _ _ _ _ hone h => h.of_alike (finishOne_alike hone)
  | @schedule _ output hok =>
      intro r hstructured
      obtain ⟨-, -, -, -, hflag⟩ := schedule_rows hok
      by_cases hr : r ∈ output.numScheduledTokens.keys
      · have hall := hwhole output rfl r hr hstructured
        rw [← Bool.not_eq_true, (hflag r hr).2, not_lt]
        exact hall
      · have halike := schedule_alike hok hr
        rw [halike.useStructuredOutput] at hstructured
        rw [halike.isPrefillChunk, hdown r hstructured]
  | updateFromOutput hok => exact hdown.of_alike (updateFromOutput_alike hok)
  | resetPrefixCache => exact hdown
  | grammar hcompiling =>
      refine hdown.of_alike (Request.Alike.update ⟨rfl, ?_⟩)
      rw [Request.useStructuredOutput, Request.useStructuredOutput, hcompiling]
      rfl
  | sharedStore hconnector => exact hdown

/-- Where no constrained request is flagged, the rows match if and only if none is
split. -/
theorem FlagsDown.matching_iff (hdown : s.FlagsDown) {event : Event} :
    MatchingStep s event s' ↔ WholeStep s event s' := by
  refine and_congr_right fun hstep => forall_congr' fun output => ?_
  refine imp_congr_right fun hevent => ?_
  subst hevent
  cases hstep with
  | schedule hok =>
      rw [schedule_rowsMatch_iff hok]
      refine forall₂_congr fun r hr => imp_congr_right fun hstructured => ?_
      obtain ⟨-, -, -, -, hflag⟩ := schedule_rows hok
      rw [hdown r ((hflag r hr).1 ▸ hstructured)]
      simp

/-- The runs in which the rows of every output match are the runs in which no
constrained request is split. -/
theorem run_rowsMatch_iff {config : SchedulerConfig} {kvCacheConfig : KVCacheConfig}
    {enableCaching : Bool} {hashFn : HashInput H → H} {seed : ℕ}
    {connector : Option (SimSharedStoreConnector H)} {s₀ s : Scheduler H} {events : List Event}
    (hinit : init config kvCacheConfig enableCaching hashFn seed connector = .ok s₀) :
    Run MatchingStep s₀ events s ↔ Run WholeStep s₀ events s := by
  refine Run.congr_of_invariant (P := FlagsDown) ?_ (fun _ _ _ hdown hstep => hstep.flagsDown hdown)
    fun _ _ _ hdown => hdown.matching_iff
  intro r _
  unfold init at hinit
  split at hinit
  · cases hinit
  split at hinit
  · cases hinit
  obtain rfl := Except.ok.inj hinit
  rfl

def rowArgs : RequestArgs :=
  { RequestArgs.text 1 [1, 2, 3, 4] 8 with structuredOutput := true }

def rowConfig : SchedulerConfig :=
  { shortConfig .fcfs with
    maxNumScheduledTokens := 3
    maxNumScheduledTokens_pos := Nat.succ_pos 2 }

def rowAnswer (tokenIds : List TokenId) : ModelRunnerOutput :=
  ⟨[1], Dict.empty.store 1 0, [tokenIds], none, none⟩

def rowRun (config : SchedulerConfig) (tokenIds : List TokenId) : Except PyError
    (Scheduler Digest × Request Digest × Scheduler Digest × SchedulerOutput × Scheduler Digest ×
      Dict ℕ (List EngineCoreOutput) × Scheduler Digest × SchedulerOutput × Scheduler Digest) := do
  let s₀ ← init config (shortKVConfig 8) true Digest.hash 0 none
  let request ← Request.init rowArgs
  let s₁ := (s₀.addRequest request).modifyRequest 1 fun request =>
    { request with structuredOutputRequest := some .compiled }
  let (output, s₂) ← s₁.schedule
  let (outputs, s₃) ← s₂.updateFromOutput output (rowAnswer tokenIds)
  let (output', s₄) ← s₃.schedule
  return (s₀, request, s₁, output, s₂, outputs, s₃, output', s₄)

theorem rowRun_reaches {config : SchedulerConfig} {tokenIds : List TokenId}
    {s₀ s₁ s₂ s₃ s₄ : Scheduler Digest} {request : Request Digest}
    {output output' : SchedulerOutput} {outputs : Dict ℕ (List EngineCoreOutput)}
    (h : rowRun config tokenIds = .ok (s₀, request, s₁, output, s₂, outputs, s₃, output', s₄))
    (hgrammar : ((s₀.addRequest request).request 1).structuredOutputRequest = some .compiling) :
    init config (shortKVConfig 8) true Digest.hash 0 none = .ok s₀ ∧
      Step s₀ (.addRequest rowArgs) (s₀.addRequest request) ∧
      Step (s₀.addRequest request) (.grammar 1 .compiled) s₁ ∧ s₁.schedule = .ok (output, s₂) ∧
      Step s₂ (.updateFromOutput output (rowAnswer tokenIds) outputs) s₃ ∧
      s₃.schedule = .ok (output', s₄) := by
  unfold rowRun at h
  obtain ⟨_, hinit, h⟩ := except_bind_iff.mp h
  obtain ⟨_, hrequest, h⟩ := except_bind_iff.mp h
  obtain ⟨⟨_, _⟩, hschedule, h⟩ := except_bind_iff.mp h
  obtain ⟨⟨_, _⟩, hupdate, h⟩ := except_bind_iff.mp h
  obtain ⟨⟨_, _⟩, hschedule', h⟩ := except_bind_iff.mp h
  cases h
  obtain ⟨-, hnone, -⟩ := init_settled hinit
  have hfresh : rowArgs.requestId ∉ s₀.requests := by
    rw [hnone]
    exact List.not_mem_nil
  exact ⟨hinit, .addRequest hrequest hfresh, .grammar hgrammar, hschedule,
    .updateFromOutput hupdate, hschedule'⟩

/-- With a budget for the whole prompt, no step splits the request. -/
theorem run_rowsMatch_whole : ∃ (s₀ s : Scheduler Digest) (events : List Event),
    Run MatchingStep s₀ events s ∧ s.running = [1] ∧ (s.request 1).numComputedTokens = 5 := by
  obtain ⟨⟨s₀, request, s₁, output, s₂, outputs, s₃, output', s₄⟩, hrun, hcheck⟩ :=
    exists_of_okAnd (x := rowRun (shortConfig .fcfs) [7])
      (p := fun (s₀, request, _, output, s₂, _, _, output', s₄) =>
        decide (((s₀.addRequest request).request 1).structuredOutputRequest = some .compiling) &&
        decide ((∀ r ∈ output.numScheduledTokens.keys,
            (s₂.request r).numTokens ≤ (s₂.request r).numComputedTokens) ∧
          ∀ r ∈ output'.numScheduledTokens.keys,
            (s₄.request r).numTokens ≤ (s₄.request r).numComputedTokens) &&
        decide (s₄.running = [1] ∧ (s₄.request 1).numComputedTokens = 5)) (by decide +kernel)
  simp only [Bool.and_eq_true, decide_eq_true_eq] at hcheck
  obtain ⟨⟨hgrammar, hwhole, hwhole'⟩, hfacts⟩ := hcheck
  obtain ⟨hinit, hadd, hcompile, hschedule, hupdate, hschedule'⟩ := rowRun_reaches hrun hgrammar
  have hfirst : WholeStep s₁ (.schedule output) s₂ := by
    refine ⟨.schedule hschedule, fun _ heq r hr _ => ?_⟩
    cases heq
    exact hwhole r hr
  have hsecond : WholeStep s₃ (.schedule output') s₄ := by
    refine ⟨.schedule hschedule', fun _ heq r hr _ => ?_⟩
    cases heq
    exact hwhole' r hr
  have hsteps := ((((Run.nil.snoc (⟨hadd, nofun⟩ : WholeStep ..)).snoc ⟨hcompile, nofun⟩).snoc
    hfirst).snoc ⟨hupdate, nofun⟩).snoc hsecond
  exact ⟨s₀, s₄, _, (run_rowsMatch_iff hinit).mpr hsteps, hfacts⟩

/-- With a budget of three tokens the prompt is computed in two steps. In the first
the request has a row and samples nothing, in the second it samples without a
row. -/
theorem run_rows_mismatch : ∃ (s₀ s₁ s₂ s₃ s₄ : Scheduler Digest) (events events' : List Event)
    (output output' : SchedulerOutput),
    init rowConfig (shortKVConfig 8) true Digest.hash 0 none = .ok s₀ ∧
      Run Step s₀ events s₁ ∧ s₁.schedule = .ok (output, s₂) ∧ ¬ output.RowsMatch s₂ ∧
      Run Step s₂ events' s₃ ∧ s₃.schedule = .ok (output', s₄) ∧ ¬ output'.RowsMatch s₄ := by
  obtain ⟨⟨s₀, request, s₁, output, s₂, outputs, s₃, output', s₄⟩, hrun, hcheck⟩ :=
    exists_of_okAnd (x := rowRun rowConfig [])
      (p := fun (s₀, request, _, output, s₂, _, _, output', s₄) =>
        decide (((s₀.addRequest request).request 1).structuredOutputRequest = some .compiling) &&
        decide (1 ∈ output.structuredOutputRequestIds.keys ∧
          (s₂.request 1).numComputedTokens < (s₂.request 1).numTokens) &&
        decide (1 ∉ output'.structuredOutputRequestIds.keys ∧
          1 ∈ output'.numScheduledTokens.keys ∧ (s₄.request 1).useStructuredOutput = true ∧
          (s₄.request 1).numTokens ≤ (s₄.request 1).numComputedTokens)) (by decide +kernel)
  simp only [Bool.and_eq_true, decide_eq_true_eq] at hcheck
  obtain ⟨⟨hgrammar, hrow, hshort⟩, hnone, hbatch, hstructured, hall⟩ := hcheck
  obtain ⟨hinit, hadd, hcompile, hschedule, hupdate, hschedule'⟩ := rowRun_reaches hrun hgrammar
  refine ⟨s₀, s₁, s₂, s₃, s₄, _, _, output, output', hinit,
    (Run.nil.snoc hadd).snoc hcompile, hschedule, fun hmatch => ?_, Run.nil.snoc hupdate,
    hschedule', fun hmatch => ?_⟩
  · have hlen := ((hmatch.keys 1).mp hrow).2.2
    omega
  · exact hnone ((hmatch.keys 1).mpr ⟨hbatch, hstructured, hall⟩)

end Scheduler

end Pvllm
