import Pvllm.Core.Sched.Plain

/-!
First come, first served.

Under `fcfs` the running requests and then the waiting ones stand in the line in
which they arrived. A call of `schedule` moves the boundary between the two and
nothing else: preemption takes the last running requests and puts them, one by
one, in front of the waiting ones; admission takes the first waiting ones.
-/

namespace Pvllm

variable {H : Type} [DecidableEq H]

/-! ### The line of arrivals -/

/-- A request that is added goes to the end of the line. -/
def Event.arrive (line : List RequestId) (event : Event) : List RequestId :=
  match event.added with
  | none => line
  | some r => line.filter (· ≠ r) ++ [r]

/-- The ids requests were added under, in the order of their last arrival. -/
def arrivals (events : List Event) : List RequestId := events.foldl Event.arrive []

theorem arrivals_snoc (events : List Event) (event : Event) :
    arrivals (events ++ [event]) = event.arrive (arrivals events) := by
  rw [arrivals, List.foldl_append]
  rfl

/-- The line is that of the known requests, in the order of their arrival. -/
abbrev Arrived (arrived requests line : List RequestId) : Prop :=
  line = arrived.filter (· ∈ requests)

namespace Arrived

variable {arrived requests line : List RequestId} {r : RequestId}

theorem add (h : Arrived arrived requests line) (hfresh : r ∉ requests) :
    Arrived (arrived.filter (· ≠ r) ++ [r]) (requests ++ [r]) (line ++ [r]) := by
  rw [Arrived, List.filter_append, List.filter_filter, h]
  congr 1
  · refine List.filter_congr fun r' _ => ?_
    by_cases hr : r' = r
    · simp [hr, hfresh]
    · simp [hr]
  · simp

theorem drop (h : Arrived arrived requests line) (hrequests : requests.Nodup) :
    Arrived arrived (requests.erase r) (line.filter (· ≠ r)) := by
  rw [Arrived, h, List.filter_filter]
  refine List.filter_congr fun r' _ => ?_
  by_cases hr : r' = r
  · subst hr
    simp [hrequests.not_mem_erase]
  · simp [hr, List.mem_erase_of_ne]

end Arrived

/-! ### One call of `schedule` -/

namespace StepState

/-- The requests of a call that began at `s` stand in one line, and the boundary
between running and waiting has moved one way. -/
structure Lined (s : Scheduler H) (l : StepState H) : Prop where
  line : l.scheduler.running ++ l.scheduler.waiting.items = s.running ++ s.waiting.items
  skipped : l.scheduler.skippedWaiting.items = []
  moved : l.scheduledNewReqs ++ l.scheduledResumedReqs = [] ∧
      s.running = l.scheduler.running ++ l.preemptedReqs.reverse ∨
    l.preemptedReqs = [] ∧ ∃ admitted, l.scheduler.running = s.running ++ admitted ∧
      admitted.Perm (l.scheduledNewReqs ++ l.scheduledResumedReqs)

variable {s : Scheduler H} {l l' : StepState H}

omit [DecidableEq H] in
/-- A step that moves no request. -/
theorem Lined.quiet (h : Lined s l) (hrunning : l'.scheduler.running = l.scheduler.running)
    (hwaiting : l'.scheduler.waiting = l.scheduler.waiting)
    (hskipped : l'.scheduler.skippedWaiting = l.scheduler.skippedWaiting)
    (hpreempted : l'.preemptedReqs = l.preemptedReqs)
    (hnew : l'.scheduledNewReqs = l.scheduledNewReqs)
    (hresumed : l'.scheduledResumedReqs = l.scheduledResumedReqs) : Lined s l' := by
  refine ⟨?_, ?_, ?_⟩
  · rw [hrunning, hwaiting]
    exact h.line
  · rw [hskipped]
    exact h.skipped
  · rw [hrunning, hpreempted, hnew, hresumed]
    exact h.moved

/-- Before any admission only the last of the running requests have left. -/
theorem Lined.first (h : Lined s l) (hb : Batch l) (hover : l.phase.overRunning = true) :
    s.running = l.scheduler.running ++ l.preemptedReqs.reverse := by
  rcases h.moved with ⟨-, hmoved⟩ | ⟨hnone, admitted, hmoved, hperm⟩
  · exact hmoved
  · obtain ⟨hnew, hresumed, -⟩ := hb.first hover
    rw [hnew, hresumed, List.append_nil] at hperm
    rw [hperm.eq_nil, List.append_nil] at hmoved
    rw [hnone, hmoved]
    simp

theorem Outcome.lined (h : Outcome l l') (hb : Batch l) (hpolicy : l.scheduler.Policied)
    (hfcfs : l.scheduler.config.policy = .fcfs)
    (hunskipped : l.phase = .admission → l'.scheduler.waiting = l.scheduler.waiting)
    (hl : Lined s l) : Lined s l' := by
  have hwaiting : l.scheduler.waiting.policy = .fcfs := hpolicy.waiting.trans hfcfs
  cases h with
  | rest hfinished => exact hl
  | enter hrunning => exact hl.quiet rfl rfl rfl rfl rfl rfl
  | pass hrunning hr =>
      rw [disableSpeculation_frame]
      exact hl.quiet rfl rfl rfl rfl rfl rfl
  | takeUp hrunning hr hn hbudget hspec hlen =>
      rw [disableSpeculation_frame]
      exact hl.quiet rfl rfl rfl rfl rfl rfl
  | commit hallocating hok =>
      refine hl.quiet (commitRunning_running ..) (commitRunning_waiting ..) ?_ rfl rfl rfl
      rw [commitRunning_request]
  | @preempt r victim n kv inBatch blocks scheduled inputs cache encoderBudget tokenBudget reqIndex
      loras hallocating hok hvictim hstatus hfree hbatch hinputs =>
      have hover : l.phase.overRunning = true := by rw [hallocating]; rfl
      -- the victim is the last that runs, and goes to the front of those who wait
      have hsplit := List.dropLast_append_getLast? victim ((selectVictim_mem hvictim).2 hfcfs)
      have hitems : (l.scheduler.waiting.prependRequest (Function.update l.scheduler.request victim
          (l.scheduler.request victim).preempted) victim).items =
            victim :: l.scheduler.waiting.items := by
        rw [RequestQueue.prependRequest, hwaiting]
      rw [if_pos hfcfs]
      refine ⟨?_, hl.skipped, Or.inl ⟨?_, ?_⟩⟩
      · show l.scheduler.running.dropLast ++ RequestQueue.items _ = _
        rw [hitems, List.append_cons, hsplit]
        exact hl.line
      · obtain ⟨hnew, hresumed, -⟩ := hb.first hover
        show l.scheduledNewReqs ++ l.scheduledResumedReqs = []
        rw [hnew, hresumed, List.append_nil]
      · show s.running = l.scheduler.running.dropLast ++ (l.preemptedReqs ++ [victim]).reverse
        rw [List.reverse_append, List.reverse_singleton, ← List.append_assoc, hsplit]
        exact hl.first hb hover
  | close hadmission hs =>
      rcases hs with rfl | ⟨r, hs⟩
      · exact hl.quiet rfl rfl rfl rfl rfl rfl
      · rw [hs.frame]
        exact hl.quiet rfl rfl rfl rfl rfl rfl
  | setAside hadmission hs hfree hpop =>
      exact absurd (hunskipped hadmission) (setAside_absurd hs hpop)
  | lookUp hadmission hs hpreempted hhits hexternal hrunning hn hbudget hlen =>
      rw [hs.frame]
      exact hl.quiet rfl rfl rfl rfl rfl rfl
  | decline hadmitting hok => exact hl.quiet rfl rfl rfl rfl rfl rfl
  | @accept r r' hits blocks numLocal numExternal n inputs kv waiting connector loras hadmitting hok
      hpop hstatus hconnector =>
      have hnone : l.preemptedReqs = [] := hb.second (by rw [hadmitting]; rfl)
      -- nobody was preempted, so the running requests have only grown
      obtain ⟨admitted, hrunning, hperm⟩ : ∃ admitted, l.scheduler.running = s.running ++ admitted ∧
          admitted.Perm (l.scheduledNewReqs ++ l.scheduledResumedReqs) := by
        rcases hl.moved with ⟨hbefore, hmoved⟩ | ⟨-, hmoved⟩
        · rw [hnone, List.reverse_nil, List.append_nil] at hmoved
          exact ⟨[], by rw [hmoved, List.append_nil], by rw [hbefore]⟩
        · exact hmoved
      refine ⟨?_, hl.skipped, Or.inr ⟨hnone, admitted ++ [r'], ?_, ?_⟩⟩
      · show l.scheduler.running ++ [r'] ++ waiting.items = _
        rw [← hl.line, RequestQueue.popRequest_eq_ok hpop, ← List.append_cons]
      · show l.scheduler.running ++ [r'] = _
        rw [hrunning, List.append_assoc]
      · refine (hperm.append_right [r']).trans ?_
        dsimp only
        split
        · rw [List.append_assoc, List.append_assoc]
          exact (List.perm_append_comm).append_left _
        · rw [List.append_assoc]

theorem Loops.lined (hsettled : s.Settled) (hplain : s.AllPlain) (hpolicy : s.Policied)
    (hfcfs : s.config.policy = .fcfs) (hloops : Loops (start s) l) : Lined s l := by
  refine hloops.plain_invariant (P := fun l => Lined s l) hsettled.partition hplain ?_ ?_
  · refine ⟨rfl, hsettled.skipped, Or.inl ⟨rfl, ?_⟩⟩
    simp [start]
  · intro l l' hreach _ hstep hb hunskipped hl
    have hpolicied : l.scheduler.Policied :=
      Loops.invariant (P := fun l => l.scheduler.Policied) hreach hpolicy
        fun _ _ hstep hp => hstep.policied hp
    refine hstep.lined hb hpolicied ?_ hunskipped hl
    rw [(Loops.static hreach).1]
    exact hfcfs

end StepState

/-! ### What the output says -/

omit [DecidableEq H] in
/-- The entries for the worker are those of the new and the resumed requests, whole. -/
theorem StepState.makeNewRequestData_map {l : StepState H} {data : List NewRequestData} {α : Type}
    (f : NewRequestData → α) (g : RequestId → α)
    (hfg : ∀ r blocks, f (.fromRequest (l.scheduler.request r) blocks) = g r)
    (h : l.makeNewRequestData = .ok data) :
    data.map f = (l.scheduledNewReqs ++ l.scheduledResumedReqs).map g := by
  unfold makeNewRequestData at h
  have hall := mapM_ok h
  generalize l.scheduledNewReqs ++ l.scheduledResumedReqs = reqs at hall
  clear h
  induction hall with
  | nil => rfl
  | @cons r entry reqs data hentry _ ih =>
      split at hentry
      · cases hentry
      · obtain rfl := Except.ok.inj hentry
        rw [List.map_cons, List.map_cons, ih, hfg]

omit [DecidableEq H] in
theorem StepState.makeNewRequestData_reqIds {l : StepState H} {data : List NewRequestData}
    (hid : ∀ r, (l.scheduler.request r).requestId = r) (h : l.makeNewRequestData = .ok data) :
    data.map (·.reqId) = l.scheduledNewReqs ++ l.scheduledResumedReqs := by
  rw [makeNewRequestData_map (·.reqId) id (fun r _ => hid r) h, List.map_id]

namespace Scheduler

/-- A call of `schedule` moves the boundary between the running and the waiting
requests one way. -/
inductive Moves (s : Scheduler H) (output : SchedulerOutput) (s' : Scheduler H) : Prop
  /-- Requests are admitted from the front of the queue to the end of the running ones. -/
  | admits (admitted : List RequestId) (hrunning : s'.running = s.running ++ admitted)
      (hwaiting : s.waiting.items = admitted ++ s'.waiting.items)
      (hnew : admitted.Perm (output.scheduledNewReqs.map (·.reqId)))
      (hpreempted : output.preemptedReqIds = none)
  /-- Requests are preempted from the end of the running ones to the front of the queue. -/
  | preempts (victims : List RequestId) (hrunning : s.running = s'.running ++ victims.reverse)
      (hwaiting : s'.waiting.items = victims.reverse ++ s.waiting.items)
      (hnew : output.scheduledNewReqs = []) (hpreempted : output.preemptedReqIds = some victims)

theorem schedule_moves {s s' : Scheduler H} {output : SchedulerOutput} (hsettled : s.Settled)
    (hplain : s.AllPlain) (hpolicy : s.Policied) (hfcfs : s.config.policy = .fcfs)
    (hok : s.schedule = .ok (output, s')) : Moves s output s' := by
  obtain ⟨l, hloops, -, hfinishes⟩ := schedule_ok hok
  have hl := StepState.Loops.lined hsettled hplain hpolicy hfcfs hloops
  have hb := hloops.batch hsettled.partition
  have hrestore : l.scheduler.restoreSkippedWaiting = l.scheduler := if_pos hl.skipped
  have hrunning : s'.running = l.scheduler.running := by rw [hfinishes.state, hrestore]
  have hwaiting : s'.waiting = l.scheduler.waiting := by rw [hfinishes.state, hrestore]
  have hnew := StepState.makeNewRequestData_reqIds hb.partition.requestId hfinishes.newReqs
  have hline := hl.line
  have hpreempted := hfinishes.preempted
  rw [← hrunning, ← hwaiting] at hline
  have hmoved := hl.moved
  rw [← hrunning, ← hnew] at hmoved
  by_cases hnone : l.preemptedReqs = []
  · rw [if_pos hnone] at hpreempted
    obtain ⟨admitted, hadmitted, hperm⟩ : ∃ admitted, s'.running = s.running ++ admitted ∧
        admitted.Perm (output.scheduledNewReqs.map (·.reqId)) := by
      rcases hmoved with ⟨hbefore, hsame⟩ | ⟨-, hsome⟩
      · rw [hnone, List.reverse_nil, List.append_nil] at hsame
        exact ⟨[], by rw [hsame, List.append_nil], by rw [hbefore]⟩
      · exact hsome
    rw [hadmitted, List.append_assoc] at hline
    exact .admits admitted hadmitted (List.append_cancel_left hline).symm hperm hpreempted
  · rw [if_neg hnone] at hpreempted
    rcases hmoved with ⟨hbefore, hsame⟩ | ⟨hempty, -⟩
    · rw [hsame, List.append_assoc] at hline
      exact .preempts l.preemptedReqs hsame (List.append_cancel_left hline)
        (List.map_eq_nil_iff.mp hbefore) hpreempted
    · exact absurd hempty hnone

omit [DecidableEq H] in
/-- The line is the same before and after. -/
theorem Moves.line_eq {s s' : Scheduler H} {output : SchedulerOutput} (h : Moves s output s') :
    s'.running ++ s'.waiting.items = s.running ++ s.waiting.items := by
  cases h with
  | admits admitted hrunning hwaiting hnew hpreempted =>
      rw [hrunning, hwaiting, List.append_assoc]
  | preempts victims hrunning hwaiting hnew hpreempted =>
      rw [hrunning, hwaiting, List.append_assoc]

/-! ### Over a run -/

/-- The running and then the waiting requests stand in the line of arrivals. -/
abbrev InLine (events : List Event) (s : Scheduler H) : Prop :=
  Arrived (arrivals events) s.requests (s.running ++ s.waiting.items)

theorem Settled.line_nodup {s : Scheduler H} (h : s.Settled) :
    (s.running ++ s.waiting.items).Nodup := by
  have hnodup := h.partition.nodup_append
  rwa [h.queued_eq] at hnodup

theorem filter_ne_of_not_mem {l : List RequestId} {r : RequestId} (h : r ∉ l) :
    l.filter (· ≠ r) = l := by
  rw [List.filter_eq_self]
  intro r' hr'
  simp only [ne_eq, decide_not, Bool.not_eq_eq_eq_not, Bool.not_true, decide_eq_false_iff_not]
  rintro rfl
  exact h hr'

theorem erase_eq_filter_ne {l : List RequestId} (h : l.Nodup) (r : RequestId) :
    l.erase r = l.filter (· ≠ r) := by
  rw [h.erase_eq_filter]
  exact List.filter_congr fun r' _ => by rw [Bool.eq_iff_iff]; simp

theorem finishOne_arrived {s s' : Scheduler H} {finishedStatus : RequestStatus} {r : RequestId}
    {arrived : List RequestId} (hsettled : s.Settled)
    (hok : s.finishOne finishedStatus r = .ok s')
    (h : Arrived arrived s.requests (s.running ++ s.waiting.items)) :
    Arrived arrived s'.requests (s'.running ++ s'.waiting.items) := by
  rcases finishOne_ok hok with ⟨-, rfl⟩ |
    ⟨hknown, running, waiting, kv, connector, cache, hplace, -, -, rfl⟩
  · exact h
  have hdrop := h.drop (r := r) hsettled.partition.nodup
  have hdisjoint := List.nodup_append.mp hsettled.line_nodup
  have hline : running ++ waiting.items = (s.running ++ s.waiting.items).filter (· ≠ r) := by
    rw [List.filter_append]
    rcases hplace with ⟨-, hmem, rfl, rfl⟩ | ⟨hstatus, rfl, hremove⟩
    · have hnot : r ∉ s.waiting.items := fun hwait => hdisjoint.2.2 r hmem r hwait rfl
      rw [filter_ne_of_not_mem hnot, erase_eq_filter_ne hdisjoint.1]
    · have hnot : r ∉ s.running := fun hmem => hstatus (hsettled.partition.status r hmem)
      rw [filter_ne_of_not_mem hnot, RequestQueue.removeRequest_eq_ok hdisjoint.2.1 hremove,
        erase_eq_filter_ne hdisjoint.2.1]
  show Arrived arrived (s.requests.erase r) (running ++ waiting.items)
  rw [hline]
  exact hdrop

theorem updateFromOutput_arrived {s s' : Scheduler H} {schedulerOutput : SchedulerOutput}
    {modelRunnerOutput : ModelRunnerOutput} {outputs : Dict ℕ (List EngineCoreOutput)}
    {arrived : List RequestId} (hsettled : s.Settled)
    (hok : s.updateFromOutput schedulerOutput modelRunnerOutput = .ok (outputs, s'))
    (h : Arrived arrived s.requests (s.running ++ s.waiting.items)) :
    Arrived arrived s'.requests (s'.running ++ s'.waiting.items) := by
  obtain ⟨u, s₁, hall, hshed, -, rfl⟩ := updateFromOutput_ok hok
  obtain ⟨-, heq⟩ := shedAll_ok (P := fun _ => True) hshed trivial fun _ _ _ _ _ _ => trivial
  have hline : (UpdateSettled u [] ∧ u.scheduler.waiting.items = s.waiting.items) ∧
      Arrived arrived u.scheduler.requests (u.stillRunning ++ [] ++ s.waiting.items) := by
    refine UpdateState.updateAll_invariant (P := fun u rest => (UpdateSettled u rest ∧
        u.scheduler.waiting.items = s.waiting.items) ∧
      Arrived arrived u.scheduler.requests (u.stillRunning ++ rest ++ s.waiting.items)) hall
      ⟨⟨⟨hsettled.partition, hsettled.skipped⟩, rfl⟩, h⟩ ?_
    intro u u' r rest hone ⟨⟨hu, hwaiting⟩, hline⟩
    have hsettled' := hu.step hone
    cases hone with
    | skip hscheduled =>
        refine ⟨⟨hsettled', hwaiting⟩, ?_⟩
        rwa [List.append_assoc u.stillRunning, List.singleton_append]
    | goOn hscheduled hfolds hkept hpooled houtputs =>
        refine ⟨⟨hsettled', hwaiting⟩, ?_⟩
        rwa [List.append_assoc u.stillRunning, List.singleton_append]
    | stop hscheduled hfolds hkept houtput hfree hconnector =>
        refine ⟨⟨hsettled', hwaiting⟩, ?_⟩
        have hnodup : (u.stillRunning ++ r :: rest ++ s.waiting.items).Nodup := by
          have hboth := hu.partition.nodup_append
          rwa [queued, hu.skipped, List.append_nil, hwaiting] at hboth
        have hdropped : (u.stillRunning ++ r :: rest ++ s.waiting.items).filter (· ≠ r) =
            u.stillRunning ++ rest ++ s.waiting.items := by
          rw [← erase_eq_filter_ne hnodup, List.append_assoc, List.append_assoc,
            List.erase_append_right _ ?_, List.cons_append, List.erase_cons_head]
          rw [List.append_assoc, List.nodup_append] at hnodup
          exact fun hmem => hnodup.2.2 r hmem r (by simp) rfl
        have hdrop := hline.drop (r := r) hu.partition.nodup
        rwa [hdropped] at hdrop
  obtain ⟨⟨-, hwaiting⟩, hline⟩ := hline
  rw [List.append_nil, ← hwaiting] at hline
  rw [heq]
  exact hline

theorem Step.inLine {s s' : Scheduler H} {event : Event} {events : List Event}
    (hstep : Step s event s') (hsettled : s.Settled) (hplain : s.AllPlain) (hpolicy : s.Policied)
    (hfcfs : s.config.policy = .fcfs) (h : InLine events s) : InLine (events ++ [event]) s' := by
  rw [InLine, arrivals_snoc]
  cases hstep with
  | @addRequest args request hrequest hfresh =>
      obtain ⟨hid, -⟩ := Request.init_ok hrequest
      rw [addRequest_eq, hid]
      have hinsert : EncoderCacheManager.insertNew s.requests args.requestId =
          s.requests ++ [args.requestId] := if_neg hfresh
      rw [hinsert, RequestQueue.addRequest, hpolicy.waiting.trans hfcfs]
      show Arrived _ _ (s.running ++ (s.waiting.items ++ [args.requestId]))
      rw [← List.append_assoc]
      exact Arrived.add h hfresh
  | finishRequests hok =>
      obtain ⟨hfinished, hall⟩ := finishRequests_ok hok
      exact (finishAll_invariant (P := fun s => s.Settled ∧
        Arrived (arrivals events) s.requests (s.running ++ s.waiting.items)) hall ⟨hsettled, h⟩
        fun _ _ _ _ hone hs => ⟨hs.1.finishOne hfinished hone, finishOne_arrived hs.1 hone hs.2⟩).2
  | schedule hok =>
      have hrequests : s'.requests = s.requests := by
        obtain ⟨l, hloops, -, hfinishes⟩ := schedule_ok hok
        rw [hfinishes.state, StepState.restoreSkippedWaiting_frame]
        exact hloops.static.2.1
      rw [(schedule_moves hsettled hplain hpolicy hfcfs hok).line_eq, hrequests]
      exact h
  | updateFromOutput hok => exact updateFromOutput_arrived hsettled hok h
  | resetPrefixCache => exact h
  | grammar hcompiling => exact h
  | sharedStore hconnector => exact h

/-- First come, first served: the line of a state, and the moves of a call. -/
structure Served (events : List Event) (s : Scheduler H) : Prop where
  line : s.running ++ s.waiting.items = (arrivals events).filter (· ∈ s.requests)
  moves : ∀ output s', s.schedule = .ok (output, s') → Moves s output s'

/-- Over every run of plain requests under `fcfs`, nobody is overtaken. -/
theorem run_served {config : SchedulerConfig} {kvCacheConfig : KVCacheConfig}
    {enableCaching : Bool} {hashFn : HashInput H → H} {seed : ℕ}
    {connector : Option (SimSharedStoreConnector H)} {s₀ s : Scheduler H} {events : List Event}
    (hfcfs : config.policy = .fcfs)
    (hinit : init config kvCacheConfig enableCaching hashFn seed connector = .ok s₀)
    (hrun : Run Step s₀ events s) (hplain : PlainEvents events) : Served events s := by
  obtain ⟨hsettled, hrequests, -⟩ := init_settled hinit
  obtain ⟨hpolicy, rfl⟩ := init_policied hinit
  have hline : InLine events s := by
    refine hrun.invariant (P := fun events s => PlainEvents events → InLine events s) ?_ ?_ hplain
    · intro _
      have hnone : s₀.running ++ s₀.waiting.items = [] := by
        have hperm := hsettled.partition.perm
        rw [hrequests, hsettled.queued_eq] at hperm
        exact hperm.symm.eq_nil
      rw [InLine, Arrived, hnone]
      rfl
    · intro events s event s' hrun ih hstep hplain
      have hbefore : PlainEvents events := fun args hmem =>
        hplain args (List.mem_append_left _ hmem)
      obtain ⟨hpolicied, hconfig⟩ := run_policied hrun hpolicy
      exact hstep.inLine (run_settled hrun hsettled) (run_plain hrun hrequests hbefore) hpolicied
        (hconfig ▸ hfcfs) (ih hbefore)
  refine ⟨hline, fun output s' hok => ?_⟩
  obtain ⟨hpolicied, hconfig⟩ := run_policied hrun hpolicy
  exact schedule_moves (run_settled hrun hsettled) (run_plain hrun hrequests hplain) hpolicied
    (hconfig ▸ hfcfs) hok

def lineRun : Except PyError (Scheduler Digest × Scheduler Digest × Request Digest ×
    Request Digest × SchedulerOutput) := do
  let s₀ ← init (shortConfig .fcfs) (shortKVConfig 8) true Digest.hash 0 none
  let first ← Request.init (.text 7 [1, 2, 3] 8)
  let second ← Request.init (.text 5 [1, 2, 3, 4] 8)
  let (output, s₁) ← ((s₀.addRequest first).addRequest second).schedule
  let s₂ ← s₁.finishRequests [7] .finishedAborted
  return (s₁, s₂, first, second, output)

/-- The line, on a run with two requests. -/
theorem run_served_line : ∃ (s : Scheduler Digest) (events : List Event),
    events.length = 4 ∧ Served events s ∧ s.running = [5] := by
  obtain ⟨⟨s₁, s₂, first, second, output⟩, hrun, hcheck⟩ :=
    exists_of_okAnd (x := lineRun) (p := fun (_, s₂, _, _, _) => decide (s₂.running = [5]))
      (by decide +kernel)
  unfold lineRun at hrun
  obtain ⟨s₀, hinit, hrun⟩ := except_bind_iff.mp hrun
  obtain ⟨_, hfirst, hrun⟩ := except_bind_iff.mp hrun
  obtain ⟨_, hsecond, hrun⟩ := except_bind_iff.mp hrun
  obtain ⟨⟨_, _⟩, hschedule, hrun⟩ := except_bind_iff.mp hrun
  obtain ⟨_, hfinish, hrun⟩ := except_bind_iff.mp hrun
  cases hrun
  obtain ⟨-, hnone, -⟩ := init_settled hinit
  have hfresh₁ : (RequestArgs.text 7 [1, 2, 3] 8).requestId ∉ s₀.requests := by
    rw [hnone]
    exact List.not_mem_nil
  have hfresh₂ : (RequestArgs.text 5 [1, 2, 3, 4] 8).requestId ∉
      (s₀.addRequest first).requests := by
    rw [addRequest_eq, hnone, (Request.init_ok hfirst).1]
    show (5 : ℕ) ∉ EncoderCacheManager.insertNew [] 7
    decide
  have hsteps := (((Run.nil.snoc (Step.addRequest hfirst hfresh₁)).snoc
    (Step.addRequest hsecond hfresh₂)).snoc (Step.schedule hschedule)).snoc
    (Step.finishRequests hfinish)
  refine ⟨s₂, _, rfl, run_served rfl hinit hsteps fun args hmem => ?_, of_decide_eq_true hcheck⟩
  simp only [List.nil_append, List.cons_append, List.mem_cons, Event.addRequest.injEq,
    reduceCtorEq, List.not_mem_nil, or_false] at hmem
  rcases hmem with rfl | rfl
  · exact ⟨rfl, rfl, rfl⟩
  · exact ⟨rfl, rfl, rfl⟩

end Scheduler

end Pvllm
