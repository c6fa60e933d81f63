import Pvllm.Engine.EncoderAgreement
import Pvllm.Engine.Stepping
import Pvllm.Engine.StopStrings
import Pvllm.Library.LabelledRun

/-!
The engine's clock, and the times the two front ends take a step to be at.

The clock moves only by the durations a step is modelled to take: to load the keys and
values of the step, to execute it, and to save what it computed. The core stamps the
arrival of a request, its admissions and the end of each step. The front ends read
`clock_time` once a step: `LLMEngine` after the step, `AsyncLLM` before it awaits the step.

Both talk to one engine in their own process here, by `InprocClient`, whose `clock_time` is
the engine's clock. (An `MPClient` says the time of the last frame it has read, and a
`DPInprocClient` that of the replica that is the furthest.) In process the two agree, and
every time of theirs is the end of its step, exactly when the steps that have outputs take no
time.
-/

namespace Pvllm

open Frontend (EngineCoreEvent EngineCoreEventType Call Session Detokenizing)

/-! ### The core and its clock -/

/-- What one client is told of a step, with the events of its requests, and when the step
ended. -/
structure EngineCoreOutputs where
  engineIndex : ℕ
  outputs : List (EngineCoreOutput × List EngineCoreEvent)
  timestamp : ℚ

/-- An engine core that owns a clock, with the events recorded of its requests. -/
structure TimedCore (H : Type) extends ServingCore H where
  clock : ℚ
  logStats : Bool
  events : RequestId → List EngineCoreEvent

namespace TimedCore

variable {H : Type} (core : TimedCore H)

/-- `record_event`, at the engine's time. -/
def recordEvent (type : EngineCoreEventType) (r : RequestId) : TimedCore H :=
  { core with events := Function.update core.events r (core.events r ++ [⟨type, core.clock⟩]) }

def advance (duration : ℚ) : TimedCore H := { core with clock := core.clock + duration }

/-- Date this step's admissions, which the scheduler has collected. -/
def dateAdmissions : TimedCore H :=
  let dated := core.scheduler.pendingScheduled.foldl (fun core r => core.recordEvent .scheduled r)
    core
  { dated with scheduler := { core.scheduler with pendingScheduled := [] } }

variable [DecidableEq H]

/-- Admit a request, which is a new one with no events, stamping its arrival. -/
def addRequest (args : RequestArgs) : Except PyError (TimedCore H) :=
  match core.toServingCore.addRequest args with
  | .error e => .error e
  | .ok serving =>
    let core := { core with
      toServingCore := serving
      events := Function.update core.events args.requestId [] }
    .ok (if core.logStats then core.recordEvent .queued args.requestId else core)

def abortRequests (requestIds : List RequestId) : Except PyError (TimedCore H) :=
  match core.toServingCore.abortRequests requestIds with
  | .error e => .error e
  | .ok serving => .ok { core with toServingCore := serving }

def planStep (loading : ℚ) : Except PyError (SchedulerOutput × TimedCore H) :=
  match core.toServingCore.planStep with
  | .error e => .error e
  | .ok (output, serving) =>
    .ok (output, (dateAdmissions { core with toServingCore := serving }).advance loading)

/-- The outputs of the step with the events their requests have, and after them those of the
requests whose grammar failed. -/
def attach (told merged : Dict ℕ (List EngineCoreOutput)) (clientIndex : ℕ) :
    List (EngineCoreOutput × List EngineCoreEvent) :=
  let own := told.findD clientIndex []
  own.map (fun output => (output, core.events output.requestId)) ++
    ((merged.findD clientIndex []).drop own.length).map (·, [])

/-- The requests of these outputs have no events any more. -/
def takeEvents (told : Dict ℕ (List EngineCoreOutput)) : RequestId → List EngineCoreEvent :=
  fun r => if (told.items.flatMap (·.2)).any (·.requestId = r) then [] else core.events r

/-- The second half of a step: it is executed, its results are folded back and saved, and its
end is stamped. -/
def finishStep (output : SchedulerOutput) (batch : Option InputBatch)
    (draws : RequestId → List Bool) (executing saving : ℚ) :
    Except PyError (List EngineCoreOutputs × TimedCore H) :=
  let core := core.advance executing
  match core.toEngineCore.finishStep output batch draws with
  | .error e => .error e
  | .ok (_, told, engine) =>
    let core := core.advance saving
    match ServingCore.finishGrammarFailures engine.scheduler told with
    | .error e => .error e
    | .ok (merged, s) =>
      .ok (merged.keys.map fun clientIndex =>
          ⟨clientIndex, core.attach told merged clientIndex, core.clock⟩,
        { core with
          toEngineCore := { engine with scheduler := s }
          events := core.takeEvents told })

/-! ### What each call does to the clock and to the events -/

variable {core} {core' : TimedCore H}

omit [DecidableEq H] in
theorem mem_recordEvent {type : EngineCoreEventType} {r r' : RequestId} {event : EngineCoreEvent}
    (h : event ∈ (core.recordEvent type r).events r') :
    event ∈ core.events r' ∨ event.timestamp = core.clock := by
  unfold recordEvent at h
  dsimp only at h
  by_cases heq : r' = r
  · subst heq
    rw [Function.update_self] at h
    rcases List.mem_append.mp h with hold | hnew
    · exact Or.inl hold
    · rw [List.mem_singleton.mp hnew]
      exact Or.inr rfl
  · rw [Function.update_of_ne heq] at h
    exact Or.inl h

omit [DecidableEq H] in
theorem foldl_recordEvent (type : EngineCoreEventType) (pending : List RequestId)
    (core : TimedCore H) :
    let dated := pending.foldl (fun core r => core.recordEvent type r) core
    dated.clock = core.clock ∧ dated.planned = core.planned ∧ ∀ r, ∀ event ∈ dated.events r,
      event ∈ core.events r ∨ event.timestamp = core.clock := by
  induction pending generalizing core with
  | nil => exact ⟨rfl, rfl, fun r event hevent => Or.inl hevent⟩
  | cons r rest ih =>
      obtain ⟨hclock, hplanned, hevents⟩ := ih (core.recordEvent type r)
      refine ⟨hclock, hplanned, fun r' event hevent => ?_⟩
      rcases hevents r' event hevent with hold | hnew
      · exact mem_recordEvent hold
      · exact Or.inr hnew

/-- A call between two steps: the clock stands, and what is recorded has its time. -/
structure Idle (core core' : TimedCore H) : Prop where
  clock : core'.clock = core.clock
  planned : core'.planned = core.planned
  events : ∀ r, ∀ event ∈ core'.events r, event ∈ core.events r ∨ event.timestamp = core.clock

omit [DecidableEq H] in
theorem addRequest_idle {args : RequestArgs} (h : core.addRequest args = .ok core') :
    core.Idle core' := by
  unfold addRequest at h
  split at h
  · cases h
  rename_i serving hserving
  have hplanned : serving.planned = core.planned := by
    unfold ServingCore.addRequest at hserving
    split at hserving
    · cases hserving
    · split at hserving
      · cases hserving
      · cases hserving
        rfl
  have hevents : ∀ r, ∀ event ∈ Function.update core.events args.requestId [] r,
      event ∈ core.events r ∨ event.timestamp = core.clock := by
    intro r event hevent
    by_cases heq : r = args.requestId
    · subst heq
      rw [Function.update_self] at hevent
      exact absurd hevent List.not_mem_nil
    · rw [Function.update_of_ne heq] at hevent
      exact Or.inl hevent
  dsimp only at h
  split at h
  · obtain rfl := Except.ok.inj h
    refine ⟨rfl, hplanned, fun r event hevent => ?_⟩
    rcases mem_recordEvent hevent with hold | hnew
    · exact hevents r event hold
    · exact Or.inr hnew
  · obtain rfl := Except.ok.inj h
    exact ⟨rfl, hplanned, hevents⟩

theorem abortRequests_idle {requestIds : List RequestId}
    (h : core.abortRequests requestIds = .ok core') : core.Idle core' := by
  unfold abortRequests at h
  split at h
  · cases h
  rename_i serving hserving
  obtain rfl := Except.ok.inj h
  refine ⟨rfl, ?_, fun r event hevent => Or.inl hevent⟩
  unfold ServingCore.abortRequests at hserving
  dsimp only at hserving
  split at hserving
  · cases hserving
  · cases hserving
    rfl

omit [DecidableEq H] in
theorem compileGrammar_idle (r : RequestId) (result : Grammar) :
    core.Idle { core with toServingCore := core.toServingCore.compileGrammar r result } := by
  refine ⟨rfl, ?_, fun r event hevent => Or.inl hevent⟩
  show (core.toServingCore.compileGrammar r result).planned = core.planned
  unfold ServingCore.compileGrammar
  split <;> rfl

/-- Planning takes the time of the loads; the admissions are stamped before that. -/
theorem planStep_ok {loading : ℚ} {output : SchedulerOutput}
    (h : core.planStep loading = .ok (output, core')) :
    core'.clock = core.clock + loading ∧ (∃ batch, core'.planned = some (output, batch)) ∧
      ∀ r, ∀ event ∈ core'.events r, event ∈ core.events r ∨ event.timestamp = core.clock := by
  unfold planStep at h
  split at h
  · cases h
  rename_i told serving hserving
  obtain ⟨rfl, rfl⟩ := Prod.mk.inj (Except.ok.inj h)
  obtain ⟨hclock, hplanned, hevents⟩ := foldl_recordEvent .scheduled
    serving.scheduler.pendingScheduled { core with toServingCore := serving }
  refine ⟨congrArg (· + loading) hclock, ?_, hevents⟩
  unfold ServingCore.planStep at hserving
  split at hserving
  · cases hserving
  rename_i hengine
  cases hserving
  obtain ⟨-, batch, -, hbatch⟩ := EngineCore.planStep_ok hengine
  exact ⟨batch, hplanned.trans hbatch⟩

/-- Finishing takes the time of the execution and of the saves. Each client is told the time
it ends at, and only events recorded before. -/
theorem finishStep_ok {output : SchedulerOutput} {batch : Option InputBatch}
    {draws : RequestId → List Bool} {executing saving : ℚ} {outputs : List EngineCoreOutputs}
    (h : core.finishStep output batch draws executing saving = .ok (outputs, core')) :
    core'.clock = core.clock + executing + saving ∧ core'.planned = none ∧
      (∀ r, ∀ event ∈ core'.events r, event ∈ core.events r) ∧
      ∀ client ∈ outputs, client.timestamp = core'.clock ∧ ∀ told ∈ client.outputs,
        ∀ event ∈ told.2, event ∈ core.events told.1.requestId := by
  unfold finishStep at h
  dsimp only at h
  split at h
  · cases h
  rename_i told engine hengine
  split at h
  · cases h
  rename_i merged s hmerged
  obtain ⟨rfl, rfl⟩ := Prod.mk.inj (Except.ok.inj h)
  refine ⟨rfl, (EngineCore.finishStep_ok hengine).2.2, fun r event hevent => ?_,
    List.forall_mem_map.mpr fun clientIndex hclient => ⟨rfl, ?_⟩⟩
  · unfold takeEvents at hevent
    dsimp only at hevent
    split at hevent
    · exact absurd hevent List.not_mem_nil
    · exact hevent
  · intro output houtput event hevent
    rcases List.mem_append.mp houtput with hown | hfailed
    · obtain ⟨own, -, rfl⟩ := List.mem_map.mp hown
      exact hevent
    · obtain ⟨failed, -, rfl⟩ := List.mem_map.mp hfailed
      exact absurd hevent List.not_mem_nil

end TimedCore

/-! ### The front ends -/

/-- An output as the front end receives it, its request by the name it has there. -/
def EngineCoreOutput.named (name : RequestId → Text) (events : List EngineCoreEvent)
    (output : EngineCoreOutput) : Frontend.EngineCoreOutput where
  requestId := name output.requestId
  newTokenIds := output.newTokenIds
  finishReason := output.finishReason
  stopReason := output.stopReason.map .token
  events := events
  numCachedTokens := output.numCachedTokens
  poolingOutput := output.poolingOutput

/-- A step as a front end goes through it: the `clock_time` of its `InprocClient` before the step
is awaited and after it, how long it takes, and what it returns. -/
structure StepRecord where
  before : ℚ
  after : ℚ
  duration : ℚ
  outputs : List EngineCoreOutputs

namespace StepRecord

variable (name : RequestId → Text) (record : StepRecord)

/-- What `AsyncLLM` on an `InprocClient` takes the time of the step to be. -/
def asyncNow : ℚ := record.before

/-- What `LLMEngine` on an `InprocClient` takes the time of the step to be. -/
def syncNow : ℚ := record.after

/-- Its outputs go through `process_outputs`, client by client. -/
def calls (now : ℚ) : List Call :=
  record.outputs.flatMap fun client =>
    client.outputs.map fun output => .processOutput now (output.1.named name output.2)

end StepRecord

/-- What happens in a front end: a call on its output processor, or a step. -/
inductive LogEntry where
  | call (call : Call)
  | step (record : StepRecord)

namespace LogEntry

def record : LogEntry → Option StepRecord
  | .call _ => none
  | .step record => some record

def calls (name : RequestId → Text) (now : StepRecord → ℚ) : LogEntry → List Call
  | .call made => [made]
  | .step record => record.calls name (now record)

end LogEntry

def records (log : List LogEntry) : List StepRecord := log.filterMap (·.record)

def callsOf (name : RequestId → Text) (now : StepRecord → ℚ) (log : List LogEntry) : List Call :=
  log.flatMap (·.calls name now)

/-- The calls a front end makes outside of its steps: those that say when a request arrived say
what the engine's clock says. -/
def CallAt (clock : ℚ) : Call → Prop
  | .addRequest _ _ _ _ arrivalTime => arrivalTime = clock
  | .addChild _ _ _ _ arrivalTime => arrivalTime = clock
  | .processOutput _ _ => False
  | _ => True

/-- A front end on an engine core of its own process: the step it is in has been read the clock
for, and has taken some time. -/
structure TimedSystem (H : Type) where
  core : TimedCore H
  before : ℚ
  spent : ℚ
  log : List LogEntry

namespace TimedSystem

variable {H : Type} [DecidableEq H]

/-- A step of the system. Between the halves of a step an event loop goes on to other calls. -/
inductive Step : TimedSystem H → Unit → TimedSystem H → Prop
  | addRequest {sys : TimedSystem H} {args : RequestArgs} {core : TimedCore H}
      (hok : sys.core.addRequest args = .ok core) : Step sys () { sys with core := core }
  | abortRequests {sys : TimedSystem H} {requestIds : List RequestId} {core : TimedCore H}
      (hok : sys.core.abortRequests requestIds = .ok core) : Step sys () { sys with core := core }
  | compileGrammar {sys : TimedSystem H} (r : RequestId) (result : Grammar) :
      Step sys () { sys with core := { sys.core with
        toServingCore := sys.core.toServingCore.compileGrammar r result } }
  | call {sys : TimedSystem H} {call : Call} (hcall : CallAt sys.core.clock call) :
      Step sys () { sys with log := sys.log ++ [.call call] }
  | planStep {sys : TimedSystem H} {loading : ℚ} {output : SchedulerOutput} {core : TimedCore H}
      (hidle : sys.core.planned = none) (hwork : sys.core.scheduler.hasRequests = true)
      (hloading : 0 ≤ loading) (hok : sys.core.planStep loading = .ok (output, core)) :
      Step sys () { sys with core := core, before := sys.core.clock, spent := loading }
  | finishStep {sys : TimedSystem H} {output : SchedulerOutput} {batch : Option InputBatch}
      {draws : RequestId → List Bool} {executing saving : ℚ} {outputs : List EngineCoreOutputs}
      {core : TimedCore H} (hplanned : sys.core.planned = some (output, batch))
      (hexecuting : 0 ≤ executing) (hsaving : 0 ≤ saving)
      (hok : sys.core.finishStep output batch draws executing saving = .ok (outputs, core)) :
      Step sys () { sys with
        core := core
        log := sys.log ++
          [.step ⟨sys.before, core.clock, sys.spent + executing + saving, outputs⟩] }

def start (core : ServingCore H) (clock : ℚ) (logStats : Bool) : TimedSystem H where
  core := { core with clock := clock, logStats := logStats, events := fun _ => [] }
  before := clock
  spent := 0
  log := []

end TimedSystem

/-- The times the front ends take the steps to be at are right: each is the end of its step, so
that both front ends record the same of every request, and none is before an event that comes
with it. -/
structure TimesRight (name : RequestId → Text) (log : List LogEntry) : Prop where
  ends : ∀ record ∈ records log, ∀ client ∈ record.outputs,
    record.asyncNow = client.timestamp ∧ record.syncNow = client.timestamp
  same : ∀ (σ : Type) (detokenizing : Detokenizing σ) (session : Session σ),
    session.run detokenizing (callsOf name StepRecord.asyncNow log) =
      session.run detokenizing (callsOf name StepRecord.syncNow log)
  events : ∀ record ∈ records log, ∀ client ∈ record.outputs, ∀ output ∈ client.outputs,
    ∀ event ∈ output.2, event.timestamp ≤ record.asyncNow ∧ event.timestamp ≤ record.syncNow

/-! ### What holds of the clock -/

theorem records_append (log log' : List LogEntry) :
    records (log ++ log') = records log ++ records log' := List.filterMap_append ..

/-- A record: its step ends when the core says it does, and its events are from before. -/
structure StepRecord.Dated (record : StepRecord) : Prop where
  after : record.after = record.before + record.duration
  ends : ∀ client ∈ record.outputs, client.timestamp = record.after
  events : ∀ client ∈ record.outputs, ∀ output ∈ client.outputs, ∀ event ∈ output.2,
    event.timestamp ≤ record.after

namespace TimedSystem

variable {H : Type}

/-- No event is from a time to come; a step in progress has taken the time that has passed; and
every record is dated. -/
structure Clocked (sys : TimedSystem H) : Prop where
  events : ∀ r, ∀ event ∈ sys.core.events r, event.timestamp ≤ sys.core.clock
  planned : sys.core.planned.isSome = true → sys.core.clock = sys.before + sys.spent
  records : ∀ record ∈ records sys.log, record.Dated

variable {sys sys' : TimedSystem H} {core : TimedCore H}

theorem Clocked.idle (h : sys.Clocked) (hidle : sys.core.Idle core) :
    Clocked { sys with core := core } where
  events r event hevent := by
    rw [hidle.clock]
    rcases hidle.events r event hevent with hold | hnew
    · exact h.events r event hold
    · exact hnew.le
  planned hplanned := by
    rw [hidle.clock]
    exact h.planned (hidle.planned ▸ hplanned)
  records := h.records

variable [DecidableEq H]

theorem Clocked.step (h : sys.Clocked) {label : Unit} (hstep : Step sys label sys') :
    sys'.Clocked := by
  cases hstep with
  | addRequest hok => exact h.idle (TimedCore.addRequest_idle hok)
  | abortRequests hok => exact h.idle (TimedCore.abortRequests_idle hok)
  | compileGrammar r result => exact h.idle (TimedCore.compileGrammar_idle r result)
  | call hcall =>
      refine ⟨h.events, h.planned, fun record hrecord => h.records record ?_⟩
      rw [records_append] at hrecord
      exact (List.mem_append.mp hrecord).resolve_right List.not_mem_nil
  | planStep hidle hwork hloading hok =>
      obtain ⟨hclock, -, hevents⟩ := TimedCore.planStep_ok hok
      refine ⟨fun r event hevent => ?_, fun _ => hclock, h.records⟩
      show event.timestamp ≤ _
      rw [hclock]
      rcases hevents r event hevent with hold | hnew
      · exact (h.events r event hold).trans (le_add_of_nonneg_right hloading)
      · exact hnew.le.trans (le_add_of_nonneg_right hloading)
  | @finishStep output batch draws executing saving outputs core hplanned hexecuting hsaving
      hok =>
      obtain ⟨hclock, hnone, hevents, hclients⟩ := TimedCore.finishStep_ok hok
      have hbegun := h.planned (hplanned ▸ rfl)
      have hle : sys.core.clock ≤ core.clock := by
        rw [hclock, add_assoc]
        exact le_add_of_nonneg_right (add_nonneg hexecuting hsaving)
      refine ⟨fun r event hevent => (h.events r event (hevents r event hevent)).trans hle,
        fun hsome => ?_, fun record hrecord => ?_⟩
      · rw [show core.planned = none from hnone] at hsome
        cases hsome
      · rw [records_append] at hrecord
        rcases List.mem_append.mp hrecord with hold | hnew
        · exact h.records record hold
        · obtain rfl := List.mem_singleton.mp hnew
          refine ⟨?_, fun client hclient => (hclients client hclient).1,
            fun client hclient output houtput event hevent => ?_⟩
          · show core.clock = _
            rw [hclock, hbegun]
            simp only [add_assoc]
          · exact (h.events _ event ((hclients client hclient).2 output houtput event hevent)).trans
              hle

theorem Clocked.run {labels : List Unit} (h : sys.Clocked) (hrun : Run Step sys labels sys') :
    sys'.Clocked := by
  induction hrun with
  | nil => exact h
  | snoc _ hstep ih => exact ih.step hstep

omit [DecidableEq H] in
theorem clocked_start {core : ServingCore H} (hidle : core.planned = none) (clock : ℚ)
    (logStats : Bool) : (start core clock logStats).Clocked where
  events r event hevent := absurd hevent List.not_mem_nil
  planned hsome := by
    rw [show (start core clock logStats).core.planned = none from hidle] at hsome
    cases hsome
  records record hrecord := absurd hrecord List.not_mem_nil

end TimedSystem

/-! ### The two front ends -/

/-- `LLMEngine` is right about every step. -/
theorem StepRecord.Dated.sync {record : StepRecord} (h : record.Dated) :
    (∀ client ∈ record.outputs, record.syncNow = client.timestamp) ∧
      ∀ client ∈ record.outputs, ∀ output ∈ client.outputs, ∀ event ∈ output.2,
        event.timestamp ≤ record.syncNow :=
  ⟨fun client hclient => (h.ends client hclient).symm, h.events⟩

/-- `AsyncLLM` is early by as long as the step takes. -/
theorem StepRecord.Dated.async {record : StepRecord} (h : record.Dated)
    {client : EngineCoreOutputs} (hclient : client ∈ record.outputs) :
    client.timestamp = record.asyncNow + record.duration :=
  (h.ends client hclient).trans h.after

theorem callsOf_congr (name : RequestId → Text) {log : List LogEntry}
    (h : ∀ record ∈ records log, record.outputs ≠ [] → record.asyncNow = record.syncNow) :
    callsOf name StepRecord.asyncNow log = callsOf name StepRecord.syncNow log := by
  refine List.flatMap_congr fun entry hentry => ?_
  cases entry with
  | call made => rfl
  | step record =>
      have hrecord : record ∈ records log := List.mem_filterMap.mpr ⟨_, hentry, rfl⟩
      show record.calls name record.asyncNow = record.calls name record.syncNow
      by_cases hnone : record.outputs = []
      · unfold StepRecord.calls
        rw [hnone]
        rfl
      · rw [h record hrecord hnone]

/-- The times are right exactly when the steps that have outputs take no time. -/
theorem timesRight_iff_of_dated (name : RequestId → Text) {log : List LogEntry}
    (h : ∀ record ∈ records log, record.Dated) :
    TimesRight name log ↔ ∀ record ∈ records log, record.outputs ≠ [] → record.duration = 0 := by
  constructor
  · intro hright record hrecord hsome
    obtain ⟨client, hclient⟩ := List.exists_mem_of_ne_nil _ hsome
    have hasync := (h record hrecord).async hclient
    rw [(hright.ends record hrecord client hclient).1] at hasync
    exact left_eq_add.mp hasync
  · intro hinstant
    have hsame : ∀ record ∈ records log, record.outputs ≠ [] →
        record.asyncNow = record.syncNow := by
      intro record hrecord hsome
      show record.before = record.after
      rw [(h record hrecord).after, hinstant record hrecord hsome, add_zero]
    refine ⟨fun record hrecord client hclient => ?_, fun σ detokenizing session => ?_,
      fun record hrecord client hclient output houtput event hevent => ?_⟩
    · have hsync := (h record hrecord).sync.1 client hclient
      exact ⟨(hsame record hrecord (List.ne_nil_of_mem hclient)).trans hsync, hsync⟩
    · rw [callsOf_congr name hsame]
    · have hle := (h record hrecord).sync.2 client hclient output houtput event hevent
      exact ⟨(hsame record hrecord (List.ne_nil_of_mem hclient)).symm ▸ hle, hle⟩

/-- A core that has just been made is in no step. -/
theorem ServingCore.Started.planned {H : Type} {core : ServingCore H} (h : core.Started) :
    core.planned = none := by
  obtain ⟨config, kvCacheConfig, enableCaching, hashFn, seed, connector, simModel, numSpecTokens,
    debugInvariants, hinit⟩ := h
  unfold EngineCore.init at hinit
  split at hinit
  · cases hinit
  · exact (Except.ok.inj hinit) ▸ rfl

namespace TimedSystem

variable {H : Type} [DecidableEq H]

/-- In every run of an engine core the two front ends are right about its steps, and agree,
exactly when the steps that have outputs take no time. -/
theorem timesRight_iff (name : RequestId → Text) {core : ServingCore H} (hstarted : core.Started)
    (clock : ℚ) (logStats : Bool) {labels : List Unit} {sys : TimedSystem H}
    (hrun : Run Step (start core clock logStats) labels sys) :
    TimesRight name sys.log ↔
      ∀ record ∈ records sys.log, record.outputs ≠ [] → record.duration = 0 := by
  exact timesRight_iff_of_dated name
    ((clocked_start hstarted.planned clock logStats).run hrun).records

/-! ### A step -/

/-- A request for one token, and a step that takes this long to execute. -/
def oneStep (executing : ℚ) : Except PyError (ServingCore Digest × TimedCore Digest ×
    SchedulerOutput × TimedCore Digest × List EngineCoreOutputs × TimedCore Digest) := do
  let engine ← EngineCore.smallCore (Scheduler.shortConfig .fcfs) 8
  let core : ServingCore Digest := ⟨engine, ⟨"auto", false⟩⟩
  let core₁ ← (start core 10 true).core.addRequest (.text 1 [1, 2, 3, 4, 5] 1)
  let (output, core₂) ← core₁.planStep 0
  let (outputs, core₃) ← core₂.finishStep output ((core₂.planned.map Prod.snd).getD none)
    (fun _ => []) executing 0
  return (core, core₁, output, core₂, outputs, core₃)

def oneStepLog (executing : ℚ) (core₃ : TimedCore Digest) (outputs : List EngineCoreOutputs) :
    List LogEntry :=
  [.call (.addRequest ['r'] none [1, 2, 3, 4, 5]
      (.generate ⟨1, none, .delta, some 1, ⟨[], 0, false⟩⟩) 10),
    .step ⟨10, core₃.clock, 0 + executing + 0, outputs⟩]

theorem oneStep_run {executing : ℚ} (hexecuting : 0 ≤ executing) {core : ServingCore Digest}
    {core₁ core₂ core₃ : TimedCore Digest} {output : SchedulerOutput}
    {outputs : List EngineCoreOutputs}
    (h : oneStep executing = .ok (core, core₁, output, core₂, outputs, core₃))
    (hwork : core₁.scheduler.hasRequests = true) :
    core.Started ∧ ∃ labels sys, Run Step (start core 10 true) labels sys ∧
      sys.log = oneStepLog executing core₃ outputs := by
  unfold oneStep at h
  obtain ⟨engine, hengine, h⟩ := except_bind_iff.mp h
  dsimp only at h
  obtain ⟨core₁', hadd, h⟩ := except_bind_iff.mp h
  obtain ⟨⟨output', core₂'⟩, hplan, h⟩ := except_bind_iff.mp h
  dsimp only at h
  obtain ⟨⟨outputs', core₃'⟩, hfinish, h⟩ := except_bind_iff.mp h
  cases h
  have hstarted : (ServingCore.mk engine ⟨"auto", false⟩).Started :=
    ⟨_, _, _, _, _, _, _, _, _, hengine⟩
  have hidle := TimedCore.addRequest_idle hadd
  have hclock : core₁.clock = 10 := hidle.clock
  have hplanned : core₁.planned = none := hidle.planned.trans hstarted.planned
  obtain ⟨-, ⟨batch, hbatch⟩, -⟩ := TimedCore.planStep_ok hplan
  rw [hbatch] at hfinish
  have hadded : Run Step (start ⟨engine, ⟨"auto", false⟩⟩ 10 true) [()] _ :=
    Run.nil.snoc (.addRequest hadd)
  have hcalled := hadded.snoc (@Step.call _ _ _ (.addRequest ['r'] none [1, 2, 3, 4, 5]
    (.generate ⟨1, none, .delta, some 1, ⟨[], 0, false⟩⟩) 10) hclock.symm)
  have hbegun := hcalled.snoc (.planStep hplanned hwork le_rfl hplan)
  have hended := hbegun.snoc (.finishStep hbatch hexecuting le_rfl hfinish)
  refine ⟨hstarted, _, _, hended, ?_⟩
  show _ ++ [LogEntry.step ⟨core₁.clock, _, _, _⟩] = _
  rw [hclock]
  rfl

/-- In a step that takes no time the front ends agree. -/
theorem timesRight_iff_instant : ∃ (core : ServingCore Digest) (labels : List Unit)
    (sys : TimedSystem Digest), core.Started ∧ Run Step (start core 10 true) labels sys ∧
      (records sys.log).map (·.outputs.length) = [1] ∧ TimesRight (fun _ => ['r']) sys.log := by
  obtain ⟨⟨core, core₁, output, core₂, outputs, core₃⟩, hstep, hcheck⟩ :=
    exists_of_okAnd (x := oneStep 0) (p := fun (_, core₁, _, _, outputs, _) =>
      core₁.scheduler.hasRequests && decide (outputs.length = 1)) (by decide +kernel)
  obtain ⟨hwork, hlength⟩ := Bool.and_eq_true_iff.mp hcheck
  obtain ⟨hstarted, labels, sys, hrun, hlog⟩ := oneStep_run le_rfl hstep hwork
  refine ⟨core, labels, sys, hstarted, hrun, ?_,
    (timesRight_iff (fun _ => ['r']) hstarted 10 true hrun).mpr fun record hrecord _ => ?_⟩
  · rw [hlog]
    exact congrArg (fun n => [n]) (of_decide_eq_true hlength)
  · rw [hlog] at hrecord
    obtain rfl := List.mem_singleton.mp hrecord
    show (0 : ℚ) + 0 + 0 = 0
    rw [add_zero, add_zero]

/-- A step takes a second: `AsyncLLM` takes it to end when it begins, and its request to have had
to wait for no token. -/
theorem async_early : ∃ (core : ServingCore Digest) (labels : List Unit)
    (sys : TimedSystem Digest), core.Started ∧ Run Step (start core 10 true) labels sys ∧
      (records sys.log).map (fun record => (record.asyncNow, record.syncNow)) = [(10, 11)] ∧
      ((Session.init Unit).run (Frontend.spelling fun _ => ['a'])
        (callsOf (fun _ => ['r']) StepRecord.asyncNow sys.log)).stats.timeToFirstTokens = [0] ∧
      ((Session.init Unit).run (Frontend.spelling fun _ => ['a'])
        (callsOf (fun _ => ['r']) StepRecord.syncNow sys.log)).stats.timeToFirstTokens = [1] ∧
      ¬TimesRight (fun _ => ['r']) sys.log := by
  obtain ⟨⟨core, core₁, output, core₂, outputs, core₃⟩, hstep, hcheck⟩ :=
    exists_of_okAnd (x := oneStep 1) (p := fun (_, core₁, _, _, outputs, core₃) =>
      core₁.scheduler.hasRequests && decide (core₃.clock = 11) &&
      decide (((Session.init Unit).run (Frontend.spelling fun _ => ['a'])
        (callsOf (fun _ => ['r']) StepRecord.asyncNow
          (oneStepLog 1 core₃ outputs))).stats.timeToFirstTokens = [0]) &&
      decide (((Session.init Unit).run (Frontend.spelling fun _ => ['a'])
        (callsOf (fun _ => ['r']) StepRecord.syncNow
          (oneStepLog 1 core₃ outputs))).stats.timeToFirstTokens = [1])) (by decide +kernel)
  obtain ⟨hcheck, hsync⟩ := Bool.and_eq_true_iff.mp hcheck
  obtain ⟨hcheck, hasync⟩ := Bool.and_eq_true_iff.mp hcheck
  obtain ⟨hwork, hclock⟩ := Bool.and_eq_true_iff.mp hcheck
  obtain ⟨hstarted, labels, sys, hrun, hlog⟩ := oneStep_run zero_le_one hstep hwork
  have hrecorded := of_decide_eq_true hasync
  have hrecorded' := of_decide_eq_true hsync
  rw [← hlog] at hrecorded hrecorded'
  refine ⟨core, labels, sys, hstarted, hrun, ?_, hrecorded, hrecorded', fun hright => ?_⟩
  · rw [hlog]
    exact congrArg (fun time => [(10, time)]) (of_decide_eq_true hclock)
  · rw [hright.same, hrecorded'] at hrecorded
    cases hrecorded

end TimedSystem

end Pvllm
