import Pvllm.Core.Sched.Coverage
import Pvllm.Core.Sched.Progress
import Pvllm.Core.Sched.Published

/-!
What is in place when a request leaves.

A `Ledger` is the engine, with the positions of each request whose KV is in place:
those a hit brought, and those of the steps whose results are back. The count of a
request is ahead of it by the step in flight. As a request finishes, the connector
writes the blocks its count fills; `Early` is the end that comes while a step of the
request is in flight, where these are too many.
-/

namespace Pvllm

variable {H : Type} [DecidableEq H]

open UpdateState

/-! ### What a step computes -/

namespace SchedulerOutput

variable (output : SchedulerOutput) (modelRunnerOutput : ModelRunnerOutput) (r : RequestId)

/-- The drafts of a step that its results take back. -/
def rejectedDrafts : ℕ :=
  (output.scheduledSpecDecodeTokens.findD r []).length -
    ((generatedFor modelRunnerOutput r).length - 1)

/-- The positions before the span a request is sent. -/
def before : Set ℕ :=
  {position | ∃ start, (r, start) ∈ output.sentFrom ∧ position < start}

def computedBy : Set ℕ :=
  {position | ∃ start n, (r, start) ∈ output.sentFrom ∧
    output.numScheduledTokens.find r = some n ∧
    start ≤ position ∧ position < start + (n - output.rejectedDrafts modelRunnerOutput r)}

end SchedulerOutput

/-- The engine, and the positions of each request whose KV is in place. -/
structure Ledger (H : Type) where
  engine : Engine H
  inPlace : RequestId → Set ℕ

namespace Ledger

/-- What a step of the engine puts in place: an admission the hits of its request, the
results of a step what it computed. A preemption takes everything back. -/
def enter (l : Ledger H) (e : Engine H) : Event → Ledger H
  | .addRequest args => ⟨e, Function.update l.inPlace args.requestId ∅⟩
  | .schedule output => ⟨e, fun r =>
      if r ∈ e.scheduler.running then
        if r ∈ l.engine.scheduler.running then l.inPlace r else output.before r
      else ∅⟩
  | .updateFromOutput schedulerOutput modelRunnerOutput _ => ⟨e, fun r =>
      if r ∈ l.engine.scheduler.running then
        l.inPlace r ∪ schedulerOutput.computedBy modelRunnerOutput r
      else l.inPlace r⟩
  | _ => ⟨e, l.inPlace⟩

inductive Step : Ledger H → Event → Ledger H → Prop
  | enter {l : Ledger H} {event : Event} {e : Engine H} (hstep : Engine.Step l.engine event e) :
      Step l event (l.enter e event)

def opened (e : Engine H) : Ledger H := ⟨e, fun _ => ∅⟩

omit [DecidableEq H] in
theorem enter_engine (l : Ledger H) (e : Engine H) (event : Event) :
    (l.enter e event).engine = e := by
  cases event <;> rfl

theorem Step.engine {l l' : Ledger H} {event : Event} (h : Step l event l') :
    Engine.Step l.engine event l'.engine := by
  cases h with
  | enter hstep => rwa [enter_engine]

theorem run_engine {l l' : Ledger H} {events : List Event} (hrun : Run Step l events l') :
    Run Engine.Step l.engine events l'.engine :=
  hrun.map Ledger.engine fun _ _ _ h => h.engine

/-- A ledger is kept over every run of the engine. -/
theorem exists_run {e e' : Engine H} {events : List Event} (hrun : Run Engine.Step e events e') :
    ∃ l', Run Step (opened e) events l' ∧ l'.engine = e' := by
  induction hrun with
  | nil => exact ⟨_, .nil, rfl⟩
  | snoc _ hstep ih =>
      obtain ⟨l, hl, rfl⟩ := ih
      exact ⟨_, hl.snoc (.enter hstep), enter_engine ..⟩

end Ledger

/-! ### Through the loops -/

namespace StepState

variable {s : Scheduler H} {l l' : StepState H} {r : RequestId} {n numComputedTokens : ℕ}

/-- What a call has fixed for a request it let in: the tokens of the step, and the
count they start from. -/
structure SetOut (r : RequestId) (n numComputedTokens : ℕ) (l : StepState H) : Prop where
  batch : Batch l
  ahead : l.phase.overWaiting = true ∨ l.phase = .finished
  running : r ∈ l.scheduler.running
  scheduled : l.numScheduledTokens.find r = some n
  computed : (l.scheduler.request r).numComputedTokens = numComputedTokens

theorem Outcome.setOut (h : Outcome l l') (hs : SetOut r n numComputedTokens l) :
    SetOut r n numComputedTokens l' := by
  have hb := hs.batch
  have hb' := h.batch hb
  have hfirst : ∀ {phase : Phase}, l.phase = phase → phase.overWaiting = false →
      phase ≠ .finished → SetOut r n numComputedTokens l' := by
    intro phase hphase hover hfinished
    rcases hs.ahead with hwaiting | hdone
    · rw [hphase, hover] at hwaiting
      cases hwaiting
    · exact absurd (hphase.symm.trans hdone) hfinished
  have hprepared : ∀ {s' : Scheduler H} {r' : RequestId}, Prepared l.scheduler s' r' →
      r ∈ s'.running ∧ (s'.request r).numComputedTokens = numComputedTokens := fun h =>
    ⟨h.running_eq ▸ hs.running, (h.counts r).1.trans hs.computed⟩
  cases h with
  | rest hphase => exact hs
  | enter hphase => exact hfirst hphase rfl nofun
  | pass hphase hr => exact hfirst hphase rfl nofun
  | takeUp hphase hr hn hbudget hspec hlen => exact hfirst hphase rfl nofun
  | commit hphase hok => exact hfirst hphase rfl nofun
  | preempt hphase hok hvictim hstatus hfree hbatch hinputs => exact hfirst hphase rfl nofun
  | close hphase hprep =>
      rcases hprep with rfl | ⟨r', hprep⟩
      · exact ⟨hb', Or.inr rfl, hs.running, hs.scheduled, hs.computed⟩
      · obtain ⟨hrunning, hcomputed⟩ := hprepared hprep
        exact ⟨hb', Or.inr rfl, hrunning, hs.scheduled, hcomputed⟩
  | setAside hphase hprep hfree hpop =>
      obtain ⟨hrunning, hcomputed⟩ := hprepared hprep
      exact ⟨hb', Or.inl rfl, hrunning, hs.scheduled, hcomputed⟩
  | lookUp hphase hprep hpreempted hhits hexternal hrun hn hbudget hlen =>
      obtain ⟨hrunning, hcomputed⟩ := hprepared hprep
      exact ⟨hb', Or.inl rfl, hrunning, hs.scheduled, hcomputed⟩
  | decline hphase hok => exact ⟨hb', Or.inr rfl, hs.running, hs.scheduled, hs.computed⟩
  | @accept r₁ r' hits blocks numLocal numExternal n' inputs kv waiting connector loras hphase hok
      hpop hstatus hconnector =>
      obtain ⟨-, hhead, -⟩ := hb.admitting _ _ _ _ _ _ hphase
      obtain rfl := RequestQueue.head_of_pop hhead hpop
      have hne := hb.ne_head hhead hs.running
      refine ⟨hb', Or.inl rfl, List.mem_append_left _ hs.running, ?_, ?_⟩
      · show (l.numScheduledTokens.store _ n').find r = some n
        rw [Dict.find_store, if_neg hne]
        exact hs.scheduled
      · show (Function.update l.scheduler.request _ _ r).numComputedTokens = numComputedTokens
        rw [Function.update_of_ne hne]
        exact hs.computed

theorem Loops.setOut (hloops : Loops l l') (hs : SetOut r n numComputedTokens l) :
    SetOut r n numComputedTokens l' :=
  hloops.invariant hs fun _ _ hstep hs => hstep.setOut hs

theorem Outcome.letsIn (h : Outcome l l') (hb : Batch l) {hits : List (List BlockId)}
    {numLocal numExternal : ℕ} {inputs : List ℕ}
    (hphase : l.phase = .admitting r hits numLocal numExternal n inputs)
    (hadmission : l'.phase = .admission) : SetOut r n (numLocal + numExternal) l' := by
  have hother : ∀ {phase : Phase}, l.phase = phase → (∀ r hits a b n inputs,
      phase ≠ .admitting r hits a b n inputs) → False := fun heq hne =>
    hne _ _ _ _ _ _ (heq.symm.trans hphase)
  have hb' := h.batch hb
  cases h with
  | rest hphase' => exact (hother hphase' nofun).elim
  | enter hphase' => exact (hother hphase' nofun).elim
  | pass hphase' hr => exact (hother hphase' nofun).elim
  | takeUp hphase' hr hn hbudget hspec hlen => exact (hother hphase' nofun).elim
  | commit hphase' hok => exact (hother hphase' nofun).elim
  | preempt hphase' hok hvictim hstatus hfree hbatch hinputs => exact (hother hphase' nofun).elim
  | close hphase' hs => exact (hother hphase' nofun).elim
  | setAside hphase' hs hfree hpop => exact (hother hphase' nofun).elim
  | lookUp hphase' hs hpreempted hhits hexternal hr hn hbudget hlen =>
      exact (hother hphase' nofun).elim
  | decline hphase' hok => cases hadmission
  | @accept r₁ r' hits' blocks numLocal' numExternal' n' inputs' kv waiting connector loras hphase'
      hok hpop hstatus hconnector =>
      obtain ⟨rfl, -, rfl, rfl, rfl, -⟩ := Phase.admitting.inj (hphase'.symm.trans hphase)
      obtain ⟨-, hhead, -⟩ := hb.admitting _ _ _ _ _ _ hphase'
      obtain rfl := RequestQueue.head_of_pop hhead hpop
      refine ⟨hb', Or.inl rfl, List.mem_append_right _ (List.mem_singleton_self _), ?_, ?_⟩
      · show (l.numScheduledTokens.store r' _).find r' = _
        rw [Dict.find_store, if_pos rfl]
      · show (Function.update l.scheduler.request r' _ r').numComputedTokens = _
        rw [Function.update_self]
        rfl

/-- A request that a call lets in sets out from its hits, with a token to compute and
the last of its tokens not among them. -/
theorem Entered.setOut {hits : List (List BlockId)} {numLocal numExternal : ℕ}
    {connector : Option (SimSharedStoreConnector H)} (hpart : s.Partitioned)
    (hstart : Pace s (start s)) (h : Entered s r hits numLocal numExternal connector l) :
    numLocal + numExternal < (s.request r).numTokens ∧
      ∃ n, 0 < n ∧ SetOut r n (numLocal + numExternal) l := by
  obtain ⟨l₁, l₂, n, inputs, hbefore, hphase, -, hstep, hadmission, hafter⟩ := h
  have hb := Loops.batch hpart hbefore
  obtain ⟨hn, -, -⟩ := hb.admitting _ _ _ _ _ _ hphase
  have hfits := (Loops.pace hpart hstart hbefore).admitting _ _ _ _ _ _ hphase
  rw [(hbefore.reworks r).numTokens_eq] at hfits
  change _ ≤ (s.request r).numTokens at hfits
  exact ⟨by omega, n, hn, hafter.setOut ((advance_outcome hstep).letsIn hb hphase hadmission)⟩

end StepState

open Engine (answerOne)

/-- What a call sends a request: it sets out behind its tokens, and from its count if
it was running. -/
theorem Engine.Paced.setsOut {s s' : Scheduler H} {output : SchedulerOutput}
    (h : Paced ⟨s, none⟩) (hok : s.schedule = .ok (output, s')) {r : RequestId} {n : ℕ}
    (hfind : output.numScheduledTokens.find r = some n) :
    (∀ start, (r, start) ∈ output.sentFrom ↔ start + n = (s'.request r).numComputedTokens) ∧
      n ≤ (s'.request r).numComputedTokens ∧
      (s'.request r).numComputedTokens < (s'.request r).numTokens + n ∧
      (r ∈ s.running →
        (s.request r).numComputedTokens + n = (s'.request r).numComputedTokens) := by
  obtain ⟨l, hloops, -, hfinishes⟩ := Scheduler.schedule_ok hok
  have hpart := h.settled.partition
  have hb := hloops.batch hpart
  have hbehind := (hloops.pace hpart h.start).behind
  rw [hfinishes.scheduled] at hfind
  have hin : r ∈ l.batch := (hb.keys r).mp ((Dict.mem_keys_iff ..).mpr ⟨n, hfind⟩)
  have hadvanced : s'.request r = (l.scheduler.request r).advanced n := by
    rw [hfinishes.state]
    dsimp only
    rw [StepState.advancedTable]
    rw [Dict.find] at hfind
    rw [hfind]
  have hcount : (s'.request r).numComputedTokens =
      (l.scheduler.request r).numComputedTokens + n := by rw [hadvanced]; rfl
  refine ⟨fun start => ?_, ?_, ?_, fun hwas => ?_⟩
  · rw [hfinishes.sentFrom hb.partition.requestId, hcount, Nat.add_right_cancel_iff]
    constructor
    · intro hmem
      obtain ⟨r', -, heq⟩ := List.mem_map.mp hmem
      cases heq
      rfl
    · rintro rfl
      refine List.mem_map.mpr ⟨r, ?_, rfl⟩
      rw [StepState.batch, List.mem_append] at hin
      exact List.mem_append.mpr hin.symm
  · rw [hcount]
    exact Nat.le_add_left ..
  · rw [hcount, hadvanced]
    exact Nat.add_lt_add_right (hbehind r hin) n
  · rw [hcount]
    obtain hletIn | ⟨-, hsame⟩ := hloops.follows hpart r (hb.running r hin)
    · exact absurd hwas ((hloops.newcomers hpart).fresh r hletIn)
    · rw [hsame]

theorem Engine.Paced.newcomer {s s' : Scheduler H} {output : SchedulerOutput}
    (h : Paced ⟨s, none⟩) (hok : s.schedule = .ok (output, s')) {r : RequestId}
    (hr : r ∈ s'.running) (hnew : r ∉ s.running) :
    ∃ n, output.numScheduledTokens.find r = some n := by
  by_contra hnone
  have hkey : r ∉ output.numScheduledTokens.keys := fun hkey =>
    hnone ((Dict.mem_keys_iff ..).mp hkey)
  exact hnew (Scheduler.schedule_passed h.settled.partition hok hr hkey).1

namespace Ledger

/-! ### What the ledger says -/

/-- What is in place for a running request are the positions its count covers, less the
step in flight. -/
structure Balanced (l : Ledger H) : Prop where
  paced : l.engine.Paced
  inPlace : ∀ r ∈ l.engine.scheduler.running, l.inPlace r =
    Set.Iio ((l.engine.scheduler.request r).numComputedTokens -
      (l.engine.scheduledFor r).getD 0)
  sent : ∀ r ∈ l.engine.scheduler.running, ∀ output, l.engine.inFlight = some output →
    ∀ n, output.numScheduledTokens.find r = some n →
      (∀ start, (r, start) ∈ output.sentFrom ↔
        start + n = (l.engine.scheduler.request r).numComputedTokens) ∧
      n ≤ (l.engine.scheduler.request r).numComputedTokens ∧
      (l.engine.scheduler.request r).numComputedTokens <
        (l.engine.scheduler.request r).numTokens + n

variable {s s' : Scheduler H} {inPlace : RequestId → Set ℕ}

theorem Balanced.call {event : Event} {inFlight : Option SchedulerOutput}
    (h : Balanced ⟨⟨s, inFlight⟩, inPlace⟩) (hstep : Scheduler.Step s event s')
    (hanytime : event.anytime = true) :
    Balanced ((⟨⟨s, inFlight⟩, inPlace⟩ : Ledger H).enter ⟨s', inFlight⟩ event) := by
  have hfollows := hstep.follows hanytime h.paced.settled
  have hpaced := h.paced.call hstep hanytime
  have hbalanced : ∀ inPlace', (∀ r ∈ s.running, inPlace' r = inPlace r) →
      Balanced ⟨⟨s', inFlight⟩, inPlace'⟩ := by
    intro inPlace' hsame
    refine ⟨hpaced, fun r hr => ?_, fun r hr output hflight n hfind => ?_⟩
    · obtain ⟨hwas, grammar, heq⟩ := hfollows r hr
      dsimp only
      rw [hsame r hwas, heq]
      exact h.inPlace r hwas
    · obtain ⟨hwas, grammar, heq⟩ := hfollows r hr
      dsimp only
      rw [heq]
      exact h.sent r hwas output hflight n hfind
  cases hstep with
  | @addRequest args request hrequest hfresh =>
      refine hbalanced _ fun r hr => ?_
      have hne : r ≠ args.requestId := fun heq =>
        hfresh (heq ▸ h.paced.settled.partition.known_of_running hr)
      exact Function.update_of_ne hne ..
  | finishRequests hok => exact hbalanced _ fun _ _ => rfl
  | schedule hok => cases hanytime
  | updateFromOutput hok => cases hanytime
  | resetPrefixCache => exact hbalanced _ fun _ _ => rfl
  | grammar hcompiling => exact hbalanced _ fun _ _ => rfl
  | sharedStore hconnector => exact hbalanced _ fun _ _ => rfl

theorem Balanced.schedule {output : SchedulerOutput} (h : Balanced ⟨⟨s, none⟩, inPlace⟩)
    (hok : s.schedule = .ok (output, s')) :
    Balanced ((⟨⟨s, none⟩, inPlace⟩ : Ledger H).enter ⟨s', some output⟩ (.schedule output)) := by
  refine ⟨h.paced.schedule hok, fun r hr => ?_, fun r hr output' hflight n hfind => ?_⟩
  · change r ∈ s'.running at hr
    show (if r ∈ s'.running then if r ∈ s.running then inPlace r else output.before r else ∅) =
      Set.Iio ((s'.request r).numComputedTokens - (output.numScheduledTokens.find r).getD 0)
    rw [if_pos hr]
    by_cases hwas : r ∈ s.running
    · have hold : inPlace r = Set.Iio ((s.request r).numComputedTokens - 0) := h.inPlace r hwas
      rw [if_pos hwas, hold]
      cases hfind : output.numScheduledTokens.find r with
      | none =>
          have hkey := (Dict.find_eq_none_iff ..).mp hfind
          obtain ⟨-, hsame, -⟩ :=
            Scheduler.schedule_passed h.paced.settled.partition hok hr hkey
          rw [hsame]
          rfl
      | some n =>
          obtain ⟨-, -, -, hcount⟩ := h.paced.setsOut hok hfind
          rw [← hcount hwas, Option.getD_some, Nat.add_sub_cancel, Nat.sub_zero]
    · obtain ⟨n, hfind⟩ := h.paced.newcomer hok hr hwas
      obtain ⟨hsent, hle, -⟩ := h.paced.setsOut hok hfind
      rw [if_neg hwas, hfind, Option.getD_some]
      ext position
      rw [Set.mem_Iio, SchedulerOutput.before, Set.mem_ofPred_eq]
      constructor
      · rintro ⟨start, hstart, hlt⟩
        have hcount := (hsent start).mp hstart
        omega
      · intro hlt
        exact ⟨_, (hsent _).mpr (Nat.sub_add_cancel hle), hlt⟩
  · obtain rfl := Option.some.inj hflight
    obtain ⟨hsent, hle, hahead, -⟩ := h.paced.setsOut hok hfind
    exact ⟨hsent, hle, hahead⟩

/-- Once the results of its step are in, everything that the count of a request covers is
in place. -/
theorem Balanced.settles {schedulerOutput : SchedulerOutput} {r : RequestId}
    (h : Balanced ⟨⟨s, some schedulerOutput⟩, inPlace⟩) (modelRunnerOutput : ModelRunnerOutput)
    (hr : r ∈ s.running) (hscheduled : schedulerOutput.numScheduledTokens.findD r 0 ≠ 0) :
    inPlace r ∪ schedulerOutput.computedBy modelRunnerOutput r =
      Set.Iio (rolledBack (s.request r) schedulerOutput modelRunnerOutput r).numComputedTokens := by
  cases hfind : schedulerOutput.numScheduledTokens.find r with
  | none => exact absurd (by rw [Dict.findD, hfind, Option.getD_none]) hscheduled
  | some n =>
      have hplace : inPlace r = Set.Iio ((s.request r).numComputedTokens -
          (schedulerOutput.numScheduledTokens.find r).getD 0) := h.inPlace r hr
      obtain ⟨hsent, hle, hahead⟩ := h.sent r hr schedulerOutput rfl n hfind
      obtain ⟨hn, hflying⟩ := h.paced.flying r hr n hfind
      have hdrafts : (s.request r).numComputedTokens - (s.request r).numTokens =
          (schedulerOutput.scheduledSpecDecodeTokens.findD r []).length := hflying.ahead
      -- fewer drafts are taken back than the step has tokens
      have hrejected : schedulerOutput.rejectedDrafts modelRunnerOutput r ≤ n := by
        unfold SchedulerOutput.rejectedDrafts
        dsimp only at hahead
        omega
      have hcount : (rolledBack (s.request r) schedulerOutput modelRunnerOutput r).numComputedTokens
          = (s.request r).numComputedTokens -
            schedulerOutput.rejectedDrafts modelRunnerOutput r := rfl
      rw [hplace, hcount, hfind, Option.getD_some]
      ext position
      rw [Set.mem_union, Set.mem_Iio, Set.mem_Iio, SchedulerOutput.computedBy,
        Set.mem_ofPred_eq]
      constructor
      · rintro (hlt | ⟨start, n', hstart, hfind', hfrom, hlt⟩)
        · omega
        · have hstarts : start + n = (s.request r).numComputedTokens := (hsent start).mp hstart
          obtain rfl := Option.some.inj (hfind.symm.trans hfind')
          omega
      · intro hlt
        by_cases hold : position < (s.request r).numComputedTokens - n
        · exact Or.inl hold
        · have hstart := (hsent _).mpr (Nat.sub_add_cancel hle)
          refine Or.inr ⟨(s.request r).numComputedTokens - n, n, hstart, hfind,
            Nat.not_lt.mp hold, ?_⟩
          change n ≤ (s.request r).numComputedTokens at hle
          omega

theorem Balanced.updateFromOutput {schedulerOutput : SchedulerOutput}
    {modelRunnerOutput : ModelRunnerOutput} {outputs : Dict ℕ (List EngineCoreOutput)}
    (h : Balanced ⟨⟨s, some schedulerOutput⟩, inPlace⟩)
    (hanswers : Answers s schedulerOutput modelRunnerOutput)
    (hok : s.updateFromOutput schedulerOutput modelRunnerOutput = .ok (outputs, s')) :
    Balanced ((⟨⟨s, some schedulerOutput⟩, inPlace⟩ : Ledger H).enter ⟨s', none⟩
      (.updateFromOutput schedulerOutput modelRunnerOutput outputs)) := by
  have hfollows := Scheduler.updateFromOutput_follows h.paced.settled hok
  refine ⟨(h.paced.updateFromOutput hanswers hok).1, fun r hr => ?_, nofun⟩
  obtain ⟨hwas, request, hgoes, heq⟩ := hfollows.running r hr
  have hcount : (s'.request r).numComputedTokens = request.numComputedTokens := by
    rw [heq]
    unfold Scheduler.drafted
    split <;> rfl
  show (if r ∈ s.running then inPlace r ∪ schedulerOutput.computedBy modelRunnerOutput r
    else inPlace r) = Set.Iio ((s'.request r).numComputedTokens - 0)
  rw [if_pos hwas, hcount, Nat.sub_zero]
  cases hgoes with
  | passed hscheduled =>
      have hfind : schedulerOutput.numScheduledTokens.find r = none := by
        by_contra hsome
        obtain ⟨n, hfind⟩ := Option.ne_none_iff_exists'.mp hsome
        obtain ⟨hn, -⟩ := h.paced.flying r hwas n hfind
        rw [Dict.findD, hfind, Option.getD_some] at hscheduled
        omega
      have hplace : inPlace r = Set.Iio ((s.request r).numComputedTokens -
          (schedulerOutput.numScheduledTokens.find r).getD 0) := h.inPlace r hwas
      have hnothing : schedulerOutput.computedBy modelRunnerOutput r = ∅ := by
        rw [Set.eq_empty_iff_forall_notMem]
        rintro position ⟨start, n, -, hsome, -⟩
        rw [hfind] at hsome
        cases hsome
      rw [hplace, hnothing, hfind, Option.getD_none, Nat.sub_zero, Set.union_empty]
  | folded hscheduled hfolds hkept hpooled =>
      rw [h.settles modelRunnerOutput hwas hscheduled, hfolds.numComputedTokens_eq]

theorem Step.balanced {l l' : Ledger H} {event : Event} (hstep : Step l event l')
    (h : l.Balanced) : l'.Balanced := by
  obtain ⟨e, inPlace⟩ := l
  cases hstep with
  | enter hstep =>
      cases hstep with
      | call hstep hanytime => exact h.call hstep hanytime
      | schedule hok => exact h.schedule hok
      | updateFromOutput hanswers hok => exact h.updateFromOutput hanswers hok

theorem opened_balanced {e : Engine H} (h : e.Paced) (hnone : e.scheduler.requests = []) :
    (opened e).Balanced := by
  have hidle : ∀ r, r ∉ e.scheduler.running := fun r hr => by
    have hknown := h.settled.partition.known_of_running hr
    rw [hnone] at hknown
    cases hknown
  exact ⟨h, fun r hr => absurd hr (hidle r), fun r hr => absurd hr (hidle r)⟩

theorem run_balanced {l l' : Ledger H} {events : List Event} (hrun : Run Step l events l')
    (h : l.Balanced) : l'.Balanced :=
  hrun.invariant (P := fun _ l => l.Balanced) h fun _ _ _ _ _ h hstep => hstep.balanced h

/-! ### What is published -/

/-- A step puts in the store only what it may: what is new there is of a request that
leaves; its blocks that are put are full, and everything in them is in place; and every
admission sets out from its hits, short of its last token, with a token to compute. -/
structure Sound (l : Ledger H) (event : Event) (l' : Ledger H) : Prop where
  published : event ≠ .sharedStore → Scheduler.Published l.engine.scheduler l'.engine.scheduler
  full : ∀ r i, Scheduler.Puts l.engine.scheduler l'.engine.scheduler r i → ∃ hasher,
    l.engine.scheduler.kvCacheManager.blockHasher = some hasher ∧
      (l'.engine.scheduler.request r).Hashed hasher ∧
      (i + 1) * hasher.blockSize ≤ (l'.engine.scheduler.request r).numTokens ∧
      ∀ position, i * hasher.blockSize ≤ position → position < (i + 1) * hasher.blockSize →
        position ∈ l'.inPlace r
  admissions : ∀ output, event = .schedule output →
    ∀ r hits numLocal numExternal connector, Scheduler.Admits l.engine.scheduler output
        l'.engine.scheduler r hits numLocal numExternal connector →
      numLocal + numExternal < (l.engine.scheduler.request r).numTokens ∧
        (∃ n, output.numScheduledTokens.find r = some n ∧ 0 < n) ∧
        output.before r = Set.Iio (numLocal + numExternal)

/-- A running request is ended while a step of it is in flight that fills a block which
is to be written. -/
def Early (l : Ledger H) (event : Event) : Prop :=
  ∃ requestIds finishedStatus, event = .finishRequests requestIds finishedStatus ∧
    ∃ r ∈ requestIds, r ∈ l.engine.scheduler.running ∧
      ∃ n, l.engine.scheduledFor r = some n ∧
      ∃ connector, l.engine.scheduler.connector = some connector ∧
        connector.maySave = true ∧ connector.blockBytes ≠ 0 ∧
        ((l.engine.scheduler.request r).numComputedTokens - n) / connector.blockSize <
          (l.engine.scheduler.request r).numComputedTokens / connector.blockSize ∧
        ((l.engine.scheduler.request r).numComputedTokens - n) / connector.blockSize <
          (l.engine.scheduler.request r).blockHashes.length

/-- What the blocks that are written go by: the requests are hashed under the policy of
the manager, in blocks of the size of the connector. -/
structure Grounded (l : Ledger H) : Prop where
  balanced : l.Balanced
  hashed : ∀ r ∈ l.engine.scheduler.requests,
    (l.engine.scheduler.request r).HashedAs l.engine.scheduler.kvCacheManager.blockHasher
  blockSize : ∀ connector, l.engine.scheduler.connector = some connector →
    connector.blockSize = l.engine.scheduler.kvCacheManager.kvCacheConfig.blockSize
  empty : ∀ loads, pendingLoads l.engine.scheduler.connector = some loads → loads = .empty

theorem filled_iff {blockSize count i : ℕ} (hpos : 0 < blockSize) :
    (∀ position, i * blockSize ≤ position → position < (i + 1) * blockSize →
      position ∈ Set.Iio count) ↔ i < count / blockSize := by
  rw [← Nat.succ_le_iff, Nat.succ_eq_add_one, Nat.le_div_iff_mul_le hpos]
  have hgrown : (i + 1) * blockSize = i * blockSize + blockSize := Nat.succ_mul ..
  constructor
  · intro h
    have hlast : (i + 1) * blockSize - 1 < count := h _ (by omega) (by omega)
    omega
  · intro h position _ hlt
    exact lt_of_lt_of_le hlt h

omit [DecidableEq H] in
theorem blockHasher_eq {m : KVCacheManager H} {hasher : BlockHasher H}
    (h : m.blockHasher = some hasher) : hasher.blockSize = m.kvCacheConfig.blockSize := by
  unfold KVCacheManager.blockHasher at h
  split at h
  · rw [← Option.some.inj h]
  · cases h

/-- A block that is put is full, and its count covers it. -/
theorem Grounded.put {l : Ledger H} {event : Event} {s' : Scheduler H} (h : l.Grounded)
    (hstep : Scheduler.Step l.engine.scheduler event s') {r : RequestId} {i : ℕ}
    (hputs : Scheduler.Puts l.engine.scheduler s' r i) : ∃ hasher,
      l.engine.scheduler.kvCacheManager.blockHasher = some hasher ∧
        (s'.request r).Hashed hasher ∧
        (i + 1) * hasher.blockSize ≤ (s'.request r).numTokens ∧
        i < (s'.request r).numComputedTokens / hasher.blockSize := by
  obtain ⟨hknown, -, connector', hconnector', hwritten⟩ := hputs
  obtain ⟨-, -, hcomputed, hhashes⟩ := SimSharedStoreConnector.lt_writtenBlocks.mp hwritten
  have hadded : event.added ≠ some r := by
    intro hadded
    cases hstep with
    | addRequest hrequest hfresh => exact hfresh (Option.some.inj hadded ▸ hknown)
    | finishRequests => cases hadded
    | schedule => cases hadded
    | updateFromOutput => cases hadded
    | resetPrefixCache => cases hadded
    | grammar => cases hadded
    | sharedStore => cases hadded
  have hhashed := hstep.lasting (Request.HashedAs.lasting _) hadded (h.hashed r hknown)
  cases hpolicy : l.engine.scheduler.kvCacheManager.blockHasher with
  | none =>
      rw [hpolicy] at hhashed
      rw [hhashed.2] at hhashes
      exact absurd hhashes (Nat.not_lt_zero i)
  | some hasher =>
      rw [hpolicy] at hhashed
      have hchain : (s'.request r).Hashed hasher := hhashed
      -- the connector is built as the one before the step
      have hrests : Scheduler.Rests l.engine.scheduler.connector l.engine.scheduler.connector :=
        ⟨rfl, h.empty⟩
      have hsame := (hstep.rests hrests).same
      rw [SameConnector, hconnector'] at hsame
      obtain ⟨connector, hconnector, hsetup⟩ := Option.map_eq_some_iff.mp hsame.symm
      have hsize : connector'.blockSize = hasher.blockSize := by
        rw [blockHasher_eq hpolicy, ← h.blockSize connector hconnector]
        exact congrArg Prod.fst hsetup.symm
      refine ⟨hasher, rfl, hchain, ?_, hsize ▸ hcomputed⟩
      rw [hchain.length] at hhashes
      exact (Nat.le_div_iff_mul_le hasher.blockSize_pos).mp hhashes

theorem Step.scheduler {l l' : Ledger H} {event : Event} (hstep : Step l event l') :
    Scheduler.Step l.engine.scheduler event l'.engine.scheduler :=
  hstep.engine.scheduler

theorem Grounded.admissions {l l' : Ledger H} {output : SchedulerOutput} (h : l.Grounded)
    (hstep : Step l (.schedule output) l') {r : RequestId} {hits : List (List BlockId)}
    {numLocal numExternal : ℕ} {connector : SimSharedStoreConnector H}
    (hadmits : Scheduler.Admits l.engine.scheduler output l'.engine.scheduler r hits numLocal
      numExternal connector) :
    numLocal + numExternal < (l.engine.scheduler.request r).numTokens ∧
      (∃ n, output.numScheduledTokens.find r = some n ∧ 0 < n) ∧
      output.before r = Set.Iio (numLocal + numExternal) := by
  obtain ⟨⟨s, inFlight⟩, inPlace⟩ := l
  obtain ⟨⟨s', inFlight'⟩, inPlace'⟩ := l'
  obtain ⟨hok, l₁, hentered, -, hfinish⟩ := hadmits
  have hengine : Engine.Step ⟨s, inFlight⟩ (.schedule output) ⟨s', inFlight'⟩ := hstep.engine
  have hnone : inFlight = none := by
    cases hengine with
    | call hstep hanytime => cases hanytime
    | schedule hok => rfl
  subst hnone
  have hpaced : Engine.Paced ⟨s, none⟩ := h.balanced.paced
  obtain ⟨hlast, n, hn, hsetOut⟩ :=
    hentered.setOut hpaced.settled.partition hpaced.start
  have hfinishes := StepState.finish_ok hfinish
  have hfind : output.numScheduledTokens.find r = some n := by
    rw [hfinishes.scheduled]
    exact hsetOut.scheduled
  refine ⟨hlast, ⟨n, hfind, hn⟩, ?_⟩
  have hin : r ∈ l₁.batch :=
    (hsetOut.batch.keys r).mp ((Dict.mem_keys_iff ..).mpr ⟨n, hsetOut.scheduled⟩)
  ext position
  rw [SchedulerOutput.before, Set.mem_ofPred_eq, Set.mem_Iio,
    hfinishes.sentFrom hsetOut.batch.partition.requestId]
  constructor
  · rintro ⟨start, hmem, hlt⟩
    obtain ⟨r', -, heq⟩ := List.mem_map.mp hmem
    cases heq
    rwa [hsetOut.computed] at hlt
  · intro hlt
    rw [← hsetOut.computed] at hlt
    refine ⟨_, List.mem_map.mpr ⟨r, ?_, rfl⟩, hlt⟩
    rw [StepState.batch, List.mem_append] at hin
    exact List.mem_append.mpr hin.symm

/-- A step is sound but for what it may write too early. -/
theorem Grounded.sound {l l' : Ledger H} {event : Event} (h : l.Grounded)
    (hstep : Step l event l')
    (hinPlace : ∀ r i, Scheduler.Puts l.engine.scheduler l'.engine.scheduler r i →
      ∀ hasher, l.engine.scheduler.kvCacheManager.blockHasher = some hasher →
        i < (l'.engine.scheduler.request r).numComputedTokens / hasher.blockSize →
        ∃ count, l'.inPlace r = Set.Iio count ∧ i < count / hasher.blockSize) :
    Sound l event l' := by
  refine ⟨hstep.scheduler.published h.balanced.paced.settled, fun r i hputs => ?_, ?_⟩
  · obtain ⟨hasher, hpolicy, hhashed, hfull, hcount⟩ := h.put hstep.scheduler hputs
    obtain ⟨count, hplace, hlt⟩ := hinPlace r i hputs hasher hpolicy hcount
    refine ⟨hasher, hpolicy, hhashed, hfull, ?_⟩
    rw [hplace]
    exact (filled_iff hasher.blockSize_pos).mpr hlt
  · rintro output rfl r hits numLocal numExternal connector hadmits
    exact h.admissions hstep hadmits

/-- A request that its result brings to an end has everything in place that its count
covers. -/
theorem Balanced.stops {l l' : Ledger H} (h : l.Balanced) {schedulerOutput : SchedulerOutput}
    {modelRunnerOutput : ModelRunnerOutput} {outputs : Dict ℕ (List EngineCoreOutput)}
    (hstep : Step l (.updateFromOutput schedulerOutput modelRunnerOutput outputs) l')
    {r : RequestId} (hr : r ∈ l.engine.scheduler.requests)
    (hgone : r ∉ l'.engine.scheduler.requests) :
    l'.inPlace r = Set.Iio (l'.engine.scheduler.request r).numComputedTokens := by
  obtain ⟨e, inPlace⟩ := l
  cases hstep with
  | enter hstep =>
      cases hstep with
      | call hstep hanytime => cases hanytime
      | @updateFromOutput s s' _ _ _ hanswers hok =>
          have hstops := (Scheduler.updateFromOutput_follows h.paced.settled hok).stopped r hr hgone
          obtain ⟨kept, hfolds⟩ := hstops.folds
          show (if r ∈ s.running then inPlace r ∪ schedulerOutput.computedBy modelRunnerOutput r
            else inPlace r) = Set.Iio (s'.request r).numComputedTokens
          rw [if_pos hstops.running, h.settles modelRunnerOutput hstops.running hstops.scheduled,
            hfolds.numComputedTokens_eq]

/-- What is written of a request that a call ends, read at the state before. -/
theorem Grounded.ends {l l' : Ledger H} {requestIds : List RequestId}
    {finishedStatus : RequestStatus} (h : l.Grounded)
    (hstep : Step l (.finishRequests requestIds finishedStatus) l') {r : RequestId}
    (hr : r ∈ l.engine.scheduler.requests) (hgone : r ∉ l'.engine.scheduler.requests) :
    r ∈ requestIds ∧ l'.inPlace r = l.inPlace r ∧
      (l'.engine.scheduler.request r).numComputedTokens =
        (l.engine.scheduler.request r).numComputedTokens ∧
      ∀ i, Scheduler.Puts l.engine.scheduler l'.engine.scheduler r i ↔
        ∃ connector, l.engine.scheduler.connector = some connector ∧
          i < connector.writtenBlocks (l.engine.scheduler.request r) := by
  have hsettled := h.balanced.paced.settled
  have hrests : Scheduler.Rests l.engine.scheduler.connector l.engine.scheduler.connector :=
    ⟨rfl, h.empty⟩
  have hsame := (hstep.scheduler.rests hrests).same
  have hwas : r ∈ requestIds ∧ l'.engine.scheduler.request r =
      (l.engine.scheduler.request r).withStatus finishedStatus := by
    cases hstep.scheduler with
    | finishRequests hok => exact (Scheduler.finishRequests_published hsettled hok).2 r hr hgone
  obtain ⟨hmem, heq⟩ := hwas
  refine ⟨hmem, ?_, by rw [heq]; rfl, fun i => ?_⟩
  · cases hstep with
    | enter hstep => rfl
  have hwritten : ∀ {connector connector' : SimSharedStoreConnector H},
      connector'.setup = connector.setup →
        connector'.writtenBlocks (l'.engine.scheduler.request r) =
          connector.writtenBlocks (l.engine.scheduler.request r) := fun hsetup =>
    (SimSharedStoreConnector.writtenBlocks_congr hsetup (by rw [heq]; rfl) (by rw [heq]; rfl)).1
  unfold SameConnector at hsame
  constructor
  · rintro ⟨-, -, connector', hconnector', hlt⟩
    rw [hconnector'] at hsame
    obtain ⟨connector, hconnector, hsetup⟩ := Option.map_eq_some_iff.mp hsame.symm
    exact ⟨connector, hconnector, hwritten hsetup.symm ▸ hlt⟩
  · rintro ⟨connector, hconnector, hlt⟩
    rw [hconnector] at hsame
    obtain ⟨connector', hconnector', hsetup⟩ := Option.map_eq_some_iff.mp hsame
    exact ⟨hr, hgone, connector', hconnector', (hwritten hsetup).symm ▸ hlt⟩

/-- From a state in order: a step is sound if and only if it does not end a request
early. -/
theorem Grounded.sound_iff {l l' : Ledger H} {event : Event} (h : l.Grounded)
    (hstep : Step l event l') : Sound l event l' ↔ ¬ Early l event := by
  have hpart := h.balanced.paced.settled.partition
  constructor
  · rintro hsound ⟨requestIds, finishedStatus, rfl, r, hr, hrunning, n, hn, connector, hconnector,
      hsave, hbytes, hcomputed, hhashes⟩
    have hknown := hpart.known_of_running hrunning
    have hgone : r ∉ l'.engine.scheduler.requests := by
      cases hstep.scheduler with
      | finishRequests hok =>
          obtain ⟨hfinished, hall⟩ := Scheduler.finishRequests_ok hok
          exact Scheduler.finishAll_gone h.balanced.paced.settled hfinished hall r hr
    obtain ⟨-, hplace, -, hputs⟩ := h.ends hstep hknown hgone
    obtain ⟨hasher, hpolicy, -, -, hall⟩ := hsound.full r _ ((hputs _).mpr ⟨connector, hconnector,
      SimSharedStoreConnector.lt_writtenBlocks.mpr ⟨hsave, hbytes, hcomputed, hhashes⟩⟩)
    rw [hplace, h.balanced.inPlace r hrunning, hn, Option.getD_some, h.blockSize _ hconnector,
      ← blockHasher_eq hpolicy] at hall
    exact lt_irrefl _ ((filled_iff hasher.blockSize_pos).mp hall)
  · intro hnot
    refine h.sound hstep fun r i hputs hasher hpolicy hlt => ?_
    obtain ⟨hknown, hgone, -⟩ := id hputs
    by_cases hfinish : ∃ requestIds finishedStatus,
      event = .finishRequests requestIds finishedStatus
    · obtain ⟨requestIds, finishedStatus, rfl⟩ := hfinish
      obtain ⟨hr, hplace, hcount, hwritten⟩ := h.ends hstep hknown hgone
      obtain ⟨connector, hconnector, hwrites⟩ := (hwritten i).mp hputs
      obtain ⟨hsave, hbytes, -, hhashes⟩ := SimSharedStoreConnector.lt_writtenBlocks.mp hwrites
      rw [hcount] at hlt
      rcases List.mem_append.mp (hpart.perm.mem_iff.mp hknown) with hrunning | hqueued
      · rw [hplace, h.balanced.inPlace r hrunning]
        refine ⟨_, rfl, ?_⟩
        cases hn : l.engine.scheduledFor r with
        | none => exact hlt
        | some n =>
            -- what the step in flight adds fills no block up to here
            by_contra hge
            rw [Option.getD_some, Nat.not_lt] at hge
            have hsize : hasher.blockSize = connector.blockSize :=
              (blockHasher_eq hpolicy).trans (h.blockSize _ hconnector).symm
            rw [hsize] at hge hlt
            exact hnot ⟨requestIds, finishedStatus, rfl, r, hr, hrunning, n, hn, connector,
              hconnector, hsave, hbytes, hge.trans_lt hlt, hge.trans_lt hhashes⟩
      · rw [(hpart.queued r hqueued).numComputedTokens, Nat.zero_div] at hlt
        exact absurd hlt (Nat.not_lt_zero i)
    by_cases hupdate : ∃ schedulerOutput modelRunnerOutput outputs,
      event = .updateFromOutput schedulerOutput modelRunnerOutput outputs
    · obtain ⟨schedulerOutput, modelRunnerOutput, outputs, rfl⟩ := hupdate
      exact ⟨_, h.balanced.stops hstep hknown hgone, hlt⟩
    · refine absurd (hstep.scheduler.stays ?_ ?_ r hknown) hgone
      · exact fun requestIds finishedStatus heq => hfinish ⟨requestIds, finishedStatus, heq⟩
      · exact fun schedulerOutput modelRunnerOutput outputs heq =>
          hupdate ⟨schedulerOutput, modelRunnerOutput, outputs, heq⟩

/-! ### Over runs -/

theorem run_grounded {config : SchedulerConfig} {kvCacheConfig : KVCacheConfig}
    {enableCaching : Bool} {hashFn : HashInput H → H} {seed : ℕ}
    {asked : SimSharedStoreConnector H} {s₀ : Scheduler H} {events : List Event} {l : Ledger H}
    (hblock : asked.blockSize = kvCacheConfig.blockSize) (hnone : asked.pendingLoads = .empty)
    (hinit : Scheduler.init config kvCacheConfig enableCaching hashFn seed (some asked) = .ok s₀)
    (hrun : Run Step (opened ⟨s₀, none⟩) events l) : l.Grounded := by
  obtain ⟨hsettled, hstart, -⟩ := Scheduler.init_settled hinit
  have hconnector := Scheduler.init_connector hinit
  have hscheduler : Run Scheduler.Step s₀ events l.engine.scheduler :=
    Engine.run_scheduler (run_engine hrun)
  obtain ⟨hpolicy, hhashed⟩ := Scheduler.run_hashedAs hscheduler hsettled hstart
  have hrests : Scheduler.Rests s₀.connector l.engine.scheduler.connector := by
    apply Scheduler.run_rests hscheduler
    rw [hconnector]
    intro loads hloads
    rw [← Option.some.inj hloads]
    exact hnone
  refine ⟨run_balanced hrun (opened_balanced (Engine.init_paced hinit) hstart),
    fun r hr => hpolicy.symm ▸ hhashed r hr, fun connector hsome => ?_, hrests.empty⟩
  have hsame := hrests.same
  rw [SameConnector, hconnector, hsome] at hsame
  have hsetup : connector.setup = asked.setup := Option.some.inj hsame
  rw [(Scheduler.run_continues hscheduler hsettled).setup.kvCacheConfig,
    Scheduler.init_kvCacheConfig hinit, ← hblock]
  exact congrArg Prod.fst hsetup

/-- In every run with the connector: a step puts in the store only full blocks all of
whose positions are in place, and admits no request without a token to compute, if and
only if it does not end a request early. -/
theorem run_sound_iff {config : SchedulerConfig} {kvCacheConfig : KVCacheConfig}
    {enableCaching : Bool} {hashFn : HashInput H → H} {seed : ℕ}
    {asked : SimSharedStoreConnector H} {s₀ : Scheduler H} {events : List Event} {event : Event}
    {l l' : Ledger H} (hblock : asked.blockSize = kvCacheConfig.blockSize)
    (hnone : asked.pendingLoads = .empty)
    (hinit : Scheduler.init config kvCacheConfig enableCaching hashFn seed (some asked) = .ok s₀)
    (hrun : Run Step (opened ⟨s₀, none⟩) events l) (hstep : Step l event l') :
    Sound l event l' ↔ ¬ Early l event :=
  (run_grounded hblock hnone hinit hrun).sound_iff hstep

/-- A prompt is sent in one step, and its request ended: while the step is in flight, or
once its results are back. -/
def endRun : Except PyError (Scheduler Digest × Request Digest × SchedulerOutput ×
    Scheduler Digest × Scheduler Digest × Dict ℕ (List EngineCoreOutput) × Scheduler Digest ×
    Scheduler Digest) := do
  let s₀ ← Scheduler.init (Scheduler.shortConfig .fcfs) (Scheduler.shortKVConfig 8) true Digest.hash
    0 (some (Scheduler.storeConnector []))
  let request ← Request.init (.text 1 [1, 2, 3, 4, 5] 8)
  let (output, s₁) ← (s₀.addRequest request).schedule
  let early ← s₁.finishRequests [1] .finishedAborted
  let (outputs, s₂) ← s₁.updateFromOutput output (answerOne 1 [7] [])
  let late ← s₂.finishRequests [1] .finishedAborted
  return (s₀, request, output, s₁, early, outputs, s₂, late)

theorem endRun_reaches {s₀ s₁ s₂ early late : Scheduler Digest} {request : Request Digest}
    {output : SchedulerOutput} {outputs : Dict ℕ (List EngineCoreOutput)}
    (h : endRun = .ok (s₀, request, output, s₁, early, outputs, s₂, late)) :
    Scheduler.init (Scheduler.shortConfig .fcfs) (Scheduler.shortKVConfig 8) true Digest.hash 0
        (some (Scheduler.storeConnector [])) = .ok s₀ ∧
      Run Engine.Step ⟨s₀, none⟩ [.addRequest (.text 1 [1, 2, 3, 4, 5] 8), .schedule output]
        ⟨s₁, some output⟩ ∧
      s₁.finishRequests [1] .finishedAborted = .ok early ∧
      s₁.updateFromOutput output (answerOne 1 [7] []) = .ok (outputs, s₂) ∧
      s₂.finishRequests [1] .finishedAborted = .ok late := by
  unfold endRun at h
  obtain ⟨_, hinit, h⟩ := except_bind_iff.mp h
  obtain ⟨_, hrequest, h⟩ := except_bind_iff.mp h
  obtain ⟨⟨_, _⟩, hschedule, h⟩ := except_bind_iff.mp h
  obtain ⟨_, hearly, h⟩ := except_bind_iff.mp h
  obtain ⟨⟨_, _⟩, hupdate, h⟩ := except_bind_iff.mp h
  obtain ⟨_, hlate, h⟩ := except_bind_iff.mp h
  cases h
  obtain ⟨-, hnone, -⟩ := Scheduler.init_settled hinit
  have hfresh : (RequestArgs.text 1 [1, 2, 3, 4, 5] 8).requestId ∉ s₀.requests := by
    rw [hnone]
    exact List.not_mem_nil
  exact ⟨hinit, (Run.nil.snoc (.call (.addRequest hrequest hfresh) rfl)).snoc (.schedule hschedule),
    hearly, hupdate, hlate⟩

/-- Ended once its results are back, the request leaves the two blocks of its prompt. -/
theorem run_sound_late : ∃ (l l' : Ledger Digest),
    Sound l (.finishRequests [1] .finishedAborted) l' ∧
      InStore l'.engine.scheduler.connector ("m", Scheduler.firstDigest) ∧
      InStore l'.engine.scheduler.connector ("m", Scheduler.secondDigest) := by
  obtain ⟨⟨s₀, request, output, s₁, early, outputs, s₂, late⟩, hrun, hcheck⟩ :=
    exists_of_okAnd (x := endRun) (p := fun (_, _, output, s₁, _, _, _, late) =>
      decide (Answers s₁ output (answerOne 1 [7] [])) &&
      decide (late.connector.map (·.store.resident) =
        some [("m", Scheduler.firstDigest), ("m", Scheduler.secondDigest)])) (by decide +kernel)
  rw [Bool.and_eq_true, decide_eq_true_eq, decide_eq_true_eq] at hcheck
  obtain ⟨hanswers, hresident⟩ := hcheck
  obtain ⟨hinit, hsteps, -, hupdate, hlate⟩ := endRun_reaches hrun
  obtain ⟨l, hl, heq⟩ := exists_run (hsteps.snoc (.updateFromOutput hanswers hupdate))
  have hstep : Step l (.finishRequests [1] .finishedAborted)
      (l.enter ⟨late, none⟩ (.finishRequests [1] .finishedAborted)) := by
    refine .enter ?_
    rw [heq]
    exact .call (.finishRequests hlate) rfl
  obtain ⟨connector, hconnector, hstore⟩ := Option.map_eq_some_iff.mp hresident
  refine ⟨l, _, (run_sound_iff rfl rfl hinit hl hstep).mpr ?_, ⟨connector, hconnector, ?_⟩,
    ⟨connector, hconnector, ?_⟩⟩
  · rintro ⟨_, _, -, r, -, -, n, hn, -⟩
    rw [heq] at hn
    cases hn
  · rw [hstore]
    exact List.mem_cons_self
  · rw [hstore]
    exact List.mem_cons_of_mem _ List.mem_cons_self

/-- Ended while its one step is in flight, the request leaves two blocks of which
nothing is in place. -/
theorem endRun_early : ∃ (s₀ : Scheduler Digest) (events : List Event) (l l' : Ledger Digest),
    Scheduler.init (Scheduler.shortConfig .fcfs) (Scheduler.shortKVConfig 8) true Digest.hash 0
        (some (Scheduler.storeConnector [])) = .ok s₀ ∧
      Run Step (opened ⟨s₀, none⟩) events l ∧
      Step l (.finishRequests [1] .finishedAborted) l' ∧
      InStore l'.engine.scheduler.connector ("m", Scheduler.firstDigest) ∧
      l'.inPlace 1 = ∅ ∧ ¬ Sound l (.finishRequests [1] .finishedAborted) l' := by
  obtain ⟨⟨s₀, request, output, s₁, early, outputs, s₂, late⟩, hrun, hcheck⟩ :=
    exists_of_okAnd (x := endRun) (p := fun (_, _, output, s₁, early, _, _, _) =>
      decide (1 ∈ s₁.running ∧ output.numScheduledTokens.find 1 = some 5 ∧
        (s₁.request 1).numComputedTokens = 5 ∧ (s₁.request 1).blockHashes.length = 2 ∧
        s₁.connector.map (·.setup) = some (2, "m", true, true, 1)) &&
      decide (early.connector.map (·.store.resident) =
        some [("m", Scheduler.firstDigest), ("m", Scheduler.secondDigest)])) (by decide +kernel)
  rw [Bool.and_eq_true, decide_eq_true_eq, decide_eq_true_eq] at hcheck
  obtain ⟨⟨hrunning, hfind, hcount, hhashes, hsetup⟩, hresident⟩ := hcheck
  obtain ⟨hinit, hsteps, hearly, -⟩ := endRun_reaches hrun
  obtain ⟨⟨_, inPlace⟩, hl, rfl⟩ := exists_run hsteps
  have hgrounded := run_grounded rfl rfl hinit hl
  have hstep : Step ⟨⟨s₁, some output⟩, inPlace⟩ (.finishRequests [1] .finishedAborted)
      ⟨⟨early, some output⟩, inPlace⟩ := .enter (.call (.finishRequests hearly) rfl)
  obtain ⟨connector, hconnector, hstore⟩ := Option.map_eq_some_iff.mp hresident
  obtain ⟨asked, hasked, hbuilt⟩ := Option.map_eq_some_iff.mp hsetup
  simp only [SimSharedStoreConnector.setup, Prod.mk.injEq] at hbuilt
  obtain ⟨hsize, -, -, hsave, hbytes⟩ := hbuilt
  refine ⟨s₀, _, _, _, hinit, hl, hstep, ⟨connector, hconnector, ?_⟩, ?_, fun hsound => ?_⟩
  · rw [hstore]
    exact List.mem_cons_self
  · have hplace : inPlace 1 = Set.Iio ((s₁.request 1).numComputedTokens -
        (output.numScheduledTokens.find 1).getD 0) := hgrounded.balanced.inPlace 1 hrunning
    show inPlace 1 = ∅
    rw [hplace, hcount, hfind]
    ext position
    simp
  · refine (hgrounded.sound_iff hstep).mp hsound ⟨[1], _, rfl, 1, List.mem_cons_self, hrunning, 5,
      hfind, asked, hasked, hsave, ?_, ?_⟩
    · rw [hbytes]
      exact Nat.one_ne_zero
    · dsimp only
      rw [hcount, hhashes, hsize]
      decide

end Ledger

end Pvllm
