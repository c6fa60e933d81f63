import Pvllm.Core.Sched.Order
import Pvllm.Core.Sched.Progress

/-!
The maps of a step's decision against each other.

`Coherent` says that the maps of a `SchedulerOutput` are about the requests of
its batch. One rollback is missing: a victim that is preempted out of the batch
keeps its entry among the drafts. `Strands` is the point of the loops where that
happens, and a decision is coherent exactly where the loops never come to one.
-/

namespace Pvllm

variable {H : Type} [DecidableEq H]

/-- The parts of a decision agree on what is scheduled. -/
structure SchedulerOutput.Coherent (output : SchedulerOutput) : Prop where
  keys : ∀ r, r ∈ output.numScheduledTokens.keys ↔
    r ∈ output.scheduledNewReqs.map (·.reqId) ∨ r ∈ output.scheduledCachedReqs.reqIds
  disjoint : (output.scheduledNewReqs.map (·.reqId) ++ output.scheduledCachedReqs.reqIds).Nodup
  pos : ∀ r n, output.numScheduledTokens.find r = some n → 1 ≤ n
  total : output.totalNumScheduledTokens = (output.numScheduledTokens.items.map (·.2)).sum
  spec : ∀ r ∈ output.scheduledSpecDecodeTokens.keys, r ∈ output.numScheduledTokens.keys
  encoder : ∀ r ∈ output.scheduledEncoderInputs.keys, r ∈ output.numScheduledTokens.keys
  rows : ∀ r ∈ output.structuredOutputRequestIds.keys, r ∈ output.numScheduledTokens.keys
  preempted : ∀ r ∈ output.preemptedReqIds.getD [], r ∉ output.numScheduledTokens.keys
  drafts : ∀ r n, output.numScheduledTokens.find r = some n →
    (output.scheduledSpecDecodeTokens.findD r []).length ≤ n - 1
  newTokenIds : output.scheduledCachedReqs.newTokenIds.length =
    output.scheduledCachedReqs.reqIds.length
  newBlockIds : output.scheduledCachedReqs.newBlockIds.length =
    output.scheduledCachedReqs.reqIds.length
  numComputedTokens : output.scheduledCachedReqs.numComputedTokens.length =
    output.scheduledCachedReqs.reqIds.length
  numOutputTokens : output.scheduledCachedReqs.numOutputTokens.length =
    output.scheduledCachedReqs.reqIds.length

namespace StepState

variable {s : Scheduler H} {l l' : StepState H}

/-- A victim is about to be preempted for which drafts are in the batch. -/
def Strands (l : StepState H) : Prop :=
  ∃ r n kv victim, l.phase = .allocating r n ∧
    l.scheduler.kvCacheManager.allocateSlots (l.scheduler.request r) n 0 none 0 false =
      .ok (none, kv) ∧
    l.scheduler.selectVictim = .ok victim ∧ victim ∈ l.scheduledSpecDecodeTokens.keys

/-! ### Where the drafts stay with the batch -/

/-- The drafts placed are those of requests in the batch. -/
def Kept (l : StepState H) : Prop := ∀ r ∈ l.scheduledSpecDecodeTokens.keys, r ∈ l.batch

/-- Unless a victim is stranded, the drafts stay with the batch. -/
theorem Outcome.kept (h : Outcome l l') (hnot : ¬ l.Strands) (hk : l.Kept) : l'.Kept := by
  cases h with
  | rest hphase => exact hk
  | enter hphase => exact hk
  | pass hphase hr => exact hk
  | takeUp hphase hr hn hbudget hspec hlen => exact hk
  | @commit r n blocks kv hphase hok =>
      intro r' hr'
      show r' ∈ l.scheduledRunningReqs ++ [r] ++ _
      by_cases heq : r' = r
      · subst heq
        simp
      have hbefore : r' ∈ l.scheduledSpecDecodeTokens.keys := by
        unfold commitRunning at hr'
        dsimp only at hr'
        split at hr'
        · exact ((Dict.mem_keys_store ..).mp hr').resolve_left heq
        · exact hr'
      have hmem := hk r' hbefore
      rw [StepState.batch, List.mem_append] at hmem
      rw [List.mem_append, List.mem_append]
      exact hmem.imp_left Or.inl
  | @preempt r victim n kv inBatch blocks scheduled inputs cache encoderBudget tokenBudget reqIndex
      loras hphase hok hvictim hstatus hfree hbatch hinputs =>
      intro r' hr'
      have hmem := hk r' hr'
      rw [StepState.batch, List.mem_append] at hmem ⊢
      refine hmem.imp_left fun hmem => ?_
      rcases hbatch with ⟨-, rfl, -⟩ | ⟨-, -, rfl, -⟩
      · exact hmem
      · refine (List.mem_erase_of_ne ?_).mpr hmem
        rintro rfl
        exact hnot ⟨r, n, _, r', hphase, hok, hvictim, hr'⟩
  | close hphase hs => exact hk
  | setAside hphase hs hfree hpop => exact hk
  | lookUp hphase hs hpreempted hhits hexternal hrunning hn hbudget hlen => exact hk
  | decline hphase hok => exact hk
  | @accept r r' hits blocks numLocal numExternal n inputs kv waiting connector loras hphase hok
      hpop hstatus hconnector =>
      intro r'' hr''
      have hmem := hk r'' hr''
      rw [StepState.batch, List.mem_append, List.mem_append] at hmem ⊢
      refine hmem.imp_right fun hmem => ?_
      dsimp only
      split
      · exact hmem.imp_left (List.mem_append_left _)
      · exact hmem.imp_right (List.mem_append_left _)

theorem Loops.kept (hloops : Loops (start s) l)
    (hnot : ∀ l, Loops (start s) l → ¬ l.Strands) : l.Kept := by
  induction hloops with
  | refl => exact fun _ hr => absurd hr List.not_mem_nil
  | tail hloops hstep ih => exact (advance_outcome hstep).kept (hnot _ hloops) ih

/-! ### Where they do not -/

/-- What was preempted stays so for the call, and drafts that were placed are
never taken back. -/
theorem Outcome.sticks (h : Outcome l l') {r : RequestId}
    (hr : r ∈ l.preemptedReqs ∧ r ∈ l.scheduledSpecDecodeTokens.keys) :
    r ∈ l'.preemptedReqs ∧ r ∈ l'.scheduledSpecDecodeTokens.keys := by
  cases h with
  | commit hphase hok =>
      refine ⟨hr.1, ?_⟩
      unfold commitRunning
      dsimp only
      split
      · exact (Dict.mem_keys_store ..).mpr (Or.inr hr.2)
      · exact hr.2
  | preempt hphase hok hvictim hstatus hfree hbatch hinputs =>
      exact ⟨List.mem_append_left _ hr.1, hr.2⟩
  | rest hphase => exact hr
  | enter hphase => exact hr
  | pass hphase hr' => exact hr
  | takeUp hphase hr' hn hbudget hspec hlen => exact hr
  | close hphase hs => exact hr
  | setAside hphase hs hfree hpop => exact hr
  | lookUp hphase hs hpreempted hhits hexternal hrunning hn hbudget hlen => exact hr
  | decline hphase hok => exact hr
  | accept hphase hok hpop hstatus hconnector => exact hr

theorem Loops.to_end {l₁ : StepState H} (hloops : Loops (start s) l)
    (hend : Loops (start s) l₁) (hfinished : l₁.phase = .finished) : Loops l l₁ := by
  have hunique : Relator.RightUnique fun l l' : StepState H => l.advance = .ok l' := by
    intro a b c hb hc
    exact Except.ok.inj (hb.symm.trans hc)
  rcases Relation.ReflTransGen.total_of_right_unique hunique hloops hend with h | h
  · exact h
  · rw [Loops.stays h hfinished]

/-- A stranded victim is preempted at the end of the call, and has its drafts in
the decision. -/
theorem Strands.sticks {l₁ : StepState H} (hstrands : l.Strands) (hloops : Loops l l₁)
    (hfinished : l₁.phase = .finished) :
    ∃ r ∈ l₁.preemptedReqs, r ∈ l₁.scheduledSpecDecodeTokens.keys := by
  obtain ⟨r, n, kv, victim, hphase, hok, hvictim, hdrafts⟩ := hstrands
  rcases Relation.ReflTransGen.cases_head hloops with rfl | ⟨l', hstep, hrest⟩
  · rw [hphase] at hfinished
    cases hfinished
  have hnow : victim ∈ l'.preemptedReqs ∧ victim ∈ l'.scheduledSpecDecodeTokens.keys := by
    cases advance_outcome hstep with
    | rest h => rw [hphase] at h; cases h
    | enter h => rw [hphase] at h; cases h
    | pass h => rw [hphase] at h; cases h
    | takeUp h => rw [hphase] at h; cases h
    | commit h hok' =>
        rw [hphase] at h
        cases h
        rw [hok] at hok'
        cases hok'
    | preempt h hok' hvictim' =>
        rw [hvictim] at hvictim'
        obtain rfl := Except.ok.inj hvictim'
        exact ⟨List.mem_append_right _ (List.mem_singleton_self _), hdrafts⟩
    | close h => rw [hphase] at h; cases h
    | setAside h => rw [hphase] at h; cases h
    | lookUp h => rw [hphase] at h; cases h
    | decline h => rw [hphase] at h; cases h
    | accept h => rw [hphase] at h; cases h
  have hend := Loops.invariant hrest (P := fun l => victim ∈ l.preemptedReqs ∧
    victim ∈ l.scheduledSpecDecodeTokens.keys) hnow fun _ _ hstep h => hstep.sticks h
  exact ⟨victim, hend⟩

/-- Under the fcfs policy no victim is stranded. -/
theorem Batch.not_strands (hb : Batch l) (hfcfs : l.scheduler.config.policy = .fcfs) :
    ¬ l.Strands := by
  rintro ⟨r, n, kv, victim, hphase, hok, hvictim, hdrafts⟩
  have hover : l.phase.overRunning = true := by rw [hphase]; rfl
  have hrunning := (selectVictim_mem hvictim).1
  rcases hb.spec victim hdrafts with hin | hpreempted
  · rw [hb.batch_eq hover] at hin
    exact hb.fcfs_victim hphase hvictim hfcfs hin
  · exact hb.partition.not_running_of_waiting (hb.preempted victim hpreempted) hrunning

/-! ### What the output is built from -/

omit [DecidableEq H] in
theorem keys_foldl_store {κ ν : Type} [DecidableEq κ] (entries : List (κ × ν)) (d : Dict κ ν)
    {k : κ} (hk : k ∈ (entries.foldl (fun d entry => d.store entry.1 entry.2) d).keys) :
    k ∈ d.keys ∨ k ∈ entries.map (·.1) := by
  induction entries generalizing d with
  | nil => exact Or.inl hk
  | cons entry entries ih =>
      rcases ih _ hk with hk | hk
      · rcases (Dict.mem_keys_store ..).mp hk with rfl | hk
        · exact Or.inr List.mem_cons_self
        · exact Or.inl hk
      · exact Or.inr (List.mem_cons_of_mem _ hk)

omit [DecidableEq H] in
theorem structuredOutputRows_keys {rows : Dict RequestId ℕ} (h : l.structuredOutputRows = .ok rows)
    {r : RequestId} (hr : r ∈ rows.keys) : r ∈ l.numScheduledTokens.keys := by
  unfold structuredOutputRows at h
  dsimp only at h
  split at h
  · cases h
  obtain rfl := Except.ok.inj h
  rcases keys_foldl_store _ _ hr with hr | hr
  · exact absurd hr List.not_mem_nil
  · obtain ⟨⟨r', i⟩, hmem, rfl⟩ := List.mem_map.mp hr
    have hsorted := (List.of_mem_zip hmem).1
    exact List.mem_of_mem_filter (List.mem_mergeSort.mp hsorted)

omit [DecidableEq H] in
/-- The running requests of the batch have an entry in each of the parallel lists. -/
theorem makeCachedRequestData_lists {data : CachedRequestData}
    (h : l.makeCachedRequestData = .ok data) : data.reqIds = l.scheduledRunningReqs ∧
      data.newTokenIds.length = data.reqIds.length ∧
      data.newBlockIds.length = data.reqIds.length ∧
      data.numComputedTokens.length = data.reqIds.length ∧
      data.numOutputTokens.length = data.reqIds.length := by
  unfold makeCachedRequestData at h
  dsimp only at h
  split at h
  · cases h
  rename_i entries hentries
  obtain rfl := Except.ok.inj h
  have hlen := (mapM_ok hentries).length_eq
  exact ⟨rfl, (List.length_map ..).trans hlen.symm, (List.length_map ..).trans hlen.symm,
    List.length_map .., List.length_map ..⟩

/-- All but the drafts agree after any loops; the drafts do where they were kept. -/
theorem Finishes.coherent_iff {output : SchedulerOutput} {s' : Scheduler H} (hb : Batch l)
    (hp : Pace s l) (hfinished : l.phase = .finished) (h : Finishes l output s') :
    output.Coherent ↔ l.Kept := by
  have hnew := makeNewRequestData_reqIds hb.partition.requestId h.newReqs
  obtain ⟨hcached, hlists⟩ := makeCachedRequestData_lists h.cachedReqs
  have hkeys : ∀ r, r ∈ output.numScheduledTokens.keys ↔ r ∈ l.batch := fun r => by
    rw [h.scheduled]
    exact hb.keys r
  constructor
  · -- in a decision that agrees, drafts are of requests in the batch
    intro hcoherent r hr
    rw [← h.spec] at hr
    exact (hkeys r).mp (hcoherent.spec r hr)
  intro hkept
  constructor
  case keys =>
    intro r
    rw [hkeys, hnew, hcached, StepState.batch, List.mem_append]
    exact Or.comm
  case disjoint =>
    rw [hnew, hcached]
    exact (List.perm_append_comm.nodup_iff).mp hb.nodup
  case pos =>
    intro r n hfind
    rw [h.scheduled] at hfind
    exact hb.pos r n hfind
  case total => rw [h.total, h.scheduled]
  case spec =>
    intro r hr
    rw [h.spec] at hr
    exact (hkeys r).mpr (hkept r hr)
  case encoder =>
    intro r hr
    rw [h.encoder] at hr
    rcases hb.encoder r hr with hin | ⟨n, hphase⟩
    · exact (hkeys r).mpr hin
    · rw [hfinished] at hphase
      cases hphase
  case rows =>
    intro r hr
    rw [h.scheduled]
    exact structuredOutputRows_keys h.rows hr
  case preempted =>
    intro r hr hin
    have hr' : r ∈ l.preemptedReqs := by
      rw [h.preempted] at hr
      split at hr
      · cases hr
      · exact hr
    exact hb.partition.not_running_of_waiting (hb.preempted r hr')
      (hb.running r ((hkeys r).mp hin))
  case drafts =>
    intro r n hfind
    rw [h.scheduled] at hfind
    have hbehind := hp.behind r ((hb.keys r).mp ((Dict.mem_keys_iff ..).mpr ⟨n, hfind⟩))
    have hsent := (hp.sent r n hfind).2
    rw [h.spec]
    omega
  case newTokenIds => exact hlists.1
  case newBlockIds => exact hlists.2.1
  case numComputedTokens => exact hlists.2.2.1
  case numOutputTokens => exact hlists.2.2.2

end StepState

namespace Engine

/-- In every state a run of the engine comes to, a decision is coherent exactly
where its loops strand no victim. -/
theorem run_coherent_iff {config : SchedulerConfig} {kvCacheConfig : KVCacheConfig}
    {enableCaching : Bool} {hashFn : HashInput H → H} {seed : ℕ}
    {connector : Option (SimSharedStoreConnector H)} {s₀ s s' : Scheduler H} {events : List Event}
    {output : SchedulerOutput}
    (hinit : Scheduler.init config kvCacheConfig enableCaching hashFn seed connector = .ok s₀)
    (hrun : Run Step ⟨s₀, none⟩ events ⟨s, none⟩) (hok : s.schedule = .ok (output, s')) :
    output.Coherent ↔ ∀ l, StepState.Loops (StepState.start s) l → ¬ l.Strands := by
  have hpaced := run_paced hrun (init_paced hinit)
  obtain ⟨l, hloops, hfinished, hfinishes⟩ := Scheduler.schedule_ok hok
  have hb := hloops.batch hpaced.settled.partition
  have hp := hloops.pace hpaced.settled.partition hpaced.start
  rw [hfinishes.coherent_iff hb hp hfinished]
  constructor
  · intro hkept l₁ hl₁ hstrands
    obtain ⟨r, hpreempted, hdrafts⟩ := hstrands.sticks (hl₁.to_end hloops hfinished) hfinished
    exact hb.partition.not_running_of_waiting (hb.preempted r hpreempted)
      (hb.running r (hkept r hdrafts))
  · exact hloops.kept

/-- The results of a step of some requests: what each sampled, and its drafts. -/
def answerAll (entries : List (RequestId × List TokenId × List TokenId)) : ModelRunnerOutput where
  reqIds := entries.map (·.1)
  reqIdToIndex := (entries.map (·.1)).zipIdx.foldl
    (fun index entry => index.store entry.1 entry.2) .empty
  sampledTokenIds := entries.map (·.2.1)
  specTokenIds := some (entries.map (·.2.2))
  poolerOutput := none

/-- A request is in the batch with a draft when one that comes before it needs
its blocks. -/
def strandRun : Except PyError (Request Digest × Request Digest × Scheduler Digest ×
    SchedulerOutput × Scheduler Digest × SchedulerOutput × Scheduler Digest × SchedulerOutput ×
    Scheduler Digest) := do
  let s₀ ← Scheduler.init (Scheduler.shortConfig .priority) (Scheduler.shortKVConfig 4) true
    Digest.hash 0 none
  let later ← Request.init { RequestArgs.text 1 [1, 2] 8 with priority := 1 }
  let (output₁, s₁) ← (s₀.addRequest later).schedule
  let (_, s₂) ← s₁.updateFromOutput output₁ (answerAll [(1, [7], [8, 9])])
  let sooner ← Request.init (.text 2 [3, 4] 8)
  let (output₂, s₃) ← (s₂.addRequest sooner).schedule
  let (_, s₄) ← s₃.updateFromOutput output₂ (answerAll [(1, [8, 11], [12]), (2, [20], [])])
  let (output₃, s₅) ← s₄.schedule
  return (later, sooner, s₁, output₁, s₃, output₂, s₄, output₃, s₅)

theorem strandRun_reaches : ∃ (s₀ s s' : Scheduler Digest) (events : List Event)
    (output : SchedulerOutput),
    Scheduler.init (Scheduler.shortConfig .priority) (Scheduler.shortKVConfig 4) true Digest.hash 0
      none = .ok s₀ ∧ Run Step ⟨s₀, none⟩ events ⟨s, none⟩ ∧ s.schedule = .ok (output, s') ∧
      1 ∈ output.scheduledSpecDecodeTokens.keys ∧ 1 ∉ output.numScheduledTokens.keys := by
  obtain ⟨⟨later, sooner, s₁, output₁, s₃, output₂, s₄, output₃, s₅⟩, hrun, hcheck⟩ :=
    exists_of_okAnd (x := strandRun)
      (p := fun (later, sooner, s₁, output₁, s₃, output₂, s₄, output₃, s₅) =>
        decide (Answers s₁ output₁ (answerAll [(1, [7], [8, 9])]) ∧
          Answers s₃ output₂ (answerAll [(1, [8, 11], [12]), (2, [20], [])]) ∧
          s₁.requests = [1] ∧ 1 ∈ output₃.scheduledSpecDecodeTokens.keys ∧
          1 ∉ output₃.numScheduledTokens.keys)) (by decide +kernel)
  obtain ⟨hanswers₁, hanswers₂, hknown, hdrafts, hout⟩ := of_decide_eq_true hcheck
  unfold strandRun at hrun
  obtain ⟨s₀, hinit, hrun⟩ := except_bind_iff.mp hrun
  obtain ⟨_, hlater, hrun⟩ := except_bind_iff.mp hrun
  obtain ⟨⟨_, _⟩, hfirst, hrun⟩ := except_bind_iff.mp hrun
  obtain ⟨⟨_, s₂⟩, hback₁, hrun⟩ := except_bind_iff.mp hrun
  obtain ⟨_, hsooner, hrun⟩ := except_bind_iff.mp hrun
  obtain ⟨⟨_, _⟩, hsecond, hrun⟩ := except_bind_iff.mp hrun
  obtain ⟨⟨_, _⟩, hback₂, hrun⟩ := except_bind_iff.mp hrun
  obtain ⟨⟨_, _⟩, hthird, hrun⟩ := except_bind_iff.mp hrun
  cases hrun
  obtain ⟨-, hnone, -⟩ := Scheduler.init_settled hinit
  have hfresh₁ : 1 ∉ s₀.requests := by
    rw [hnone]
    exact List.not_mem_nil
  have hfresh₂ : 2 ∉ s₂.requests := fun hmem => by
    rcases (Scheduler.Step.updateFromOutput hback₁).known hmem with h | h
    · rw [hknown] at h
      cases h with
      | tail _ h => cases h
    · cases h
  have hsteps := (((((Run.nil.snoc (Step.call (.addRequest hlater hfresh₁) rfl)).snoc
    (Step.schedule hfirst)).snoc (Step.updateFromOutput hanswers₁ hback₁)).snoc
    (Step.call (.addRequest hsooner hfresh₂) rfl)).snoc
    (Step.schedule hsecond)).snoc (Step.updateFromOutput hanswers₂ hback₂)
  exact ⟨s₀, s₄, s₅, _, output₃, hinit, hsteps, hthird, hdrafts, hout⟩

/-- A decision can have drafts for a request that it does not schedule. -/
theorem run_incoherent : ∃ (s₀ s s' : Scheduler Digest) (events : List Event)
    (output : SchedulerOutput),
    Scheduler.init (Scheduler.shortConfig .priority) (Scheduler.shortKVConfig 4) true Digest.hash 0
      none = .ok s₀ ∧ Run Step ⟨s₀, none⟩ events ⟨s, none⟩ ∧ s.schedule = .ok (output, s') ∧
      ¬ output.Coherent := by
  obtain ⟨s₀, s, s', events, output, hinit, hrun, hok, hdrafts, hout⟩ := strandRun_reaches
  exact ⟨s₀, s, s', events, output, hinit, hrun, hok, fun hcoherent =>
    hout (hcoherent.spec 1 hdrafts)⟩

/-- There, a victim was stranded. -/
theorem run_coherent_iff_stranded : ∃ (s : Scheduler Digest) (l : StepState Digest),
    StepState.Loops (StepState.start s) l ∧ l.Strands := by
  obtain ⟨s₀, s, s', events, output, hinit, hrun, hok, hdrafts, hout⟩ := strandRun_reaches
  have hiff := run_coherent_iff hinit hrun hok
  refine ⟨s, ?_⟩
  by_contra hnone
  push Not at hnone
  exact hout ((hiff.mpr hnone).spec 1 hdrafts)

end Engine

end Pvllm
