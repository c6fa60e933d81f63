import Pvllm.Core.Sched.Scheduler

/-!
What one step of the loops of `schedule` can do.

`Outcome` lists the ways from one point of the loops to the next, each with the
guards that lead to it and the state it leaves. `advance_outcome` derives the
list from the code once; every invariant of the loops is a case analysis over
it.
-/

namespace Pvllm

variable {H : Type} [DecidableEq H]

namespace KVCacheManager

/-- Declining changes nothing. -/
theorem allocateSlots_none {m m' : KVCacheManager H} {request : Request H}
    {numNewTokens numNewComputedTokens : ℕ} {newComputedBlocks : Option (List (List BlockId))}
    {numLookaheadTokens : ℕ} {delayCacheBlocks : Bool}
    (hok : m.allocateSlots request numNewTokens numNewComputedTokens newComputedBlocks
      numLookaheadTokens delayCacheBlocks = .ok (none, m')) : m' = m := by
  unfold allocateSlots at hok
  split at hok
  · cases hok
  dsimp only at hok
  split at hok
  · cases hok
  split at hok
  · exact (Prod.mk.inj (Except.ok.inj hok)).2.symm
  split at hok
  · cases hok
  split at hok
  · cases hok
  split at hok
  · cases (Prod.mk.inj (Except.ok.inj hok)).1
  · cases (Prod.mk.inj (Except.ok.inj hok)).1

end KVCacheManager

namespace StepState

/-! ### Small changes to the scheduler -/

section

omit [DecidableEq H]

variable (s : Scheduler H) (r : RequestId)

/-- Dropping drafts touches one request, and of that one nothing else. -/
theorem disableSpeculation_eq :
    disableSpeculation s r = s ∨
      disableSpeculation s r = s.modifyRequest r (·.withSpecTokenIds []) := by
  unfold disableSpeculation
  split
  · exact Or.inl rfl
  · split
    · exact Or.inr rfl
    · exact Or.inl rfl

end

/-- The connector as it is, or after it was asked for a prompt: the store has
counted the lookup. -/
def Asked (connector connector' : Option (SimSharedStoreConnector H)) : Prop :=
  connector' = connector ∨ ∃ asked request n, connector = some asked ∧
    connector' = some (asked.getNumNewMatchedTokens request n).2

/-- What the steps before an admission leave: the head of the queue may have been
promoted, the prefix cache and the connector may have been asked, and encoder
inputs may have been reserved. -/
structure Prepared (s s' : Scheduler H) (r : RequestId) : Prop where
  head : s.waiting.items.head? = some r
  frame : s' = { s with
    request := s'.request
    kvCacheManager := s'.kvCacheManager
    connector := s'.connector
    encoderCacheManager := s'.encoderCacheManager
    grammarCompileErrorReqs := s'.grammarCompileErrorReqs }
  table : s'.request = s.request ∨
    (s.request r).status = .waitingForStructuredOutputGrammar ∧
    ∃ status, (status = .waiting ∨ status = .preempted) ∧
      s'.request = Function.update s.request r ((s.request r).withStatus status)
  lookup : s'.kvCacheManager = s.kvCacheManager ∨
    ∃ result, s.kvCacheManager.getComputedBlocks (s'.request r) = .ok (result, s'.kvCacheManager)
  connector : Asked s.connector s'.connector

/-- The ways from one point of the loops to the next. -/
inductive Outcome (l : StepState H) : StepState H → Prop
  /-- After the loops nothing moves. -/
  | rest (hphase : l.phase = .finished) : Outcome l l
  /-- The loop over the running requests is over. -/
  | enter {loras : List ℕ} (hphase : l.phase = .running)
      (hover : l.tokenBudget = 0 ∨ l.scheduler.running[l.reqIndex]? = none) :
      Outcome l { l with
        scheduledLoras := loras
        phase := if l.preemptedReqs = [] then .admission else .finished }
  /-- A running request gets nothing this step: it is at the window, or an item of it
  does not fit. -/
  | pass {r : RequestId} {cache : EncoderCacheManager} {budget : ℕ}
      (hphase : l.phase = .running) (hr : l.scheduler.running[l.reqIndex]? = some r)
      (hnone : l.scheduler.config.maxModelLen ≤ (l.scheduler.request r).numComputedTokens ∨
        ∃ feature ∈ (l.scheduler.request r).mmFeatures,
          (l.scheduler.request r).numComputedTokens < feature.position + feature.length) :
      Outcome l { l with
        scheduler := { disableSpeculation l.scheduler r with encoderCacheManager := cache }
        encoderBudget := budget
        reqIndex := l.reqIndex + 1 }
  /-- A running request is to get `n` tokens. -/
  | takeUp {r : RequestId} {n : ℕ} {inputs : List ℕ} {cache : EncoderCacheManager} {budget : ℕ}
      (hphase : l.phase = .running) (hr : l.scheduler.running[l.reqIndex]? = some r)
      (hn : 0 < n) (hbudget : n ≤ l.tokenBudget)
      (hspec : n + (l.scheduler.request r).numComputedTokens ≤
        ((disableSpeculation l.scheduler r).request r).numTokensWithSpec)
      (hlen : n + (l.scheduler.request r).numComputedTokens ≤ l.scheduler.config.maxModelLen) :
      Outcome l { l with
        scheduler := { disableSpeculation l.scheduler r with encoderCacheManager := cache }
        encoderBudget := budget
        scheduledEncoderInputs :=
          if inputs = [] then l.scheduledEncoderInputs
          else l.scheduledEncoderInputs.store r inputs
        phase := .allocating r n }
  /-- The slots were there: the request is in the batch. -/
  | commit {r : RequestId} {n : ℕ} {blocks : List (List BlockId)} {kv : KVCacheManager H}
      (hphase : l.phase = .allocating r n)
      (hok : l.scheduler.kvCacheManager.allocateSlots (l.scheduler.request r) n 0 none 0 false =
        .ok (some blocks, kv)) :
      Outcome l (l.commitRunning r n blocks kv)
  /-- They were not, and a victim was preempted; where that is the request
  itself, the loop is over. -/
  | preempt {r victim : RequestId} {n : ℕ} {kv : KVCacheManager H}
      {inBatch : List RequestId} {blocks : Dict RequestId (List (List BlockId))}
      {scheduled : Dict RequestId ℕ} {inputs : Dict RequestId (List ℕ)}
      {cache : EncoderCacheManager} {encoderBudget tokenBudget reqIndex : ℕ} {loras : List ℕ}
      (hphase : l.phase = .allocating r n)
      (hok : l.scheduler.kvCacheManager.allocateSlots (l.scheduler.request r) n 0 none 0 false =
        .ok (none, l.scheduler.kvCacheManager))
      (hvictim : l.scheduler.selectVictim = .ok victim)
      (hstatus : (l.scheduler.request victim).status = .running)
      (hfree : l.scheduler.kvCacheManager.free victim = .ok kv)
      (hbatch : (l.scheduler.config.policy = .fcfs ∨ victim ∉ l.scheduledRunningReqs) ∧
          inBatch = l.scheduledRunningReqs ∧ blocks = l.reqToNewBlocks ∧
          scheduled = l.numScheduledTokens ∧ tokenBudget = l.tokenBudget ∧
          reqIndex = l.reqIndex ∨
        l.scheduler.config.policy = .priority ∧ victim ∈ l.scheduledRunningReqs ∧
          inBatch = l.scheduledRunningReqs.erase victim ∧
          blocks = l.reqToNewBlocks.delete victim ∧
          scheduled = l.numScheduledTokens.delete victim ∧
          (∃ m, l.numScheduledTokens.find victim = some m ∧ tokenBudget = l.tokenBudget + m) ∧
          reqIndex = l.reqIndex - 1)
      (hinputs : inputs = l.scheduledEncoderInputs.delete victim) :
      Outcome l { l with
        scheduler := { l.scheduler with
          kvCacheManager := kv
          request := Function.update l.scheduler.request victim
            (l.scheduler.request victim).preempted
          running := if l.scheduler.config.policy = .fcfs then l.scheduler.running.dropLast
            else l.scheduler.running.erase victim
          waiting := l.scheduler.waiting.prependRequest
            (Function.update l.scheduler.request victim (l.scheduler.request victim).preempted)
            victim
          numPreemptionsTotal := l.scheduler.numPreemptionsTotal + 1
          encoderCacheManager := cache }
        scheduledRunningReqs := inBatch
        preemptedReqs := l.preemptedReqs ++ [victim]
        reqToNewBlocks := blocks
        numScheduledTokens := scheduled
        scheduledEncoderInputs := inputs
        encoderBudget := encoderBudget
        tokenBudget := tokenBudget
        reqIndex := reqIndex
        scheduledLoras := loras
        phase := if victim = r then .finished else .allocating r n }
  /-- The admission loop is over. -/
  | close {s : Scheduler H} (hphase : l.phase = .admission)
      (hs : s = l.scheduler ∨ ∃ r, Prepared l.scheduler s r) :
      Outcome l { l with scheduler := s, phase := .finished }
  /-- The head of the queue is set aside. -/
  | setAside {s : Scheduler H} {r : RequestId} {kv : KVCacheManager H} {waiting : RequestQueue}
      {budget : ℕ} (hphase : l.phase = .admission) (hs : Prepared l.scheduler s r)
      (hfree : kv = s.kvCacheManager ∨ s.kvCacheManager.free r = .ok kv)
      (hpop : s.waiting.popRequest = .ok (r, waiting)) :
      Outcome l { l with
        scheduler := { s with
          kvCacheManager := kv
          waiting := waiting
          skippedWaiting := s.skippedWaiting.addRequest s.request r }
        encoderBudget := budget
        phase := .admission }
  /-- The head of the queue is to get `n` tokens. -/
  | lookUp {s : Scheduler H} {r : RequestId} {hits : List (List BlockId)}
      {numLocal numExternal n : ℕ} {inputs : List ℕ} {budget : ℕ}
      (hphase : l.phase = .admission) (hs : Prepared l.scheduler s r)
      (hpreempted : (s.request r).status ≠ .waitingForStructuredOutputGrammar)
      (hhits : l.scheduler.kvCacheManager.getComputedBlocks (s.request r) =
        .ok ((hits, numLocal), s.kvCacheManager))
      (hexternal : numExternal = (matchExternal l.scheduler (s.request r) numLocal).1)
      (hrunning : l.scheduler.running.length < l.scheduler.config.maxNumRunningReqs)
      (hn : 0 < n) (hbudget : n ≤ l.tokenBudget)
      (hlen : n + (numLocal + numExternal) ≤ (s.request r).numTokens)
      (hprefills : l.scheduler.config.enableChunkedPrefill = true →
        l.scheduler.numPartialPrefills < l.scheduler.config.maxNumPartialPrefills)
      (hwhole : l.scheduler.config.enableChunkedPrefill = false →
        capShare l.scheduler.config.longPrefillTokenThreshold
          ((s.request r).numTokens - (numLocal + numExternal)) ≤ l.tokenBudget)
      (hshare : (s.request r).mmFeatures = [] →
        n = min (capShare l.scheduler.config.longPrefillTokenThreshold
          ((s.request r).numTokens - (numLocal + numExternal))) l.tokenBudget) :
      Outcome l { l with
        scheduler := s
        encoderBudget := budget
        phase := .admitting r hits numLocal numExternal n inputs }
  /-- The slots were not there. -/
  | decline {r : RequestId} {hits : List (List BlockId)} {numLocal numExternal n : ℕ}
      {inputs : List ℕ} {cache : EncoderCacheManager} {budget : ℕ}
      (hphase : l.phase = .admitting r hits numLocal numExternal n inputs)
      (hok : l.scheduler.kvCacheManager.allocateSlots (l.scheduler.request r) n
        (numLocal + numExternal) (some hits) 0 false = .ok (none, l.scheduler.kvCacheManager)) :
      Outcome l { l with
        scheduler := { l.scheduler with encoderCacheManager := cache }
        scheduledEncoderInputs := l.scheduledEncoderInputs.delete r
        encoderBudget := budget
        phase := .finished }
  /-- The request is in the batch. -/
  | accept {r r' : RequestId} {hits blocks : List (List BlockId)} {numLocal numExternal n : ℕ}
      {inputs : List ℕ} {kv : KVCacheManager H} {waiting : RequestQueue}
      {connector : Option (SimSharedStoreConnector H)} {loras : List ℕ}
      (hphase : l.phase = .admitting r hits numLocal numExternal n inputs)
      (hok : l.scheduler.kvCacheManager.allocateSlots (l.scheduler.request r) n
        (numLocal + numExternal) (some hits) 0 false = .ok (some blocks, kv))
      (hpop : l.scheduler.waiting.popRequest = .ok (r', waiting))
      (hstatus : (l.scheduler.request r').status = .waiting ∨
        (l.scheduler.request r').status = .preempted)
      (hconnector : connector = if numExternal = 0 then l.scheduler.connector
        else l.scheduler.connector.map
          (·.updateStateAfterAlloc (l.scheduler.request r') (kv.getBlocks r') numExternal)) :
      Outcome l { l with
        scheduler := { l.scheduler with
          kvCacheManager := kv
          request := Function.update l.scheduler.request r'
            ((l.scheduler.request r').admitted (numLocal + numExternal) numLocal)
          running := l.scheduler.running ++ [r']
          waiting := waiting
          pendingScheduled := l.scheduler.pendingScheduled ++ [r']
          connector := connector }
        scheduledNewReqs := if (l.scheduler.request r').status = .waiting
          then l.scheduledNewReqs ++ [r'] else l.scheduledNewReqs
        scheduledResumedReqs := if (l.scheduler.request r').status = .waiting
          then l.scheduledResumedReqs else l.scheduledResumedReqs ++ [r']
        reqToNewBlocks := l.reqToNewBlocks.store r' (kv.getBlocks r')
        numScheduledTokens := l.numScheduledTokens.store r' n
        scheduledEncoderInputs := if inputs = [] then l.scheduledEncoderInputs
          else l.scheduledEncoderInputs.store r' inputs
        tokenBudget := l.tokenBudget - n
        scheduledLoras := loras
        phase := .admission }

/-! ### The list is complete -/

variable {l l' : StepState H}

omit [DecidableEq H] in
theorem enterAdmission_ok (h : l.enterAdmission = .ok l') :
    ∃ loras, l' = { l with
      scheduledLoras := loras
      phase := if l.preemptedReqs = [] then .admission else .finished } := by
  unfold enterAdmission at h
  dsimp only at h
  split at h
  · exact ⟨l.scheduledLoras, (Except.ok.inj h).symm⟩
  · split at h
    · cases h
    · exact ⟨_, (Except.ok.inj h).symm⟩

omit [DecidableEq H] in
theorem scheduleEncoderLoop_le {request : Request H} {n maxTokens : ℕ}
    {items : List (ℕ × MultiModalFeatureSpec)} {scheduled inputs : List ℕ} {budget budget' : ℕ}
    {cache cache' : EncoderCacheManager} {n' : ℕ}
    (h : Scheduler.scheduleEncoderLoop request n maxTokens items scheduled budget cache =
      .ok (n', inputs, budget', cache')) : n' ≤ n := by
  induction items generalizing scheduled budget cache with
  | nil =>
      simp only [Scheduler.scheduleEncoderLoop, Except.ok.injEq, Prod.mk.injEq] at h
      exact h.1 ▸ le_rfl
  | cons item items ih =>
      obtain ⟨inputId, feature⟩ := item
      simp only [Scheduler.scheduleEncoderLoop] at h
      split at h
      · exact ih h
      rename_i htouches
      rw [not_or, Nat.not_le, Nat.not_le] at htouches
      have htrim : feature.position - request.numComputedTokens ≤ n := by omega
      split at h
      · exact ih h
      split at h
      · exact ih h
      split at h
      · cases h
      split at h
      · simp only [Except.ok.injEq, Prod.mk.injEq] at h
        exact h.1 ▸ htrim
      split at h
      · cases h
      · simp only [Except.ok.injEq, Prod.mk.injEq] at h
        exact h.1 ▸ htrim
      · exact ih h

omit [DecidableEq H] in
theorem scheduleEncoder_le {s : Scheduler H} {r : RequestId} {n budget n' budget' : ℕ}
    {inputs : List ℕ} {cache : EncoderCacheManager}
    (h : s.scheduleEncoder r n budget = .ok (n', inputs, budget', cache)) : n' ≤ n := by
  unfold Scheduler.scheduleEncoder at h
  dsimp only at h
  split at h
  · simp only [Except.ok.injEq, Prod.mk.injEq] at h
    exact h.1 ▸ le_rfl
  · exact scheduleEncoderLoop_le h

omit [DecidableEq H] in
/-- An item that trims a step reaches past what is computed. -/
theorem scheduleEncoderLoop_trim {request : Request H} {n maxTokens : ℕ}
    {items : List (ℕ × MultiModalFeatureSpec)} {scheduled inputs : List ℕ} {budget budget' : ℕ}
    {cache cache' : EncoderCacheManager} {n' : ℕ}
    (h : Scheduler.scheduleEncoderLoop request n maxTokens items scheduled budget cache =
      .ok (n', inputs, budget', cache')) (hlt : n' < n) :
    ∃ item ∈ items, request.numComputedTokens < item.2.position + item.2.length := by
  induction items generalizing scheduled budget cache with
  | nil =>
      simp only [Scheduler.scheduleEncoderLoop, Except.ok.injEq, Prod.mk.injEq] at h
      omega
  | cons item items ih =>
      obtain ⟨inputId, feature⟩ := item
      have hlater : ∀ {scheduled budget cache},
          Scheduler.scheduleEncoderLoop request n maxTokens items scheduled budget cache =
            .ok (n', inputs, budget', cache') →
          ∃ item ∈ (inputId, feature) :: items,
            request.numComputedTokens < item.2.position + item.2.length := by
        intro scheduled budget cache h
        obtain ⟨item, hitem, hpast⟩ := ih h
        exact ⟨item, List.mem_cons_of_mem _ hitem, hpast⟩
      simp only [Scheduler.scheduleEncoderLoop] at h
      split at h
      · exact hlater h
      rename_i htouches
      rw [not_or, Nat.not_le, Nat.not_le] at htouches
      exact ⟨_, List.mem_cons_self, htouches.2⟩

omit [DecidableEq H] in
theorem scheduleEncoder_trim {s : Scheduler H} {r : RequestId} {n budget n' budget' : ℕ}
    {inputs : List ℕ} {cache : EncoderCacheManager}
    (h : s.scheduleEncoder r n budget = .ok (n', inputs, budget', cache)) (hlt : n' < n) :
    ∃ feature ∈ (s.request r).mmFeatures,
      (s.request r).numComputedTokens < feature.position + feature.length := by
  unfold Scheduler.scheduleEncoder at h
  dsimp only at h
  split at h
  · simp only [Except.ok.injEq, Prod.mk.injEq] at h
    omega
  · obtain ⟨⟨inputId, feature⟩, hitem, hpast⟩ := scheduleEncoderLoop_trim h hlt
    obtain ⟨i, hi, heq⟩ := List.mem_mapIdx.mp hitem
    obtain ⟨-, rfl⟩ := Prod.mk.inj heq
    exact ⟨_, List.getElem_mem hi, hpast⟩

omit [DecidableEq H] in
theorem scheduleEncoder_text {s : Scheduler H} {r : RequestId} {n budget n' budget' : ℕ}
    {inputs : List ℕ} {cache : EncoderCacheManager} (hnone : (s.request r).mmFeatures = [])
    (h : s.scheduleEncoder r n budget = .ok (n', inputs, budget', cache)) : n' = n := by
  unfold Scheduler.scheduleEncoder at h
  rw [if_pos hnone] at h
  exact (Prod.mk.inj (Except.ok.inj h)).1.symm

omit [DecidableEq H] in
theorem capShare_le (threshold n : ℕ) : capShare threshold n ≤ n := by
  unfold capShare
  split
  · rename_i h
    exact h.2.le
  · exact le_rfl

omit [DecidableEq H] in
theorem capShare_pos (threshold : ℕ) {n : ℕ} (h : 0 < n) : 0 < capShare threshold n := by
  unfold capShare
  split
  · rename_i hcap
    exact hcap.1
  · exact h

omit [DecidableEq H] in
@[simp] theorem disableSpeculation_config (s : Scheduler H) (r : RequestId) :
    (disableSpeculation s r).config = s.config := by
  rcases disableSpeculation_eq s r with h | h
  · rw [h]
  · rw [h, Scheduler.modifyRequest]

omit [DecidableEq H] in
@[simp] theorem disableSpeculation_numComputedTokens (s : Scheduler H) (r r' : RequestId) :
    ((disableSpeculation s r).request r').numComputedTokens =
      (s.request r').numComputedTokens := by
  rcases disableSpeculation_eq s r with h | h
  · rw [h]
  · rw [h]
    by_cases hr : r' = r
    · subst hr
      simp [Scheduler.modifyRequest, Request.withSpecTokenIds]
    · simp [Scheduler.modifyRequest, hr]

omit [DecidableEq H] in
@[simp] theorem disableSpeculation_mmFeatures (s : Scheduler H) (r r' : RequestId) :
    ((disableSpeculation s r).request r').mmFeatures = (s.request r').mmFeatures := by
  rcases disableSpeculation_eq s r with h | h
  · rw [h]
  · rw [h]
    by_cases hr : r' = r
    · subst hr
      simp [Scheduler.modifyRequest, Request.withSpecTokenIds]
    · simp [Scheduler.modifyRequest, hr]

omit [DecidableEq H] in
/-- Dropping drafts leaves everything but the table alone. -/
theorem disableSpeculation_frame (s : Scheduler H) (r : RequestId) :
    disableSpeculation s r = { s with request := (disableSpeculation s r).request } := by
  rcases disableSpeculation_eq s r with h | h
  · rw [h]
  · rw [h, Scheduler.modifyRequest]

omit [DecidableEq H] in
@[simp] theorem disableSpeculation_running (s : Scheduler H) (r : RequestId) :
    (disableSpeculation s r).running = s.running := by
  rw [disableSpeculation_frame]

omit [DecidableEq H] in
@[simp] theorem disableSpeculation_waiting (s : Scheduler H) (r : RequestId) :
    (disableSpeculation s r).waiting = s.waiting := by
  rw [disableSpeculation_frame]

theorem runningStep_outcome (hphase : l.phase = .running) (h : l.runningStep = .ok l') :
    Outcome l l' := by
  unfold runningStep at h
  split at h
  · rename_i hnone
    obtain ⟨loras, rfl⟩ := enterAdmission_ok h
    exact .enter hphase (Or.inr hnone)
  rename_i r hr
  split at h
  · rename_i hbudget
    obtain ⟨loras, rfl⟩ := enterAdmission_ok h
    exact .enter hphase (Or.inl hbudget)
  rename_i hbudget
  dsimp only at h
  split at h
  · cases h
  rename_i hahead
  have hcap := capShare_le (disableSpeculation l.scheduler r).config.longPrefillTokenThreshold
    (((disableSpeculation l.scheduler r).request r).numTokensWithSpec -
      ((disableSpeculation l.scheduler r).request r).numComputedTokens)
  have hpos := capShare_pos (disableSpeculation l.scheduler r).config.longPrefillTokenThreshold
    (Nat.sub_pos_of_lt (Nat.not_le.mp hahead))
  rw [disableSpeculation_numComputedTokens] at hahead hcap hpos
  split at h
  · rename_i hzero
    obtain rfl := Except.ok.inj h
    rw [disableSpeculation_numComputedTokens, disableSpeculation_config] at hzero
    rw [disableSpeculation_config] at hpos
    exact .pass hphase hr (Or.inl (by omega))
  rename_i hsome
  split at h
  · cases h
  rename_i n inputs budget cache henc
  have hle := scheduleEncoder_le henc
  split at h
  · rename_i hzero
    obtain rfl := Except.ok.inj h
    have htrim := scheduleEncoder_trim henc (by omega)
    rw [disableSpeculation_numComputedTokens, disableSpeculation_mmFeatures] at htrim
    exact .pass hphase hr (Or.inr htrim)
  · rename_i hn
    obtain rfl := Except.ok.inj h
    rw [disableSpeculation_numComputedTokens] at hle
    rw [disableSpeculation_config] at hle hcap
    refine .takeUp hphase hr (Nat.pos_of_ne_zero hn) ?_ ?_ ?_
    · omega
    · omega
    · omega

omit [DecidableEq H] in
theorem releaseEncoderReservation_eq (l : StepState H) (r : RequestId) (inputIds : List ℕ) :
    ∃ cache budget, l.releaseEncoderReservation r inputIds = { l with
      scheduler := { l.scheduler with encoderCacheManager := cache }
      scheduledEncoderInputs := l.scheduledEncoderInputs.delete r
      encoderBudget := budget } :=
  ⟨_, _, rfl⟩

omit [DecidableEq H] in
theorem preemptRequest_ok {s s' : Scheduler H} {r : RequestId} (h : s.preemptRequest r = .ok s') :
    (s.request r).status = .running ∧ ∃ kv, s.kvCacheManager.free r = .ok kv ∧
      s' = { s with
        kvCacheManager := kv
        request := Function.update s.request r (s.request r).preempted
        numPreemptionsTotal := s.numPreemptionsTotal + 1
        waiting := s.waiting.prependRequest
          (Function.update s.request r (s.request r).preempted) r } := by
  unfold Scheduler.preemptRequest at h
  split at h
  · cases h
  rename_i hstatus
  split at h
  · cases h
  rename_i kv hfree
  exact ⟨not_not.mp hstatus, kv, hfree, (Except.ok.inj h).symm⟩

omit [DecidableEq H] in
theorem dropVictim_ok {victim : RequestId} (h : l.dropVictim victim = .ok l') :
    ∃ inBatch blocks scheduled tokenBudget reqIndex,
      ((l.scheduler.config.policy = .fcfs ∨ victim ∉ l.scheduledRunningReqs) ∧
          inBatch = l.scheduledRunningReqs ∧ blocks = l.reqToNewBlocks ∧
          scheduled = l.numScheduledTokens ∧ tokenBudget = l.tokenBudget ∧
          reqIndex = l.reqIndex ∨
        l.scheduler.config.policy = .priority ∧ victim ∈ l.scheduledRunningReqs ∧
          inBatch = l.scheduledRunningReqs.erase victim ∧
          blocks = l.reqToNewBlocks.delete victim ∧
          scheduled = l.numScheduledTokens.delete victim ∧
          (∃ m, l.numScheduledTokens.find victim = some m ∧ tokenBudget = l.tokenBudget + m) ∧
          reqIndex = l.reqIndex - 1) ∧
      l' = { l with
        scheduler := { l.scheduler with
          running := if l.scheduler.config.policy = .fcfs then l.scheduler.running.dropLast
            else l.scheduler.running.erase victim }
        scheduledRunningReqs := inBatch
        reqToNewBlocks := blocks
        numScheduledTokens := scheduled
        tokenBudget := tokenBudget
        reqIndex := reqIndex } := by
  unfold dropVictim at h
  dsimp only at h
  cases hpolicy : l.scheduler.config.policy with
  | fcfs =>
      simp only [hpolicy] at h
      obtain rfl := Except.ok.inj h
      exact ⟨_, _, _, _, _, Or.inl ⟨Or.inl rfl, rfl, rfl, rfl, rfl, rfl⟩, by simp⟩
  | priority =>
      simp only [hpolicy] at h
      split at h
      · rename_i hin
        split at h
        · cases h
        rename_i m hm
        obtain rfl := Except.ok.inj h
        exact ⟨_, _, _, _, _, Or.inr ⟨rfl, hin, rfl, rfl, rfl, ⟨m, hm, rfl⟩, rfl⟩, by simp⟩
      · rename_i hout
        obtain rfl := Except.ok.inj h
        exact ⟨_, _, _, _, _, Or.inl ⟨Or.inr hout, rfl, rfl, rfl, rfl, rfl⟩, by simp⟩

theorem preemptFor_outcome {r : RequestId} {n : ℕ} (hphase : l.phase = .allocating r n)
    (hok : l.scheduler.kvCacheManager.allocateSlots (l.scheduler.request r) n 0 none 0 false =
      .ok (none, l.scheduler.kvCacheManager))
    (h : l.preemptFor r = .ok l') : Outcome l l' := by
  unfold preemptFor at h
  split at h
  · cases h
  rename_i victim hvictim
  split at h
  · cases h
  rename_i l₁ hdrop
  obtain ⟨inBatch, blocks, scheduled, tokenBudget, reqIndex, hbatch, rfl⟩ := dropVictim_ok hdrop
  dsimp only at h
  split at h
  · cases h
  rename_i s hpreempt
  obtain ⟨cache, budget, hrelease⟩ := releaseEncoderReservation_eq
    ({ l with
      scheduler := { l.scheduler with
        running := if l.scheduler.config.policy = .fcfs then l.scheduler.running.dropLast
          else l.scheduler.running.erase victim }
      scheduledRunningReqs := inBatch
      reqToNewBlocks := blocks
      numScheduledTokens := scheduled
      tokenBudget := tokenBudget
      reqIndex := reqIndex } : StepState H) victim (l.scheduledEncoderInputs.findD victim [])
  rw [hrelease] at hpreempt h
  obtain ⟨hstatus, kv, hfree, rfl⟩ := preemptRequest_ok hpreempt
  split at h
  · rename_i heq
    subst heq
    obtain ⟨loras, rfl⟩ := enterAdmission_ok h
    have hleave : (if l.preemptedReqs ++ [victim] = [] then Phase.admission else Phase.finished) =
        if victim = victim then Phase.finished else Phase.allocating victim n := by simp
    have hgone : (l.scheduledEncoderInputs.delete victim).delete victim =
        l.scheduledEncoderInputs.delete victim := Dict.delete_delete ..
    simp only [releaseEncoderReservation, hgone]
    rw [hleave]
    exact .preempt hphase hok hvictim hstatus hfree hbatch rfl
  · rename_i hne
    obtain rfl := Except.ok.inj h
    have hstay : l.phase = if victim = r then Phase.finished else Phase.allocating r n := by
      rw [if_neg hne, hphase]
    simp only [hstay]
    exact .preempt hphase hok hvictim hstatus hfree hbatch rfl

theorem allocatingStep_outcome {r : RequestId} {n : ℕ} (hphase : l.phase = .allocating r n)
    (h : l.allocatingStep r n = .ok l') : Outcome l l' := by
  unfold allocatingStep at h
  split at h
  · cases h
  · rename_i blocks kv hok
    obtain rfl := Except.ok.inj h
    exact .commit hphase hok
  · rename_i kv hok
    obtain rfl := KVCacheManager.allocateSlots_none hok
    exact preemptFor_outcome hphase hok h

/-! ### The admission loop -/

omit [DecidableEq H] in
theorem setAside_ok {s : Scheduler H} (h : l.setAside s = .ok l') :
    ∃ r waiting, s.waiting.popRequest = .ok (r, waiting) ∧
      l' = { l with
        scheduler := { s with
          waiting := waiting
          skippedWaiting := s.skippedWaiting.addRequest s.request r }
        phase := .admission } := by
  unfold setAside at h
  split at h
  · cases h
  rename_i r waiting hpop
  exact ⟨r, waiting, hpop, (Except.ok.inj h).symm⟩

/-- Asking the store changes the connector only. -/
theorem matchExternal_eq (s : Scheduler H) (request : Request H) (n : ℕ) :
    ∃ connector, (matchExternal s request n).2 = { s with connector := connector } ∧
      Asked s.connector connector := by
  unfold matchExternal
  split
  · exact ⟨s.connector, rfl, Or.inl rfl⟩
  · rename_i connector hconnector
    exact ⟨some (connector.getNumNewMatchedTokens request n).2, rfl,
      Or.inr ⟨connector, request, n, hconnector, rfl⟩⟩

theorem Prepared.head_eq {s s' : Scheduler H} {r : RequestId} (h : Prepared s s' r) :
    s'.waiting.items.head? = some r := by
  rw [h.frame]
  exact h.head

theorem lookupStep_outcome {s : Scheduler H} {r : RequestId} (hphase : l.phase = .admission)
    (hs : Prepared l.scheduler s r) (hkv : s.kvCacheManager = l.scheduler.kvCacheManager)
    (hconnector : s.connector = l.scheduler.connector)
    (hstatus : (s.request r).status ≠ .waitingForStructuredOutputGrammar)
    (hrunning : l.scheduler.running.length < l.scheduler.config.maxNumRunningReqs)
    (hprefills : l.scheduler.config.enableChunkedPrefill = true →
      l.scheduler.numPartialPrefills < l.scheduler.config.maxNumPartialPrefills)
    (h : l.lookupStep s r = .ok l') : Outcome l l' := by
  unfold lookupStep at h
  split at h
  · cases h
  rename_i hits numLocal kv hlookup
  dsimp only at h
  obtain ⟨connector, hmatch, hasked⟩ :=
    matchExternal_eq { s with kvCacheManager := kv } (s.request r) numLocal
  have hexternal : (matchExternal { s with kvCacheManager := kv } (s.request r) numLocal).1 =
      (matchExternal l.scheduler (s.request r) numLocal).1 := by
    simp only [matchExternal, hconnector]
    split <;> rfl
  rw [hmatch, hexternal] at h
  dsimp only at h hasked
  -- whatever the encoder is asked next, the lookups have prepared `r`
  have hprep : ∀ cache, Prepared l.scheduler { s with
      kvCacheManager := kv
      connector := connector
      encoderCacheManager := cache } r := by
    intro cache
    refine ⟨hs.head, ?_, hs.table, Or.inr ⟨(hits, numLocal), ?_⟩, hconnector ▸ hasked⟩
    · rw [hs.frame]
    · rw [← hkv]
      exact hlookup
  have hconfig : s.config = l.scheduler.config := by rw [hs.frame]
  split at h
  · obtain rfl := Except.ok.inj h
    exact .close hphase (Or.inr ⟨r, hprep s.encoderCacheManager⟩)
  rename_i hwhole
  rw [not_and, Nat.not_lt, hconfig] at hwhole
  split at h
  · obtain rfl := Except.ok.inj h
    exact .close hphase (Or.inr ⟨r, hprep s.encoderCacheManager⟩)
  split at h
  · cases h
  rename_i n inputs budget cache hencoder
  have hle := scheduleEncoder_le hencoder
  split at h
  · split at h
    · cases h
    rename_i kv' hfree
    obtain ⟨r', waiting, hpop, rfl⟩ := setAside_ok h
    have hr : r' = r := RequestQueue.head_of_pop hs.head_eq hpop
    subst hr
    exact .setAside
      (s := { s with kvCacheManager := kv, connector := connector, encoderCacheManager := cache })
      hphase (hprep cache) (Or.inr hfree) hpop
  · rename_i hn
    obtain rfl := Except.ok.inj h
    have hcap := capShare_le s.config.longPrefillTokenThreshold ((s.request r).numTokens -
      (numLocal + (matchExternal l.scheduler (s.request r) numLocal).1))
    refine .lookUp hphase (hprep cache) hstatus ?_ rfl hrunning (Nat.pos_of_ne_zero hn) ?_ ?_
      hprefills hwhole fun hnone => ?_
    · rw [← hkv]
      exact hlookup
    · omega
    · change n + _ ≤ (s.request r).numTokens
      omega
    · have hall : n = _ := scheduleEncoder_text (s := { s with
        kvCacheManager := kv
        connector := connector }) hnone hencoder
      rwa [hconfig] at hall

theorem admissionStep_outcome (hphase : l.phase = .admission) (h : l.admissionStep = .ok l') :
    Outcome l l' := by
  unfold admissionStep at h
  dsimp only at h
  split at h
  · obtain rfl := Except.ok.inj h
    exact .close hphase (Or.inl rfl)
  split at h
  · obtain rfl := Except.ok.inj h
    exact .close hphase (Or.inl rfl)
  rename_i hrunning
  rw [Nat.not_le] at hrunning
  split at h
  · obtain rfl := Except.ok.inj h
    exact .close hphase (Or.inl rfl)
  rename_i hprefills
  rw [not_and, Nat.not_le] at hprefills
  split at h
  · cases h
  rename_i r hpeek
  have hhead : l.scheduler.waiting.items.head? = some r := by
    obtain ⟨queue', hpop⟩ := RequestQueue.popRequest_of_peek hpeek
    rw [RequestQueue.popRequest_eq_ok hpop, List.head?_cons]
  have hsame : Prepared l.scheduler l.scheduler r :=
    ⟨hhead, rfl, Or.inl rfl, Or.inl rfl, Or.inl rfl⟩
  -- a request set aside before any lookup
  have haside : ∀ s, Prepared l.scheduler s r → l.setAside s = .ok l' → Outcome l l' := by
    intro s hs haside
    obtain ⟨r', waiting, hpop, rfl⟩ := setAside_ok haside
    have hr : r' = r := RequestQueue.head_of_pop hs.head_eq hpop
    subst hr
    exact .setAside hphase hs (Or.inl rfl) hpop
  split at h
  · exact haside _ hsame h
  split at h
  · rename_i hgrammar
    have hpromoted : ∀ status, status = .waiting ∨ status = .preempted →
        Prepared l.scheduler (l.scheduler.modifyRequest r (·.withStatus status)) r := by
      intro status hstatus
      exact ⟨hhead, rfl, Or.inr ⟨hgrammar, status, hstatus, rfl⟩, Or.inl rfl, Or.inl rfl⟩
    have hready : ∀ status, status = RequestStatus.waiting ∨ status = .preempted →
        ((l.scheduler.modifyRequest r (·.withStatus status)).request r).status ≠
          .waitingForStructuredOutputGrammar := by
      intro status hstatus
      simp only [Scheduler.modifyRequest, Function.update_self, Request.withStatus]
      rcases hstatus with rfl | rfl
      · exact RequestStatus.noConfusion
      · exact RequestStatus.noConfusion
    split at h
    · rename_i s hpromote
      refine haside s ?_ h
      unfold Scheduler.promoteGrammarRequest at hpromote
      split at hpromote
      · cases hpromote
      · obtain rfl := (Prod.mk.inj hpromote).2
        exact hsame
      · obtain rfl := (Prod.mk.inj hpromote).2
        exact ⟨hhead, rfl, Or.inl rfl, Or.inl rfl, Or.inl rfl⟩
      · cases hpromote
    · rename_i s hpromote
      unfold Scheduler.promoteGrammarRequest at hpromote
      split at hpromote
      · obtain rfl := (Prod.mk.inj hpromote).2
        exact lookupStep_outcome hphase (hpromoted _ (Or.inl rfl)) rfl rfl
          (hready _ (Or.inl rfl)) hrunning hprefills h
      · cases hpromote
      · cases hpromote
      · obtain rfl := (Prod.mk.inj hpromote).2
        have hstatus : (if (l.scheduler.request r).numPreemptions ≠ 0 then RequestStatus.preempted
            else .waiting) = .waiting ∨ (if (l.scheduler.request r).numPreemptions ≠ 0 then
              RequestStatus.preempted else .waiting) = .preempted := by
          split
          · exact Or.inr rfl
          · exact Or.inl rfl
        exact lookupStep_outcome hphase (hpromoted _ hstatus) rfl rfl (hready _ hstatus) hrunning
          hprefills h
  · rename_i hgrammar
    exact lookupStep_outcome hphase hsame rfl rfl hgrammar hrunning hprefills h

omit [DecidableEq H] in
theorem commitAdmitted_ok {s : Scheduler H} {numLocal numExternal n : ℕ} {inputs : List ℕ}
    (h : l.commitAdmitted s numLocal numExternal n inputs = .ok l') :
    ∃ r waiting connector loras, s.waiting.popRequest = .ok (r, waiting) ∧
      ((s.request r).status = .waiting ∨ (s.request r).status = .preempted) ∧
      (connector = if numExternal = 0 then s.connector else s.connector.map
        (·.updateStateAfterAlloc (s.request r) (s.kvCacheManager.getBlocks r) numExternal)) ∧
      l' = { l with
        scheduler := { s with
          request := Function.update s.request r
            ((s.request r).admitted (numLocal + numExternal) numLocal)
          running := s.running ++ [r]
          waiting := waiting
          pendingScheduled := s.pendingScheduled ++ [r]
          connector := connector }
        scheduledNewReqs := if (s.request r).status = .waiting
          then l.scheduledNewReqs ++ [r] else l.scheduledNewReqs
        scheduledResumedReqs := if (s.request r).status = .waiting
          then l.scheduledResumedReqs else l.scheduledResumedReqs ++ [r]
        reqToNewBlocks := l.reqToNewBlocks.store r (s.kvCacheManager.getBlocks r)
        numScheduledTokens := l.numScheduledTokens.store r n
        scheduledEncoderInputs := if inputs = [] then l.scheduledEncoderInputs
          else l.scheduledEncoderInputs.store r inputs
        tokenBudget := l.tokenBudget - n
        scheduledLoras := loras
        phase := .admission } := by
  unfold commitAdmitted at h
  split at h
  · cases h
  rename_i r waiting hpop
  dsimp only at h
  split at h
  · cases h
  rename_i hstatus
  refine ⟨r, waiting, _, _, hpop, ?_, rfl, (Except.ok.inj h).symm⟩
  rw [not_and_or, not_not, not_not] at hstatus
  exact hstatus

theorem admittingStep_outcome {r : RequestId} {hits : List (List BlockId)}
    {numLocal numExternal n : ℕ} {inputs : List ℕ}
    (hphase : l.phase = .admitting r hits numLocal numExternal n inputs)
    (h : l.admittingStep r hits numLocal numExternal n inputs = .ok l') : Outcome l l' := by
  unfold admittingStep at h
  split at h
  · cases h
  · rename_i kv hok
    obtain rfl := KVCacheManager.allocateSlots_none hok
    obtain ⟨cache, budget, hrelease⟩ := releaseEncoderReservation_eq
      ({ l with phase := .finished } : StepState H) r inputs
    obtain rfl := hrelease.symm.trans (Except.ok.inj h)
    exact .decline hphase hok
  · rename_i blocks kv hok
    obtain ⟨r', waiting, connector, loras, hpop, hstatus, hconnector, rfl⟩ := commitAdmitted_ok h
    exact .accept hphase hok hpop hstatus hconnector

/-- Every step of the loops is one of the list. -/
theorem advance_outcome (h : l.advance = .ok l') : Outcome l l' := by
  unfold advance at h
  split at h
  · rename_i hphase
    exact runningStep_outcome hphase h
  · rename_i r n hphase
    exact allocatingStep_outcome hphase h
  · rename_i hphase
    exact admissionStep_outcome hphase h
  · rename_i hphase
    exact admittingStep_outcome hphase h
  · rename_i hphase
    obtain rfl := Except.ok.inj h
    exact .rest hphase

end StepState

end Pvllm
