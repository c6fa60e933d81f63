import Pvllm.Core.Sched.Encoding
import Pvllm.Core.Sched.Plain

/-!
The budgets of a step, and the caps on what runs.

A call of `schedule` draws tokens from one budget and encoder embeddings from
another, and gives back what a preempted request or a failed admission had
taken. At every point of its loops both books balance, and neither the number of
running requests nor that of their adapters exceeds its cap, so that the checks
of the source on them never fail.
-/

namespace Pvllm

variable {H : Type} [DecidableEq H]

/-! ### Tokens -/

def Phase.asked : Phase → ℕ
  | .allocating _ n => n
  | .admitting _ _ _ _ n _ => n
  | _ => 0

namespace StepState

variable {s : Scheduler H} {l l' : StepState H}

/-- The token book: what is left and what is granted make up the budget, and the
request being placed asks for no more than is left. -/
structure Tokens (l : StepState H) : Prop where
  balance : l.tokenBudget + l.numScheduledTokens.total id =
    l.scheduler.config.maxNumScheduledTokens
  asked : l.phase.asked ≤ l.tokenBudget

theorem Outcome.tokens (h : Outcome l l') (hb : Batch l) (ht : Tokens l) : Tokens l' := by
  obtain ⟨hbalance, hasked⟩ := ht
  cases h with
  | rest hphase => exact ⟨hbalance, hasked⟩
  | enter hphase =>
      refine ⟨hbalance, ?_⟩
      dsimp only
      split <;> exact Nat.zero_le _
  | pass hphase hr =>
      refine ⟨?_, hasked⟩
      show _ = (disableSpeculation _ _).config.maxNumScheduledTokens
      rw [disableSpeculation_config]
      exact hbalance
  | takeUp hphase hr hn hbudget hspec hlen =>
      refine ⟨?_, hbudget⟩
      show _ = (disableSpeculation _ _).config.maxNumScheduledTokens
      rw [disableSpeculation_config]
      exact hbalance
  | @commit r n blocks kv hphase hok =>
      obtain ⟨-, hout, -⟩ := hb.allocating _ _ hphase
      rw [hphase] at hasked
      have hover : l.phase.overRunning = true := by rw [hphase]; rfl
      -- it has nothing in the batch yet, so what it gets comes off the budget
      have hfresh : l.numScheduledTokens.find r = none := by
        rw [Dict.find_eq_none_iff, hb.keys, hb.batch_eq hover]
        exact hout
      have hstore := l.numScheduledTokens.total_store r n id
      rw [hfresh, Option.map_none, Option.getD_none, id_eq] at hstore
      refine ⟨?_, Nat.zero_le _⟩
      have hconfig : (l.commitRunning r n blocks kv).scheduler.config = l.scheduler.config := by
        unfold commitRunning
        dsimp only
        split <;> rfl
      rw [hconfig]
      show l.tokenBudget - n + (l.numScheduledTokens.store r n).total id = _
      have hle : n ≤ l.tokenBudget := hasked
      omega
  | @preempt r victim n kv inBatch blocks scheduled inputs cache encoderBudget tokenBudget reqIndex
      loras hphase hok hvictim hstatus hfree hbatch hinputs =>
      -- a victim of the batch gives its tokens back
      have hbook : tokenBudget + scheduled.total id =
          l.tokenBudget + l.numScheduledTokens.total id ∧ l.tokenBudget ≤ tokenBudget := by
        rcases hbatch with ⟨-, -, -, rfl, rfl, -⟩ | ⟨-, -, -, -, rfl, ⟨m, hm, rfl⟩, -⟩
        · exact ⟨rfl, le_rfl⟩
        · have hdelete := l.numScheduledTokens.total_delete victim id
          rw [hm, Option.map_some, Option.getD_some, id_eq] at hdelete
          omega
      refine ⟨hbook.1.trans hbalance, ?_⟩
      rw [hphase] at hasked
      dsimp only
      split
      · exact Nat.zero_le _
      · exact hasked.trans hbook.2
  | close hphase hs =>
      rcases hs with rfl | ⟨r, hs⟩
      · exact ⟨hbalance, Nat.zero_le _⟩
      · refine ⟨?_, Nat.zero_le _⟩
        rw [hs.frame]
        exact hbalance
  | setAside hphase hs hfree hpop =>
      refine ⟨?_, Nat.zero_le _⟩
      rw [hs.frame]
      exact hbalance
  | lookUp hphase hs hpreempted hhits hexternal hrunning hn hbudget hlen =>
      refine ⟨?_, hbudget⟩
      rw [hs.frame]
      exact hbalance
  | decline hphase hok => exact ⟨hbalance, Nat.zero_le _⟩
  | @accept r r' hits blocks numLocal numExternal n inputs kv waiting connector loras hphase hok
      hpop hstatus hconnector =>
      have hover : l.phase.overWaiting = true := by rw [hphase]; rfl
      rw [hphase] at hasked
      have hwaits : r' ∈ l.scheduler.queued := by
        rw [Scheduler.queued, RequestQueue.popRequest_eq_ok hpop]
        exact List.mem_append_left _ List.mem_cons_self
      have hfresh : l.numScheduledTokens.find r' = none := by
        rw [Dict.find_eq_none_iff, hb.keys]
        exact fun hin => hb.partition.not_running_of_waiting hwaits (hb.running r' hin)
      have hstore := l.numScheduledTokens.total_store r' n id
      rw [hfresh, Option.map_none, Option.getD_none, id_eq] at hstore
      refine ⟨?_, Nat.zero_le _⟩
      show l.tokenBudget - n + (l.numScheduledTokens.store r' n).total id =
        l.scheduler.config.maxNumScheduledTokens
      have hle : n ≤ l.tokenBudget := hasked
      omega

/-! ### Running requests -/

/-- No more requests run than may, and while one is being admitted, fewer. -/
structure Seats (l : StepState H) : Prop where
  running : l.scheduler.running.length ≤ l.scheduler.config.maxNumRunningReqs
  free : ∀ r hits numLocal numExternal n ids,
    l.phase = .admitting r hits numLocal numExternal n ids →
      l.scheduler.running.length < l.scheduler.config.maxNumRunningReqs

theorem Outcome.seats (h : Outcome l l') (hl : Seats l) : Seats l' := by
  obtain ⟨hrunning, hfree⟩ := hl
  cases h with
  | rest hphase => exact ⟨hrunning, hfree⟩
  | enter hphase =>
      refine ⟨hrunning, fun r hits numLocal numExternal n ids heq => ?_⟩
      dsimp only at heq
      split at heq <;> cases heq
  | pass hphase hr =>
      refine ⟨?_, fun r hits numLocal numExternal n ids heq => ?_⟩
      · show (disableSpeculation _ _).running.length ≤
          (disableSpeculation _ _).config.maxNumRunningReqs
        rw [disableSpeculation_running, disableSpeculation_config]
        exact hrunning
      · dsimp only at heq
        rw [hphase] at heq
        cases heq
  | takeUp hphase hr hn hbudget hspec hlen =>
      refine ⟨?_, fun r hits numLocal numExternal n ids heq => (by cases heq)⟩
      show (disableSpeculation _ _).running.length ≤
        (disableSpeculation _ _).config.maxNumRunningReqs
      rw [disableSpeculation_running, disableSpeculation_config]
      exact hrunning
  | @commit r n blocks kv hphase hok =>
      refine ⟨?_, fun r hits numLocal numExternal n ids heq => (by cases heq)⟩
      have hconfig : (l.commitRunning r n blocks kv).scheduler.config = l.scheduler.config := by
        unfold commitRunning
        dsimp only
        split <;> rfl
      rw [hconfig, commitRunning_running]
      exact hrunning
  | @preempt r victim n kv inBatch blocks scheduled inputs cache encoderBudget tokenBudget reqIndex
      loras hphase hok hvictim hstatus hfree' hbatch hinputs =>
      refine ⟨?_, fun r' hits numLocal numExternal n ids heq => ?_⟩
      · have hlen := (perm_dropVictim hvictim).length_eq
        rw [List.length_cons] at hlen
        exact (Nat.le_of_succ_le hlen.ge).trans hrunning
      · dsimp only at heq
        split at heq <;> cases heq
  | close hphase hs =>
      refine ⟨?_, fun r hits numLocal numExternal n ids heq => (by cases heq)⟩
      rcases hs with rfl | ⟨r, hs⟩
      · exact hrunning
      · rw [hs.frame]
        exact hrunning
  | setAside hphase hs hfree' hpop =>
      refine ⟨?_, fun r hits numLocal numExternal n ids heq => (by cases heq)⟩
      rw [hs.frame]
      exact hrunning
  | lookUp hphase hs hpreempted hhits hexternal hroom hn hbudget hlen =>
      rw [hs.frame]
      exact ⟨hrunning, fun _ _ _ _ _ _ _ => hroom⟩
  | decline hphase hok =>
      exact ⟨hrunning, fun r hits numLocal numExternal n ids heq => (by cases heq)⟩
  | accept hphase hok hpop hstatus hconnector =>
      refine ⟨?_, fun r hits numLocal numExternal n ids heq => (by cases heq)⟩
      -- a seat was free when the request was looked up
      have hroom := hfree _ _ _ _ _ _ hphase
      dsimp only
      rw [List.length_append]
      exact hroom

end StepState

/-! ### Adapters -/

def Scheduler.adapters (s : Scheduler H) : List ℕ :=
  (s.running.filterMap fun r => (s.request r).loraRequest.map (·.loraIntId)).dedup

omit [DecidableEq H] in
theorem Scheduler.mem_adapters {s : Scheduler H} {a : ℕ} : a ∈ s.adapters ↔
    ∃ r ∈ s.running, ∃ lora, (s.request r).loraRequest = some lora ∧ lora.loraIntId = a := by
  simp [adapters, List.mem_dedup, List.mem_filterMap]

omit [DecidableEq H] in
theorem Scheduler.adapters_length_le {s : Scheduler H} {loras : List ℕ}
    (h : ∀ a ∈ s.adapters, a ∈ loras) : s.adapters.length ≤ loras.length :=
  ((List.nodup_dedup _).subperm h).length_le

omit [DecidableEq H] in
theorem Scheduler.adapters_mono {s s' : Scheduler H} (hrunning : ∀ r ∈ s'.running, r ∈ s.running)
    (hlora : ∀ r ∈ s'.running, (s'.request r).loraRequest = (s.request r).loraRequest) :
    ∀ a ∈ s'.adapters, a ∈ s.adapters := by
  intro a ha
  obtain ⟨r, hr, lora, hsome, rfl⟩ := mem_adapters.mp ha
  exact mem_adapters.mpr ⟨r, hrunning r hr, lora, (hlora r hr).symm.trans hsome, rfl⟩

namespace StepState

variable {s : Scheduler H} {l l' : StepState H}

/-- No more adapters run than there are slots; while requests are admitted, the
running ones are all accounted for, and the one being admitted has a slot. -/
structure Slots (maxLoras : ℕ) (l : StepState H) : Prop where
  resident : l.scheduler.adapters.length ≤ maxLoras
  accounted : l.phase.overWaiting = true →
    (∀ a ∈ l.scheduler.adapters, a ∈ l.scheduledLoras) ∧ l.scheduledLoras.length ≤ maxLoras
  slot : ∀ r hits numLocal numExternal n ids,
    l.phase = .admitting r hits numLocal numExternal n ids →
      l.lacksAdapterSlot (l.scheduler.request r) = false

omit [DecidableEq H] in
theorem enterAdmission_loras {maxLoras : ℕ} (hmax : l.scheduler.config.maxLoras = some maxLoras)
    (h : l.enterAdmission = .ok l') :
    l'.scheduledLoras = l.scheduler.adapters ∧ l.scheduler.adapters.length ≤ maxLoras := by
  unfold enterAdmission at h
  dsimp only at h
  rw [hmax] at h
  dsimp only at h
  split at h
  · cases h
  · rename_i hle
    obtain rfl := Except.ok.inj h
    exact ⟨rfl, not_lt.mp hle⟩

omit [DecidableEq H] in
theorem runningStep_loras {maxLoras : ℕ} (hmax : l.scheduler.config.maxLoras = some maxLoras)
    (hphase : l.phase = .running) (h : l.runningStep = .ok l') (hnext : l'.phase = .admission) :
    l'.scheduledLoras = l.scheduler.adapters := by
  unfold runningStep at h
  split at h
  · exact (enterAdmission_loras hmax h).1
  split at h
  · exact (enterAdmission_loras hmax h).1
  dsimp only at h
  split at h
  · cases h
  split at h
  · obtain rfl := Except.ok.inj h
    rw [hphase] at hnext
    cases hnext
  split at h
  · cases h
  split at h
  · obtain rfl := Except.ok.inj h
    rw [hphase] at hnext
    cases hnext
  · obtain rfl := Except.ok.inj h
    cases hnext

omit [DecidableEq H] in
theorem lacksAdapterSlot_congr {l l' : StepState H} {request request' : Request H}
    (hconfig : l'.scheduler.config = l.scheduler.config)
    (hloras : l'.scheduledLoras = l.scheduledLoras)
    (hlora : request'.loraRequest = request.loraRequest) :
    l'.lacksAdapterSlot request' = l.lacksAdapterSlot request := by
  simp only [lacksAdapterSlot, hconfig, hloras, hlora]

omit [DecidableEq H] in
theorem setAside_loras {s : Scheduler H} (h : l.setAside s = .ok l') :
    l'.scheduledLoras = l.scheduledLoras ∧ l'.phase = .admission := by
  obtain ⟨r, waiting, -, rfl⟩ := setAside_ok h
  exact ⟨rfl, rfl⟩

theorem lookupStep_loras {s : Scheduler H} {r : RequestId} (h : l.lookupStep s r = .ok l') :
    l'.scheduledLoras = l.scheduledLoras ∧
      ∀ r' hits numLocal numExternal n ids,
        l'.phase = .admitting r' hits numLocal numExternal n ids → r' = r := by
  unfold lookupStep at h
  split at h
  · cases h
  dsimp only at h
  split at h
  · obtain rfl := Except.ok.inj h
    exact ⟨rfl, fun r' hits numLocal numExternal n ids heq => (by cases heq)⟩
  split at h
  · obtain rfl := Except.ok.inj h
    exact ⟨rfl, fun r' hits numLocal numExternal n ids heq => (by cases heq)⟩
  split at h
  · cases h
  split at h
  · split at h
    · cases h
    obtain ⟨hloras, hnext⟩ := setAside_loras h
    refine ⟨hloras, fun r' hits numLocal numExternal n ids heq => ?_⟩
    rw [hnext] at heq
    cases heq
  · obtain rfl := Except.ok.inj h
    refine ⟨rfl, fun r' hits numLocal numExternal n ids heq => ?_⟩
    cases heq
    rfl

theorem admissionStep_loras (h : l.admissionStep = .ok l') :
    l'.scheduledLoras = l.scheduledLoras ∧
      ∀ r hits numLocal numExternal n ids,
        l'.phase = .admitting r hits numLocal numExternal n ids →
          l.lacksAdapterSlot (l.scheduler.request r) = false := by
  have hclosed : ∀ l' : StepState H, l'.phase = .finished ∨ l'.phase = .admission →
      ∀ r hits numLocal numExternal n ids,
        l'.phase = .admitting r hits numLocal numExternal n ids →
          l.lacksAdapterSlot (l.scheduler.request r) = false := by
    intro l' hphase r hits numLocal numExternal n ids heq
    rcases hphase with hphase | hphase <;> (rw [hphase] at heq; cases heq)
  unfold admissionStep at h
  dsimp only at h
  split at h
  · obtain rfl := Except.ok.inj h
    exact ⟨rfl, hclosed _ (Or.inl rfl)⟩
  split at h
  · obtain rfl := Except.ok.inj h
    exact ⟨rfl, hclosed _ (Or.inl rfl)⟩
  split at h
  · obtain rfl := Except.ok.inj h
    exact ⟨rfl, hclosed _ (Or.inl rfl)⟩
  split at h
  · cases h
  rename_i r hpeek
  split at h
  · obtain ⟨hloras, hnext⟩ := setAside_loras h
    exact ⟨hloras, hclosed _ (Or.inr hnext)⟩
  rename_i hslot
  have hlookup : ∀ s, l.lookupStep s r = .ok l' → l'.scheduledLoras = l.scheduledLoras ∧
      ∀ r hits numLocal numExternal n ids,
        l'.phase = .admitting r hits numLocal numExternal n ids →
          l.lacksAdapterSlot (l.scheduler.request r) = false := by
    intro s hs
    obtain ⟨hloras, hnext⟩ := lookupStep_loras hs
    refine ⟨hloras, fun r' hits numLocal numExternal n ids heq => ?_⟩
    rw [hnext r' hits numLocal numExternal n ids heq]
    exact Bool.eq_false_iff.mpr hslot
  split at h
  · split at h
    · obtain ⟨hloras, hnext⟩ := setAside_loras h
      exact ⟨hloras, hclosed _ (Or.inr hnext)⟩
    · exact hlookup _ h
  · exact hlookup _ h

theorem admittingStep_loras {r : RequestId} {hits : List (List BlockId)}
    {numLocal numExternal n : ℕ} {ids : List ℕ}
    (h : l.admittingStep r hits numLocal numExternal n ids = .ok l')
    (hnext : l'.phase = .admission) :
    ∃ r' waiting, l.scheduler.waiting.popRequest = .ok (r', waiting) ∧
      l'.scheduledLoras = match (l.scheduler.request r').loraRequest with
        | none => l.scheduledLoras
        | some lora => EncoderCacheManager.insertNew l.scheduledLoras lora.loraIntId := by
  unfold admittingStep at h
  split at h
  · cases h
  · obtain rfl := Except.ok.inj h
    cases hnext
  · unfold commitAdmitted at h
    split at h
    · cases h
    rename_i r' waiting hpop
    dsimp only at h
    split at h
    · cases h
    obtain rfl := Except.ok.inj h
    exact ⟨r', waiting, hpop, rfl⟩

omit [DecidableEq H] in
theorem insertNew_loras {maxLoras : ℕ} (hmax : l.scheduler.config.maxLoras = some maxLoras)
    {request : Request H} {lora : LoRARequest} (hlora : request.loraRequest = some lora)
    (hslot : l.lacksAdapterSlot request = false) (hle : l.scheduledLoras.length ≤ maxLoras) :
    (EncoderCacheManager.insertNew l.scheduledLoras lora.loraIntId).length ≤ maxLoras := by
  simp only [lacksAdapterSlot, hmax, hlora, decide_eq_false_iff_not, not_and, not_not] at hslot
  unfold EncoderCacheManager.insertNew
  split
  · exact hle
  · rename_i hnew
    have hroom : ¬ maxLoras ≤ l.scheduledLoras.length := fun hfull => hnew (hslot hfull)
    rw [List.length_append, List.length_singleton]
    omega

theorem advance_slots {maxLoras : ℕ} (hb : Batch l)
    (hmax : l.scheduler.config.maxLoras = some maxLoras) (h : l.advance = .ok l')
    (hs : Slots maxLoras l) : Slots maxLoras l' := by
  have hout := advance_outcome h
  have hlora : ∀ r, (l'.scheduler.request r).loraRequest = (l.scheduler.request r).loraRequest :=
    fun r => by rw [(hout.keeps r).eq]
  -- where nothing is admitted, the adapters are some of those before
  have hmono : (∀ r ∈ l'.scheduler.running, r ∈ l.scheduler.running) →
      ∀ a ∈ l'.scheduler.adapters, a ∈ l.scheduler.adapters :=
    fun hrunning => Scheduler.adapters_mono hrunning fun r _ => hlora r
  have hfewer : (∀ r ∈ l'.scheduler.running, r ∈ l.scheduler.running) →
      l'.scheduler.adapters.length ≤ maxLoras := fun hrunning =>
    (Scheduler.adapters_length_le (hmono hrunning)).trans hs.resident
  have hadmit : ∀ r', l'.scheduler.running = l.scheduler.running ++ [r'] →
      (∀ a ∈ l.scheduler.adapters, a ∈ l'.scheduledLoras) →
      (∀ lora, (l.scheduler.request r').loraRequest = some lora →
        lora.loraIntId ∈ l'.scheduledLoras) →
      ∀ a ∈ l'.scheduler.adapters, a ∈ l'.scheduledLoras := by
    intro r' hrunning hbefore hown a ha
    obtain ⟨r, hr, lora, hsome, rfl⟩ := Scheduler.mem_adapters.mp ha
    rw [hlora] at hsome
    rw [hrunning] at hr
    rcases List.mem_append.mp hr with hr | hr
    · exact hbefore _ (Scheduler.mem_adapters.mpr ⟨r, hr, lora, hsome, rfl⟩)
    · rw [List.mem_singleton.mp hr] at hsome
      exact hown lora hsome
  cases hout with
  | rest hphase => exact hs
  | enter hphase =>
      refine ⟨hfewer fun _ hr => hr, fun hover => ?_, fun r hits a b n ids heq => ?_⟩
      · have hnext : (if l.preemptedReqs = [] then Phase.admission else .finished) =
            .admission := by
          dsimp only at hover
          split at hover
          · rename_i hnone
            exact if_pos hnone
          · cases hover
        have hstep := h
        unfold advance at hstep
        rw [hphase] at hstep
        have heq := runningStep_loras hmax hphase hstep hnext
        dsimp only at heq
        rw [heq]
        exact ⟨fun a ha => ha, hs.resident⟩
      · dsimp only at heq
        split at heq <;> cases heq
  | pass hphase hr =>
      refine ⟨hfewer fun r hr => ?_, fun hover => ?_, fun r hits a b n ids heq => ?_⟩
      · rwa [← disableSpeculation_running l.scheduler]
      · dsimp only at hover
        rw [hphase] at hover
        cases hover
      · dsimp only at heq
        rw [hphase] at heq
        cases heq
  | takeUp hphase hr hn hbudget hspec hlen =>
      refine ⟨hfewer fun r hr => ?_, fun hover => (by cases hover),
        fun r hits a b n ids heq => (by cases heq)⟩
      rwa [← disableSpeculation_running l.scheduler]
  | commit hphase hok =>
      refine ⟨hfewer fun r hr => ?_, fun hover => (by cases hover),
        fun r hits a b n ids heq => (by cases heq)⟩
      rwa [commitRunning_running] at hr
  | preempt hphase hok hvictim hstatus hfree hbatch hinputs =>
      refine ⟨hfewer fun r hr => ?_, fun hover => ?_, fun r hits a b n ids heq => ?_⟩
      · exact (perm_dropVictim hvictim).mem_iff.mpr (List.mem_cons_of_mem _ hr)
      · dsimp only at hover
        split at hover <;> cases hover
      · dsimp only at heq
        split at heq <;> cases heq
  | close hphase hs' =>
      refine ⟨hfewer fun r hr => ?_, fun hover => (by cases hover),
        fun r hits a b n ids heq => (by cases heq)⟩
      rcases hs' with rfl | ⟨r', hs'⟩
      · exact hr
      · rwa [← hs'.running_eq]
  | setAside hphase hs' hfree hpop =>
      have hrunning : ∀ r ∈ _, r ∈ l.scheduler.running := fun r hr => hs'.running_eq ▸ hr
      have hstep := h
      unfold advance at hstep
      rw [hphase] at hstep
      have heq := (admissionStep_loras hstep).1
      refine ⟨hfewer hrunning, fun _ => ?_, fun r hits a b n ids heq => (by cases heq)⟩
      obtain ⟨hin, hle⟩ := hs.accounted (by rw [hphase]; rfl)
      dsimp only at heq ⊢
      exact ⟨fun a ha => hin a (hmono hrunning a ha), hle⟩
  | lookUp hphase hs' hpreempted hhits hexternal hroom hn hbudget hlen =>
      have hrunning : ∀ r ∈ _, r ∈ l.scheduler.running := fun r hr => hs'.running_eq ▸ hr
      have hstep := h
      unfold advance at hstep
      rw [hphase] at hstep
      have hslot := (admissionStep_loras hstep).2
      obtain ⟨hin, hle⟩ := hs.accounted (by rw [hphase]; rfl)
      refine ⟨hfewer hrunning, fun _ => ?_, fun r hits a b n ids heq => ?_⟩
      · exact ⟨fun a ha => hin a (hmono hrunning a ha), hle⟩
      · rw [← hslot r hits a b n ids heq]
        refine lacksAdapterSlot_congr ?_ rfl (hlora r)
        rw [hs'.frame]
  | decline hphase hok =>
      exact ⟨hfewer fun _ hr => hr, fun hover => (by cases hover),
        fun r hits a b n ids heq => (by cases heq)⟩
  | @accept r r' hits blocks numLocal numExternal n inputs kv waiting connector loras hphase hok
      hpop hstatus hconnector =>
      have hr : r' = r := RequestQueue.head_of_pop (hb.admitting _ _ _ _ _ _ hphase).2.1 hpop
      subst hr
      have hslot := hs.slot _ _ _ _ _ _ hphase
      obtain ⟨hin, hle⟩ := hs.accounted (by rw [hphase]; rfl)
      have hstep := h
      unfold advance at hstep
      rw [hphase] at hstep
      obtain ⟨r₁, waiting₁, hpop₁, hloras⟩ := admittingStep_loras hstep rfl
      rw [hpop] at hpop₁
      obtain ⟨rfl, rfl⟩ := Prod.mk.inj (Except.ok.inj hpop₁)
      dsimp only at hloras
      have htaken : (∀ a ∈ l.scheduledLoras, a ∈ loras) ∧ loras.length ≤ maxLoras ∧
          ∀ lora, (l.scheduler.request r').loraRequest = some lora → lora.loraIntId ∈ loras := by
        cases hsome : (l.scheduler.request r').loraRequest with
        | none =>
            rw [hsome] at hloras
            subst hloras
            exact ⟨fun a ha => ha, hle, fun lora heq => (by cases heq)⟩
        | some lora =>
            rw [hsome] at hloras
            subst hloras
            refine ⟨fun a ha => ?_, insertNew_loras hmax hsome hslot hle, fun lora' heq => ?_⟩
            · exact EncoderCacheManager.mem_insertNew.mpr (Or.inl ha)
            · obtain rfl := Option.some.inj heq
              exact EncoderCacheManager.mem_insertNew.mpr (Or.inr rfl)
      obtain ⟨hbefore, hcap, hown⟩ := htaken
      have hall := hadmit r' rfl (fun a ha => hbefore a (hin a ha)) hown
      exact ⟨(Scheduler.adapters_length_le hall).trans hcap, fun _ => ⟨hall, hcap⟩,
        fun r hits a b n ids heq => (by cases heq)⟩

end StepState

/-! ### Encoder inputs -/

def embedsOf (features : List MultiModalFeatureSpec) (ids : List ℕ) : ℕ :=
  ((ids.filterMap (features[·]?)).map (·.numEmbeds)).sum

@[simp] theorem embedsOf_nil (features : List MultiModalFeatureSpec) : embedsOf features [] = 0 :=
  rfl

theorem embedsOf_concat {features : List MultiModalFeatureSpec} {i : ℕ}
    {feature : MultiModalFeatureSpec} (hi : features[i]? = some feature) (ids : List ℕ) :
    embedsOf features (ids ++ [i]) = embedsOf features ids + feature.numEmbeds := by
  simp [embedsOf, List.filterMap_append, hi]

/-- Images in the order of their placeholders, which do not overlap. -/
abbrev InOrder (features : List MultiModalFeatureSpec) : Prop :=
  features.Pairwise fun a b => a.position + a.length ≤ b.position

namespace Scheduler

variable {request : Request H} {n maxTokens budget budget' n' : ℕ}
  {items : List (ℕ × MultiModalFeatureSpec)} {scheduled ids : List ℕ}
  {cache cache' : EncoderCacheManager}

omit [DecidableEq H] in
theorem scheduleEncoderLoop_embeds
    (hitems : ∀ item ∈ items, request.mmFeatures[item.1]? = some item.2)
    (h : scheduleEncoderLoop request n maxTokens items scheduled budget cache =
      .ok (n', ids, budget', cache')) :
    budget' + embedsOf request.mmFeatures ids = budget + embedsOf request.mmFeatures scheduled := by
  induction items generalizing scheduled budget cache with
  | nil =>
      simp only [scheduleEncoderLoop, Except.ok.injEq, Prod.mk.injEq] at h
      obtain ⟨-, rfl, rfl, -⟩ := h
      rfl
  | cons item items ih =>
      obtain ⟨inputId, feature⟩ := item
      obtain ⟨hfirst, hrest⟩ := List.forall_mem_cons.mp hitems
      dsimp only at hfirst
      simp only [scheduleEncoderLoop] at h
      split at h
      · exact ih hrest h
      split at h
      · exact ih hrest h
      split at h
      · exact ih hrest h
      split at h
      · cases h
      split at h
      · simp only [Except.ok.injEq, Prod.mk.injEq] at h
        obtain ⟨-, rfl, rfl, -⟩ := h
        rfl
      rename_i hbudget
      split at h
      · cases h
      · simp only [Except.ok.injEq, Prod.mk.injEq] at h
        obtain ⟨-, rfl, rfl, -⟩ := h
        rfl
      · rw [ih hrest h, embedsOf_concat hfirst]
        omega

omit [DecidableEq H] in
/-- A request trimmed to nothing had nothing reserved: the first image it stops at
begins where it stands, and those before it are behind it. -/
theorem scheduleEncoderLoop_zero (hn : 0 < n)
    (horder : InOrder (items.map (·.2)))
    (hahead : scheduled ≠ [] → ∀ item ∈ items, request.numComputedTokens < item.2.position)
    (h : scheduleEncoderLoop request n maxTokens items scheduled budget cache =
      .ok (0, ids, budget', cache')) : ids = [] := by
  induction items generalizing scheduled budget cache with
  | nil =>
      simp only [scheduleEncoderLoop, Except.ok.injEq, Prod.mk.injEq] at h
      omega
  | cons item items ih =>
      obtain ⟨inputId, feature⟩ := item
      obtain ⟨hbefore, horder⟩ := List.pairwise_cons.mp horder
      have hrest : scheduled ≠ [] → ∀ item ∈ items,
          request.numComputedTokens < item.2.position :=
        fun hsome item hitem => hahead hsome item (List.mem_cons_of_mem _ hitem)
      -- a trim to nothing is at an image that does not begin further on
      have htrim : feature.position - request.numComputedTokens = 0 → scheduled = [] := by
        intro hzero
        by_contra hsome
        have hlater := hahead hsome _ List.mem_cons_self
        dsimp only at hlater
        omega
      simp only [scheduleEncoderLoop] at h
      split at h
      · exact ih horder hrest h
      rename_i htouches
      rw [not_or, not_le, not_le] at htouches
      split at h
      · exact ih horder hrest h
      split at h
      · exact ih horder hrest h
      split at h
      · cases h
      split at h
      · simp only [Except.ok.injEq, Prod.mk.injEq] at h
        obtain ⟨hzero, rfl, -⟩ := h
        exact htrim hzero
      split at h
      · cases h
      · simp only [Except.ok.injEq, Prod.mk.injEq] at h
        obtain ⟨hzero, rfl, -⟩ := h
        exact htrim hzero
      · refine ih horder (fun _ item hitem => ?_) h
        have hle : feature.position + feature.length ≤ item.2.position :=
          hbefore item.2 (List.mem_map_of_mem hitem)
        omega

omit [DecidableEq H] in
theorem scheduleEncoder_embeds {s : Scheduler H} {r : RequestId}
    (h : s.scheduleEncoder r n budget = .ok (n', ids, budget', cache')) :
    budget' + embedsOf (s.request r).mmFeatures ids = budget := by
  unfold scheduleEncoder at h
  dsimp only at h
  split at h
  · simp only [Except.ok.injEq, Prod.mk.injEq] at h
    obtain ⟨-, rfl, rfl, -⟩ := h
    rfl
  · refine (scheduleEncoderLoop_embeds (fun item hitem => ?_) h).trans rfl
    obtain ⟨i, hi, rfl⟩ := List.mem_mapIdx.mp hitem
    exact List.getElem?_eq_getElem hi

omit [DecidableEq H] in
theorem scheduleEncoder_zero {s : Scheduler H} {r : RequestId} (hn : 0 < n)
    (horder : InOrder (s.request r).mmFeatures)
    (h : s.scheduleEncoder r n budget = .ok (0, ids, budget', cache')) : ids = [] := by
  unfold scheduleEncoder at h
  dsimp only at h
  split at h
  · simp only [Except.ok.injEq, Prod.mk.injEq] at h
    exact h.2.1.symm
  · refine scheduleEncoderLoop_zero hn ?_ (fun hsome => absurd rfl hsome) h
    have hsame : ((s.request r).mmFeatures.mapIdx fun i feature => (i, feature)).map (·.2) =
        (s.request r).mmFeatures := by
      simp [List.mapIdx_eq_zipIdx_map, Function.comp_def]
    rw [hsame]
    exact horder

end Scheduler

namespace StepState

variable {s : Scheduler H} {l l' : StepState H}

def pendingEmbeds (features : RequestId → List MultiModalFeatureSpec) (l : StepState H) : ℕ :=
  match l.phase.pending with
  | none => 0
  | some (r, ids) => embedsOf (features r) ids

/-- The encoder book: what is left, what the step's inputs cost, and what is
reserved for the request to be admitted make up the budget. -/
def EncoderBalance (features : RequestId → List MultiModalFeatureSpec) (l : StepState H) : Prop :=
  l.encoderBudget + (l.scheduledEncoderInputs.weigh fun r ids => embedsOf (features r) ids) +
    pendingEmbeds features l = l.scheduler.config.maxNumEncoderInputTokens

omit [DecidableEq H] in
theorem releaseEncoderReservation_embeds (l : StepState H) (r : RequestId) (ids : List ℕ) :
    (l.releaseEncoderReservation r ids).encoderPart.budget =
      l.encoderBudget + embedsOf (l.scheduler.request r).mmFeatures ids := by
  simp only [releaseEncoderReservation, encoderPart, embedsOf, List.map_filterMap, Option.map_map]
  rfl

/-- A request that waits has no inputs in the step. -/
theorem Batch.no_inputs_of_queued (hb : Batch l) (hover : l.phase.overWaiting = true)
    {r : RequestId} (hr : r ∈ l.scheduler.queued) : r ∉ l.scheduledEncoderInputs.keys := by
  intro hkey
  rcases hb.encoder r hkey with hin | ⟨n, hphase⟩
  · exact hb.partition.not_running_of_waiting hr (hb.running r hin)
  · rw [hphase] at hover
    cases hover

/-- Every step of the loops keeps the encoder book. -/
theorem Encodes.balance {features : RequestId → List MultiModalFeatureSpec} (h : Encodes l l')
    (hout : Outcome l l') (hb : Batch l)
    (hfeatures : ∀ r, (l.scheduler.request r).mmFeatures = features r)
    (horder : ∀ r ∈ l.scheduler.requests, InOrder (features r))
    (hl : EncoderBalance features l) : EncoderBalance features l' := by
  unfold EncoderBalance at hl ⊢
  rw [hout.static.1]
  cases h with
  | still hpart hbefore hafter hrunning =>
      simp only [encoderPart, EncoderPart.mk.injEq] at hpart
      obtain ⟨-, hbudget, hinputs⟩ := hpart
      rw [pendingEmbeds, hbefore] at hl
      rw [pendingEmbeds, hafter, hbudget, hinputs]
      exact hl
  | @reserveRunning r n n' ids hphase hr hn hok hnext hrunning =>
      have hsame : ((disableSpeculation l.scheduler r).request r).mmFeatures = features r := by
        rw [(disableSpeculation_keeps l.scheduler r r).eq]
        exact hfeatures r
      have hover : l.phase.overRunning = true := by rw [hphase]; rfl
      have hembeds := Scheduler.scheduleEncoder_embeds hok
      rw [hsame] at hembeds
      rw [pendingEmbeds, hphase] at hl
      dsimp only [Phase.pending] at hl
      rcases hnext with ⟨rfl, hinputs, hnext⟩ | ⟨-, hinputs, hnext⟩
      · -- trimmed to nothing: then nothing is encoded either
        have hknown := hb.partition.known_of_running (List.mem_of_getElem? hr)
        have hnone := Scheduler.scheduleEncoder_zero hn (hsame ▸ horder r hknown) hok
        rw [hnone, embedsOf_nil] at hembeds
        rw [pendingEmbeds, hnext, hinputs]
        dsimp only [Phase.pending]
        omega
      · rw [pendingEmbeds, hnext]
        dsimp only [Phase.pending]
        split at hinputs
        · rename_i hnone
          rw [hnone, embedsOf_nil] at hembeds
          rw [hinputs]
          omega
        · -- a request that waits for slots is not in the batch, and has no inputs there
          have hfresh : r ∉ l.scheduledEncoderInputs.keys := by
            intro hkey
            rcases hb.encoder r hkey with hin | ⟨m, halloc⟩
            · rw [hb.batch_eq hover] at hin
              exact hb.at_index hover hr hin
            · rw [hphase] at halloc
              cases halloc
          rw [hinputs, Dict.weigh_store_of_not_mem hfresh]
          omega
  | @reserveWaiting s₁ r n n' ids hphase hs hcache hn hok hinputs hrequest hnext hrunning =>
      have hsame : (s₁.request r).mmFeatures = features r := by
        rw [(hs.keeps r).eq]
        exact hfeatures r
      have hembeds := Scheduler.scheduleEncoder_embeds hok
      rw [hsame] at hembeds
      rw [pendingEmbeds, hphase] at hl
      dsimp only [Phase.pending] at hl
      rw [hinputs]
      rcases hnext with ⟨rfl, hnext⟩ | ⟨-, hits, numLocal, numExternal, hnext⟩
      · have hwaits : r ∈ l.scheduler.queued :=
          List.mem_append_left _ (List.mem_of_head? hs.head)
        have hknown := hb.partition.known_of_waiting hwaits
        have hnone := Scheduler.scheduleEncoder_zero hn (hsame ▸ horder r hknown) hok
        rw [hnone, embedsOf_nil] at hembeds
        rw [pendingEmbeds, hnext]
        dsimp only [Phase.pending]
        omega
      · rw [pendingEmbeds, hnext]
        dsimp only [Phase.pending]
        omega
  | @release r victim n kv hphase hdeclined hvictim hpart hnext hrunning =>
      have hbudget := congrArg EncoderPart.budget hpart
      have hinputs : l'.scheduledEncoderInputs = l.scheduledEncoderInputs.delete victim :=
        congrArg EncoderPart.inputs hpart
      rw [releaseEncoderReservation_embeds, hfeatures] at hbudget
      have hdelete := l.scheduledEncoderInputs.weigh_delete victim
        fun r ids => embedsOf (features r) ids
      -- what the inputs of the victim cost comes back
      have hshare : ((l.scheduledEncoderInputs.find victim).map fun ids =>
          embedsOf (features victim) ids).getD 0 =
            embedsOf (features victim) (l.scheduledEncoderInputs.findD victim []) := by
        rw [Dict.findD]
        cases l.scheduledEncoderInputs.find victim <;> rfl
      have hafter : pendingEmbeds features l' = 0 := by
        rw [pendingEmbeds, hnext]
        split_ifs <;> rfl
      change l'.encoderBudget = _ at hbudget
      rw [pendingEmbeds, hphase] at hl
      dsimp only [Phase.pending] at hl
      rw [hinputs, hafter]
      omega
  | @place r hits numLocal numExternal n ids hphase hcache hbudget hinputs hnext
      hrunning =>
      have hfresh : r ∉ l.scheduledEncoderInputs.keys := by
        refine hb.no_inputs_of_queued (by rw [hphase]; rfl) ?_
        exact List.mem_append_left _ (List.mem_of_head? (hb.admitting _ _ _ _ _ _ hphase).2.1)
      rw [pendingEmbeds, hphase] at hl
      dsimp only [Phase.pending] at hl
      rw [pendingEmbeds, hnext, hbudget, hinputs]
      dsimp only [Phase.pending]
      split
      · rename_i hnone
        rw [hnone, embedsOf_nil] at hl
        omega
      · rw [Dict.weigh_store_of_not_mem hfresh]
        omega
  | @decline r hits numLocal numExternal n ids kv hphase hdeclined hpart hnext hrunning =>
      have hbudget := congrArg EncoderPart.budget hpart
      have hinputs : l'.scheduledEncoderInputs = l.scheduledEncoderInputs.delete r :=
        congrArg EncoderPart.inputs hpart
      have hfresh : r ∉ l.scheduledEncoderInputs.keys := by
        refine hb.no_inputs_of_queued (by rw [hphase]; rfl) ?_
        exact List.mem_append_left _ (List.mem_of_head? (hb.admitting _ _ _ _ _ _ hphase).2.1)
      rw [releaseEncoderReservation_embeds, hfeatures] at hbudget
      change l'.encoderBudget = _ at hbudget
      rw [pendingEmbeds, hphase] at hl
      dsimp only [Phase.pending] at hl
      rw [pendingEmbeds, hnext, hinputs, Dict.delete_of_not_mem hfresh]
      dsimp only [Phase.pending]
      omega

theorem Loops.slots {maxLoras : ℕ} (hpart : s.Partitioned)
    (hmax : s.config.maxLoras = some maxLoras) (hstart : s.adapters.length ≤ maxLoras)
    (hloops : Loops (start s) l) : Slots maxLoras l := by
  induction hloops with
  | refl =>
      exact ⟨hstart, fun hover => (by cases hover), fun r hits a b n ids heq => (by cases heq)⟩
  | tail hloops hstep ih =>
      exact advance_slots (Loops.batch hpart hloops)
        ((congrArg SchedulerConfig.maxLoras (Loops.static hloops).1).trans hmax) hstep ih

/-! ### Every point of a call -/

/-- What the books and the caps say of a point of the loops. -/
structure Budgeted (features : RequestId → List MultiModalFeatureSpec)
    (l : StepState H) : Prop where
  tokens : l.tokenBudget + l.numScheduledTokens.total id =
    l.scheduler.config.maxNumScheduledTokens
  encoder : EncoderBalance features l
  seats : l.scheduler.running.length ≤ l.scheduler.config.maxNumRunningReqs
  adapters : ∀ maxLoras, l.scheduler.config.maxLoras = some maxLoras →
    l.scheduler.adapters.length ≤ maxLoras

end StepState

namespace Scheduler

/-- The caps, between calls. -/
structure Capacity (s : Scheduler H) : Prop where
  running : s.running.length ≤ s.config.maxNumRunningReqs
  adapters : ∀ maxLoras, s.config.maxLoras = some maxLoras → s.adapters.length ≤ maxLoras

theorem Capacity.loops {s : Scheduler H} {l : StepState H} (h : s.Capacity) (hpart : s.Partitioned)
    (horder : ∀ r ∈ s.requests, InOrder (s.request r).mmFeatures)
    (hloops : StepState.Loops (StepState.start s) l) :
    l.Budgeted fun r => (s.request r).mmFeatures := by
  have hseats : StepState.Seats l := hloops.invariant
    ⟨h.running, fun r hits a b n ids heq => (by cases heq)⟩ fun _ _ hstep hl => hstep.seats hl
  have htokens : l.Batch ∧ StepState.Tokens l := hloops.invariant
    (P := fun l => l.Batch ∧ StepState.Tokens l)
    ⟨StepState.batch_start hpart, Nat.add_zero _, Nat.zero_le _⟩ fun _ _ hstep ⟨hb, ht⟩ =>
      ⟨hstep.batch hb, hstep.tokens hb ht⟩
  have hbalance : StepState.EncoderBalance (fun r => (s.request r).mmFeatures) l := by
    refine hloops.encoding_invariant hpart rfl ?_
    intro l l' hreach hb hout henc hl
    refine henc.balance hout hb (fun r => ?_) (fun r hr => ?_) hl
    · rw [(hreach.keeps r).eq]
      rfl
    · rw [hreach.static.2.1] at hr
      exact horder r hr
  refine ⟨htokens.2.balance, hbalance, hseats.running, fun maxLoras hmax => ?_⟩
  have hmax' : s.config.maxLoras = some maxLoras := by
    rw [← hmax, hloops.static.1]
    rfl
  exact (hloops.slots hpart hmax' (h.adapters maxLoras hmax')).resident

/-- Only a call of `schedule` starts requests. -/
theorem Step.fewer {s s' : Scheduler H} {event : Event} (hstep : Step s event s') :
    (∃ output, event = .schedule output) ∨ s'.running.Sublist s.running := by
  cases hstep with
  | addRequest hrequest hfresh =>
      refine Or.inr ?_
      rw [addRequest_eq]
  | finishRequests hok =>
      refine Or.inr (finishAll_invariant (P := fun s' => s'.running.Sublist s.running)
        (finishRequests_ok hok).2 (List.Sublist.refl _) fun s₁ s₂ r _ hone h => ?_)
      rcases finishOne_ok hone with ⟨-, rfl⟩ | ⟨-, running, waiting, kv, connector, cache,
          hcases, -, -, rfl⟩
      · exact h
      · rcases hcases with ⟨-, -, rfl, -⟩ | ⟨-, rfl, -⟩
        · exact List.erase_sublist.trans h
        · exact h
  | schedule hok => exact Or.inl ⟨_, rfl⟩
  | updateFromOutput hok =>
      obtain ⟨u, s₁, hall, -, -, rfl⟩ := updateFromOutput_ok hok
      have hsub := UpdateState.updateAll_invariant
        (P := fun u rest => (u.stillRunning ++ rest).Sublist s.running) hall
        (by rw [List.nil_append]) fun u u' r rest hone h => by
          cases hone with
          | skip hscheduled => rwa [List.append_assoc]
          | goOn hscheduled hfolds hkept hpooled houtputs => rwa [List.append_assoc]
          | stop hscheduled hfolds hkept houtput hfree hconnector =>
              exact ((List.sublist_cons_self r rest).append_left _).trans h
      rw [List.append_nil] at hsub
      exact Or.inr hsub
  | resetPrefixCache => exact Or.inr (List.Sublist.refl _)
  | grammar hcompiling => exact Or.inr (List.Sublist.refl _)
  | sharedStore hconnector => exact Or.inr (List.Sublist.refl _)

theorem Step.capacity {s s' : Scheduler H} {event : Event} (hstep : Step s event s')
    (hsettled : s.Settled) (hconfig : s'.config = s.config)
    (horder : ∀ r ∈ s.requests, InOrder (s.request r).mmFeatures) (h : s.Capacity) :
    s'.Capacity := by
  rcases hstep.fewer with ⟨output, rfl⟩ | hsub
  · cases hstep with
    | schedule hok =>
        obtain ⟨l, hloops, -, hfinishes⟩ := schedule_ok hok
        have hl := h.loops hsettled.partition horder hloops
        have hrunning : s'.running = l.scheduler.running := by
          rw [hfinishes.state, StepState.restoreSkippedWaiting_frame]
        have hstatic : l.scheduler.config = s.config := hloops.static.1
        refine ⟨?_, fun maxLoras hmax => ?_⟩
        · rw [hrunning, hconfig, ← hstatic]
          exact hl.seats
        · rw [hconfig, ← hstatic] at hmax
          refine (adapters_length_le (adapters_mono (fun r hr => hrunning ▸ hr)
            fun r _ => ?_)).trans (hl.adapters maxLoras hmax)
          rw [hfinishes.state]
          show (StepState.advancedTable _ _ r).loraRequest = _
          unfold StepState.advancedTable
          split <;> rfl
  · have hfresh : ∀ r ∈ s.running, event.added ≠ some r := by
      intro r hr hadded
      cases hstep with
      | addRequest hrequest hfresh =>
          obtain rfl := Option.some.inj hadded
          exact hfresh (hsettled.partition.known_of_running hr)
      | finishRequests => cases hadded
      | schedule => cases hadded
      | updateFromOutput => cases hadded
      | resetPrefixCache => cases hadded
      | grammar => cases hadded
      | sharedStore => cases hadded
    refine ⟨?_, fun maxLoras hmax => ?_⟩
    · rw [hconfig]
      exact hsub.length_le.trans h.running
    · rw [hconfig] at hmax
      refine (adapters_length_le (adapters_mono (fun r hr => hsub.subset hr) fun r hr => ?_)).trans
        (h.adapters maxLoras hmax)
      rw [(hstep.keeps (hfresh r (hsub.subset hr))).eq]

omit [DecidableEq H] in
theorem init_capacity {config : SchedulerConfig} {kvCacheConfig : KVCacheConfig}
    {enableCaching : Bool} {hashFn : HashInput H → H} {seed : ℕ}
    {connector : Option (SimSharedStoreConnector H)} {s : Scheduler H}
    (h : init config kvCacheConfig enableCaching hashFn seed connector = .ok s) : s.Capacity := by
  unfold init at h
  split at h
  · cases h
  split at h
  · cases h
  obtain rfl := Except.ok.inj h
  exact ⟨Nat.zero_le _, fun maxLoras _ => Nat.zero_le _⟩

/-- In every state of every run, and at every point of every call there: the
tokens left and those granted make up the token budget, the embeddings left and
those of the step's inputs the encoder budget, and the running requests and
their adapters are within their caps. The checks of the source on the three are
what the last three fields deny. -/
structure Conserved (s : Scheduler H) : Prop where
  budgeted : ∀ l, StepState.Loops (StepState.start s) l →
    l.Budgeted fun r => (s.request r).mmFeatures
  total : ∀ l, StepState.Loops (StepState.start s) l →
    ¬ l.scheduler.config.maxNumScheduledTokens < (l.numScheduledTokens.items.map (·.2)).sum
  running : ∀ l, StepState.Loops (StepState.start s) l →
    ¬ l.scheduler.config.maxNumRunningReqs < l.scheduler.running.length
  loras : ∀ l maxLoras, StepState.Loops (StepState.start s) l →
    l.scheduler.config.maxLoras = some maxLoras → ¬ maxLoras < l.scheduler.adapters.length

/-- Over every run, whatever the results of its steps, the budgets are conserved. -/
theorem run_conserved {config : SchedulerConfig} {kvCacheConfig : KVCacheConfig}
    {enableCaching : Bool} {hashFn : HashInput H → H} {seed : ℕ}
    {connector : Option (SimSharedStoreConnector H)} {s₀ s : Scheduler H} {events : List Event}
    (hinit : init config kvCacheConfig enableCaching hashFn seed connector = .ok s₀)
    (hrun : Run Step s₀ events s)
    (horder : ∀ args, Event.addRequest args ∈ events → InOrder args.mmFeatures) :
    s.Conserved := by
  have hsettled₀ := (init_settled hinit).1
  have hpolicied₀ := (init_policied hinit).1
  have hknown := (init_settled hinit).2.1
  have hfeatures : ∀ {s events}, Run Step s₀ events s →
      (∀ args, Event.addRequest args ∈ events → InOrder args.mmFeatures) →
        ∀ r ∈ s.requests, InOrder (s.request r).mmFeatures := by
    intro s events hrun horder r hr
    obtain ⟨args, hmem, -, hasked⟩ := run_asked hrun hknown r hr
    rw [hasked.mmFeatures]
    exact horder args hmem
  have hcapacity : s.Capacity := by
    induction hrun with
    | nil => exact init_capacity hinit
    | snoc hrun hstep ih =>
        have horder' := fun args hmem => horder args (List.mem_append_left _ hmem)
        obtain ⟨hpolicied, -⟩ := run_policied hrun hpolicied₀
        exact hstep.capacity (run_settled hrun hsettled₀) (hstep.policied hpolicied).2
          (hfeatures hrun horder') (ih horder')
  have hpart := (run_settled hrun hsettled₀).partition
  have hbudgeted : ∀ l, StepState.Loops (StepState.start s) l →
      l.Budgeted fun r => (s.request r).mmFeatures :=
    fun l hloops => hcapacity.loops hpart (hfeatures hrun horder) hloops
  refine ⟨hbudgeted, fun l hloops => ?_, fun l hloops => ?_, fun l maxLoras hloops hmax => ?_⟩
  · have htokens := (hbudgeted l hloops).tokens
    have hsum : l.numScheduledTokens.total id = (l.numScheduledTokens.items.map (·.2)).sum := rfl
    omega
  · exact not_lt.mpr (hbudgeted l hloops).seats
  · exact not_lt.mpr ((hbudgeted l hloops).adapters maxLoras hmax)

def imageArgs (requestId : RequestId) : RequestArgs :=
  { RequestArgs.text requestId [1, 2, 3, 4] 8 with mmFeatures := [⟨"a", 1, 2, 2⟩] }

def imageRun : Except PyError (Request Digest × SchedulerOutput × Scheduler Digest) := do
  let s₀ ← init (shortConfig .priority) (shortKVConfig 4) true Digest.hash 0 none
  let request ← Request.init (imageArgs 1)
  let (output, s₁) ← (s₀.addRequest request).schedule
  return (request, output, s₁)

/-- The budgets, where an image is encoded. -/
theorem run_conserved_image : ∃ s : Scheduler Digest, s.Conserved ∧ s.running = [1] ∧
    (s.encoderCacheManager.getCachedInputIds 1) = [0] := by
  obtain ⟨⟨request, output, s₁⟩, hrun, hcheck⟩ :=
    exists_of_okAnd (x := imageRun) (p := fun (_, _, s₁) =>
      decide (s₁.running = [1] ∧ s₁.encoderCacheManager.getCachedInputIds 1 = [0]))
      (by decide +kernel)
  have hfacts := of_decide_eq_true hcheck
  unfold imageRun at hrun
  obtain ⟨s₀, hinit, hrun⟩ := except_bind_iff.mp hrun
  obtain ⟨_, hrequest, hrun⟩ := except_bind_iff.mp hrun
  obtain ⟨⟨_, _⟩, hschedule, hrun⟩ := except_bind_iff.mp hrun
  cases hrun
  obtain ⟨-, hnone, -⟩ := init_settled hinit
  have hfresh : (imageArgs 1).requestId ∉ s₀.requests := by
    rw [hnone]
    exact List.not_mem_nil
  have hsteps := (Run.nil.snoc (Step.addRequest hrequest hfresh)).snoc (Step.schedule hschedule)
  refine ⟨s₁, run_conserved hinit hsteps fun args hmem => ?_, hfacts⟩
  obtain rfl : args = imageArgs 1 := by simpa using hmem
  exact List.pairwise_singleton _ _

end Scheduler

end Pvllm
