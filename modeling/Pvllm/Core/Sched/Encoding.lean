import Pvllm.Core.Sched.Batch

/-!
What the loops of `schedule` do with the encoder.

The encoder has a budget of its own, a cache shared by all requests, and a list
of the inputs to encode in the step. `Encodes` lists how one step of the loops
moves them: it reserves inputs for the request it takes up, releases what a
victim or a request that is not admitted had reserved, or leaves them alone.
-/

namespace Pvllm

variable {H : Type} [DecidableEq H]

/-- The request that is to be admitted, with the inputs reserved for it: they are
not among those of the step yet. -/
def Phase.pending : Phase → Option (RequestId × List ℕ)
  | .admitting r _ _ _ _ ids => some (r, ids)
  | _ => none

namespace StepState

variable {l l' : StepState H}

/-- The encoder's part of a point of the loops. -/
structure EncoderPart where
  cache : EncoderCacheManager
  budget : ℕ
  inputs : Dict RequestId (List ℕ)

omit [DecidableEq H] in
def encoderPart (l : StepState H) : EncoderPart where
  cache := l.scheduler.encoderCacheManager
  budget := l.encoderBudget
  inputs := l.scheduledEncoderInputs

/-- What a step of the loops does to the encoder's part. -/
inductive Encodes (l l' : StepState H) : Prop
  /-- Nothing. -/
  | still (hpart : l'.encoderPart = l.encoderPart) (hbefore : l.phase.pending = none)
      (hafter : l'.phase.pending = none) (hrunning : l'.scheduler.running = l.scheduler.running)
      (hnext : ∀ r n, l'.phase ≠ .allocating r n)
  /-- A running request is taken up. -/
  | reserveRunning {r : RequestId} {n n' : ℕ} {ids : List ℕ} (hphase : l.phase = .running)
      (hr : l.scheduler.running[l.reqIndex]? = some r) (hn : 0 < n)
      (hok : (disableSpeculation l.scheduler r).scheduleEncoder r n l.encoderBudget =
        .ok (n', ids, l'.encoderBudget, l'.scheduler.encoderCacheManager))
      (hnext : n' = 0 ∧ l'.scheduledEncoderInputs = l.scheduledEncoderInputs ∧
          l'.phase = .running ∨
        n' ≠ 0 ∧ l'.scheduledEncoderInputs = (if ids = [] then l.scheduledEncoderInputs
          else l.scheduledEncoderInputs.store r ids) ∧ l'.phase = .allocating r n')
      (hrunning : l'.scheduler.running = l.scheduler.running)
  /-- The head of the queue is taken up. -/
  | reserveWaiting {s : Scheduler H} {r : RequestId} {n n' : ℕ} {ids : List ℕ}
      (hphase : l.phase = .admission) (hs : Prepared l.scheduler s r)
      (hcache : s.encoderCacheManager = l.scheduler.encoderCacheManager) (hn : 0 < n)
      (hok : s.scheduleEncoder r n l.encoderBudget =
        .ok (n', ids, l'.encoderBudget, l'.scheduler.encoderCacheManager))
      (hinputs : l'.scheduledEncoderInputs = l.scheduledEncoderInputs)
      (hrequest : l'.scheduler.request = s.request)
      (hnext : n' = 0 ∧ l'.phase = .admission ∨
        n' ≠ 0 ∧ ∃ hits numLocal numExternal,
          l'.phase = .admitting r hits numLocal numExternal n' ids)
      (hrunning : l'.scheduler.running = l.scheduler.running)
  /-- A victim gives back what it had. -/
  | release {r victim : RequestId} {n : ℕ} {kv : KVCacheManager H}
      (hphase : l.phase = .allocating r n)
      (hdeclined : l.scheduler.kvCacheManager.allocateSlots (l.scheduler.request r) n 0 none 0
        false = .ok (none, kv))
      (hvictim : l.scheduler.selectVictim = .ok victim)
      (hpart : l'.encoderPart = (l.releaseEncoderReservation victim
        (l.scheduledEncoderInputs.findD victim [])).encoderPart)
      (hnext : l'.phase = if victim = r then .finished else .allocating r n)
      (hrunning : ∀ r' ∈ l.scheduler.running, r' ≠ victim → r' ∈ l'.scheduler.running)
  /-- The request is admitted. -/
  | place {r : RequestId} {hits : List (List BlockId)} {numLocal numExternal n : ℕ}
      {ids : List ℕ} (hphase : l.phase = .admitting r hits numLocal numExternal n ids)
      (hcache : l'.scheduler.encoderCacheManager = l.scheduler.encoderCacheManager)
      (hbudget : l'.encoderBudget = l.encoderBudget)
      (hinputs : l'.scheduledEncoderInputs = if ids = [] then l.scheduledEncoderInputs
        else l.scheduledEncoderInputs.store r ids)
      (hnext : l'.phase = .admission)
      (hrunning : l'.scheduler.running = l.scheduler.running ++ [r])
  /-- The request is not admitted. -/
  | decline {r : RequestId} {hits : List (List BlockId)} {numLocal numExternal n : ℕ}
      {ids : List ℕ} {kv : KVCacheManager H}
      (hphase : l.phase = .admitting r hits numLocal numExternal n ids)
      (hdeclined : l.scheduler.kvCacheManager.allocateSlots (l.scheduler.request r) n
        (numLocal + numExternal) (some hits) 0 false = .ok (none, kv))
      (hpart : l'.encoderPart = (l.releaseEncoderReservation r ids).encoderPart)
      (hnext : l'.phase = .finished) (hrunning : l'.scheduler.running = l.scheduler.running)

/-! ### The list is complete -/

theorem enterAdmission_encodes (hphase : l.phase.pending = none)
    (h : l.enterAdmission = .ok l') : Encodes l l' := by
  obtain ⟨loras, rfl⟩ := enterAdmission_ok h
  refine .still rfl hphase ?_ rfl fun r n => ?_
  · dsimp only
    split <;> rfl
  · dsimp only
    split <;> exact fun heq => (by cases heq)

theorem runningStep_encodes (hphase : l.phase = .running) (h : l.runningStep = .ok l') :
    Encodes l l' := by
  have hpending : l.phase.pending = none := by rw [hphase]; rfl
  unfold runningStep at h
  split at h
  · exact enterAdmission_encodes hpending h
  rename_i r hr
  split at h
  · exact enterAdmission_encodes hpending h
  dsimp only at h
  split at h
  · cases h
  split at h
  · obtain rfl := Except.ok.inj h
    refine .still ?_ hpending hpending (disableSpeculation_running ..) fun r n heq => ?_
    · rw [encoderPart, disableSpeculation_frame]
      rfl
    · rw [hphase] at heq
      cases heq
  rename_i hn
  split at h
  · cases h
  rename_i n ids budget cache hok
  have hpos := Nat.pos_of_ne_zero hn
  split at h
  · rename_i hzero
    obtain rfl := Except.ok.inj h
    exact .reserveRunning hphase hr hpos hok (Or.inl ⟨hzero, rfl, hphase⟩)
      (disableSpeculation_running ..)
  · rename_i hsome
    obtain rfl := Except.ok.inj h
    exact .reserveRunning hphase hr hpos hok (Or.inr ⟨hsome, rfl, rfl⟩)
      (disableSpeculation_running ..)

omit [DecidableEq H] in
/-- A request that gives back nothing moves nothing, but for its own entry. -/
theorem releaseEncoderReservation_nil (l : StepState H) (r : RequestId) :
    (l.releaseEncoderReservation r []).encoderPart =
      { l.encoderPart with inputs := l.scheduledEncoderInputs.delete r } := rfl

omit [DecidableEq H] in
theorem releaseEncoderReservation_congr {r : RequestId} (ids : List ℕ)
    (hpart : l'.encoderPart = l.encoderPart)
    (hrequest : l'.scheduler.request r = l.scheduler.request r) :
    (l'.releaseEncoderReservation r ids).encoderPart =
      (l.releaseEncoderReservation r ids).encoderPart := by
  simp only [encoderPart, EncoderPart.mk.injEq] at hpart
  obtain ⟨hcache, hbudget, hinputs⟩ := hpart
  simp only [releaseEncoderReservation, encoderPart, hcache, hbudget, hinputs, hrequest]

theorem allocatingStep_encodes {r : RequestId} {n : ℕ} (hphase : l.phase = .allocating r n)
    (h : l.allocatingStep r n = .ok l') : Encodes l l' := by
  have hpending : l.phase.pending = none := by rw [hphase]; rfl
  unfold allocatingStep at h
  split at h
  · cases h
  · rename_i blocks kv hok
    obtain rfl := Except.ok.inj h
    refine .still ?_ hpending rfl (commitRunning_running ..) fun r n heq => (by cases heq)
    unfold commitRunning encoderPart
    dsimp only
    congr 1
    split <;> rfl
  rename_i kv hok
  unfold preemptFor at h
  split at h
  · cases h
  rename_i victim hvictim
  split at h
  · cases h
  rename_i l₁ hdrop
  obtain ⟨inBatch, blocks, scheduled, tokenBudget, reqIndex, -, rfl⟩ := dropVictim_ok hdrop
  dsimp only at h
  split at h
  · cases h
  rename_i s hpreempt
  obtain ⟨-, kv', -, rfl⟩ := preemptRequest_ok hpreempt
  have hrunning : ∀ r' ∈ l.scheduler.running, r' ≠ victim → r' ∈
      if l.scheduler.config.policy = .fcfs then l.scheduler.running.dropLast
        else l.scheduler.running.erase victim := fun r' hr' hne =>
    (List.mem_cons.mp ((perm_dropVictim hvictim).mem_iff.mp hr')).resolve_left hne
  split at h
  · rename_i heq
    subst heq
    obtain ⟨loras, rfl⟩ := enterAdmission_ok h
    refine .release hphase hok hvictim ?_ ?_ hrunning
    · -- the second release finds nothing left
      have hnone : (l.scheduledEncoderInputs.delete victim).findD victim [] = [] := by
        rw [Dict.findD_delete, if_pos rfl]
      simp only [releaseEncoderReservation, hnone, List.filterMap_nil, List.foldl_nil,
        List.map_nil, List.sum_nil, Nat.add_zero, Dict.delete_delete, encoderPart]
    · rw [if_pos rfl]
      exact if_neg (List.append_ne_nil_of_right_ne_nil _ (List.cons_ne_nil _ _))
  · rename_i hne
    obtain rfl := Except.ok.inj h
    refine .release hphase hok hvictim rfl ?_ hrunning
    rw [if_neg hne]
    exact hphase

theorem setAside_encodes {s : Scheduler H} (hphase : l.phase = .admission)
    (hcache : s.encoderCacheManager = l.scheduler.encoderCacheManager)
    (hrunning : s.running = l.scheduler.running) (h : l.setAside s = .ok l') : Encodes l l' := by
  obtain ⟨r, waiting, -, rfl⟩ := setAside_ok h
  refine .still ?_ (by rw [hphase]; rfl) rfl hrunning fun r n heq => (by cases heq)
  simp only [encoderPart, hcache]

theorem lookupStep_encodes {s : Scheduler H} {r : RequestId} (hphase : l.phase = .admission)
    (hs : Prepared l.scheduler s r) (hkv : s.kvCacheManager = l.scheduler.kvCacheManager)
    (hcache : s.encoderCacheManager = l.scheduler.encoderCacheManager)
    (hconnector : s.connector = l.scheduler.connector) (h : l.lookupStep s r = .ok l') :
    Encodes l l' := by
  have hpending : l.phase.pending = none := by rw [hphase]; rfl
  unfold lookupStep at h
  split at h
  · cases h
  rename_i hits numLocal kv hlookup
  dsimp only at h
  obtain ⟨connector, hmatch, hasked⟩ :=
    matchExternal_eq { s with kvCacheManager := kv } (s.request r) numLocal
  rw [hmatch] at h
  dsimp only at h hasked
  have hprep : Prepared l.scheduler { s with kvCacheManager := kv, connector := connector } r := by
    refine ⟨hs.head, ?_, hs.table, Or.inr ⟨(hits, numLocal), ?_⟩, hconnector ▸ hasked⟩
    · rw [hs.frame]
    · rw [← hkv]
      exact hlookup
  split at h
  · obtain rfl := Except.ok.inj h
    exact .still (by simp only [encoderPart, hcache]) hpending rfl hs.running_eq
      fun r n heq => (by cases heq)
  split at h
  · obtain rfl := Except.ok.inj h
    exact .still (by simp only [encoderPart, hcache]) hpending rfl hs.running_eq
      fun r n heq => (by cases heq)
  rename_i hn
  split at h
  · cases h
  rename_i n ids budget cache hok
  have hpos := Nat.pos_of_ne_zero hn
  split at h
  · rename_i hzero
    split at h
    · cases h
    obtain ⟨r', waiting, -, rfl⟩ := setAside_ok h
    exact .reserveWaiting hphase hprep hcache hpos hok rfl rfl (Or.inl ⟨hzero, rfl⟩)
      hs.running_eq
  · rename_i hsome
    obtain rfl := Except.ok.inj h
    exact .reserveWaiting hphase hprep hcache hpos hok rfl rfl
      (Or.inr ⟨hsome, _, _, _, rfl⟩) hs.running_eq

theorem admissionStep_encodes (hphase : l.phase = .admission) (h : l.admissionStep = .ok l') :
    Encodes l l' := by
  have hpending : l.phase.pending = none := by rw [hphase]; rfl
  unfold admissionStep at h
  dsimp only at h
  split at h
  · obtain rfl := Except.ok.inj h
    exact .still rfl hpending rfl rfl fun r n heq => (by cases heq)
  split at h
  · obtain rfl := Except.ok.inj h
    exact .still rfl hpending rfl rfl fun r n heq => (by cases heq)
  split at h
  · obtain rfl := Except.ok.inj h
    exact .still rfl hpending rfl rfl fun r n heq => (by cases heq)
  split at h
  · cases h
  rename_i r hpeek
  have hhead : l.scheduler.waiting.items.head? = some r := by
    obtain ⟨queue', hpop⟩ := RequestQueue.popRequest_of_peek hpeek
    rw [RequestQueue.popRequest_eq_ok hpop, List.head?_cons]
  split at h
  · exact setAside_encodes hphase rfl rfl h
  split at h
  · rename_i hgrammar
    split at h
    · rename_i s hpromote
      have hsame : s.encoderCacheManager = l.scheduler.encoderCacheManager ∧
          s.running = l.scheduler.running := by
        unfold Scheduler.promoteGrammarRequest at hpromote
        split at hpromote
        · cases hpromote
        · obtain rfl := (Prod.mk.inj hpromote).2
          exact ⟨rfl, rfl⟩
        · obtain rfl := (Prod.mk.inj hpromote).2
          exact ⟨rfl, rfl⟩
        · cases hpromote
      exact setAside_encodes hphase hsame.1 hsame.2 h
    · rename_i s hpromote
      have hpromoted : ∃ status, (status = .waiting ∨ status = .preempted) ∧
          s = l.scheduler.modifyRequest r (·.withStatus status) := by
        unfold Scheduler.promoteGrammarRequest at hpromote
        split at hpromote
        · exact ⟨_, Or.inl rfl, (Prod.mk.inj hpromote).2.symm⟩
        · cases hpromote
        · cases hpromote
        · refine ⟨_, ?_, (Prod.mk.inj hpromote).2.symm⟩
          split
          · exact Or.inr rfl
          · exact Or.inl rfl
      obtain ⟨status, hstatus, rfl⟩ := hpromoted
      have hs : Prepared l.scheduler (l.scheduler.modifyRequest r (·.withStatus status)) r :=
        ⟨hhead, rfl, Or.inr ⟨hgrammar, status, hstatus, rfl⟩, Or.inl rfl, Or.inl rfl⟩
      exact lookupStep_encodes hphase hs rfl rfl rfl h
  · exact lookupStep_encodes hphase ⟨hhead, rfl, Or.inl rfl, Or.inl rfl, Or.inl rfl⟩ rfl rfl rfl h

theorem admittingStep_encodes (hb : Batch l) {r : RequestId} {hits : List (List BlockId)}
    {numLocal numExternal n : ℕ} {ids : List ℕ}
    (hphase : l.phase = .admitting r hits numLocal numExternal n ids)
    (h : l.admittingStep r hits numLocal numExternal n ids = .ok l') : Encodes l l' := by
  unfold admittingStep at h
  split at h
  · cases h
  · rename_i kv hok
    obtain rfl := Except.ok.inj h
    exact .decline hphase hok (releaseEncoderReservation_congr ids rfl rfl) rfl rfl
  · rename_i blocks kv hok
    unfold commitAdmitted at h
    split at h
    · cases h
    rename_i r' waiting hpop
    have hr : r' = r :=
      RequestQueue.head_of_pop (hb.admitting _ _ _ _ _ _ hphase).2.1 hpop
    subst hr
    dsimp only at h
    split at h
    · cases h
    obtain rfl := Except.ok.inj h
    exact .place hphase rfl rfl rfl rfl rfl

/-- Every step of the loops is one of the list. -/
theorem advance_encodes (hb : Batch l) (h : l.advance = .ok l') : Encodes l l' := by
  unfold advance at h
  split at h
  · rename_i hphase
    exact runningStep_encodes hphase h
  · rename_i r n hphase
    exact allocatingStep_encodes hphase h
  · rename_i hphase
    exact admissionStep_encodes hphase h
  · rename_i hphase
    exact admittingStep_encodes hb hphase h
  · rename_i hphase
    obtain rfl := Except.ok.inj h
    have hpending : l.phase.pending = none := by rw [hphase]; rfl
    exact .still rfl hpending hpending rfl fun r n heq => (by rw [hphase] at heq; cases heq)

/-- What holds at the start and is kept by every step, with what the step does to
the batch and to the encoder, holds throughout. -/
theorem Loops.encoding_invariant {P : StepState H → Prop} {s : Scheduler H} (hpart : s.Partitioned)
    (hloops : Loops (start s) l) (hstart : P (start s))
    (hkeep : ∀ l l', Loops (start s) l → Batch l → Outcome l l' → Encodes l l' → P l → P l') :
    P l := by
  induction hloops with
  | refl => exact hstart
  | @tail l₁ l₂ hloops hstep ih =>
      have hb := Loops.batch hpart hloops
      exact hkeep l₁ l₂ hloops hb (advance_outcome hstep) (advance_encodes hb hstep) ih

end StepState

end Pvllm
