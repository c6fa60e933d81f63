import Pvllm.Core.Retention
import Pvllm.Core.Sched.Granted
import Pvllm.Core.Sched.Ledger

/-!
What is attended to stays, over runs of the engine.

A step grants a request slots behind what it holds, at the count it stands at, and
the count is behind the step in flight by what the step computes. The results bring
it forward by one token at least, and only then is anything shed. So the tables of a
running request keep what is attended to at its count, less the step in flight.
-/

namespace Pvllm

variable {H : Type} [DecidableEq H]

open KVCacheManager (Continues)

/-! ### Through a call of `schedule` -/

namespace KVCacheManager

/-- How the tables of a request stand that is computed to `n` and has slots for `count`
tokens: what is attended to is kept, and nothing is gone early where no step is in
flight. -/
structure Standing (m : KVCacheManager H) (r : RequestId) (n count : ℕ) : Prop where
  keeps : m.Keeps r n count
  spares : count = n → m.Spares r n

variable {m m' : KVCacheManager H} {r : RequestId} {n count : ℕ}

theorem Standing.continues (h : m.Standing r n count) (horder : ∃ free, m.InOrder free)
    (hcontinues : Continues m m') (hsame : m'.getBlocks r = m.getBlocks r) :
    m'.Standing r n count := by
  obtain ⟨free, horder⟩ := horder
  obtain ⟨⟨free', horder'⟩, hsetup⟩ := hcontinues
  exact ⟨h.keeps.congr horder horder' hsetup hsame,
    fun heq => (h.spares heq).congr horder horder' hsetup hsame⟩

omit [DecidableEq H] in
/-- The hashes of a request reach as far as a lookup reads them. -/
theorem hashes_reach {request : Request H} (h : request.HashedAs m.blockHasher)
    (hcaching : m.enableCaching = true) :
    request.numTokens / m.kvCacheConfig.blockSize ≤ request.blockHashes.length := by
  cases hpolicy : m.blockHasher with
  | none =>
      unfold KVCacheManager.blockHasher at hpolicy
      rw [if_pos hcaching] at hpolicy
      cases hpolicy
  | some hasher =>
      rw [hpolicy] at h
      have hhashed : request.Hashed hasher := h
      rw [hhashed.length, Ledger.blockHasher_eq hpolicy]

end KVCacheManager

/-- What a call grants keeps the tables of a running request. -/
theorem Granted.standing {s : Scheduler H} {r : RequestId} {scheduled : Option ℕ} {count : ℕ}
    {m : KVCacheManager H} (h : Granted s r scheduled count m)
    (horder : ∃ free, s.kvCacheManager.InOrder free)
    (hhashed : r ∈ s.requests → (s.request r).HashedAs s.kvCacheManager.blockHasher)
    (hstanding : r ∈ s.running → s.kvCacheManager.Standing r (s.request r).numComputedTokens
      (s.request r).numComputedTokens) :
    m.Standing r count (count + scheduled.getD 0) := by
  cases h with
  | passed hrunning hbefore htables =>
      exact (hstanding hrunning).continues horder hbefore htables
  | @grown m₁ m₂ _ request n blocks hrunning hbefore htables hrequest hid hcount hn hok hafter
      hsame =>
      obtain ⟨free₁, horder₁⟩ := hbefore.order
      have hfirst := ((hstanding hrunning).continues horder hbefore htables).keeps
      rw [← hcount] at hfirst ⊢
      have hkeeps := KVCacheManager.Keeps.allocateSlots horder₁ (hid.symm ▸ hfirst) hok
      rw [hid] at hkeeps
      refine KVCacheManager.Standing.continues ⟨hkeeps, fun heq => ?_⟩ ?_ hafter hsame
      · rw [Option.getD_some] at heq
        omega
      · exact (Continues.allocateSlots ⟨free₁, horder₁⟩ (fun _ heq => by cases heq) hok).order
  | @entered m₀ m₁ m₂ _ request hits blocks numLocal
      numExternal n hwaiting hnew hbefore hrequest hid hcount hidle hhits hn hok hafter hsame =>
      obtain ⟨free₀, horder₀⟩ := hbefore.order
      obtain ⟨horder₁, -⟩ := KVCacheManager.getComputedBlocks_inOrder horder₀ hhits
      obtain ⟨hsetup, hpool, hmanagers, hlooked⟩ :=
        KVCacheManager.getComputedBlocks_ok horder₀ hhits
      -- what the lookup found is of one length, and keeps what is attended to behind it
      have hrequest' : request.HashedAs m₀.blockHasher := by
        rw [hbefore.setup.blockHasher]
        exact (Request.HashedAs.lasting _).reworks (hhashed hwaiting) hrequest
      obtain ⟨hits', k, m', hfound, -, -, hshaped⟩ :=
        KVCacheManager.getComputedBlocks_shaped horder₀ (KVCacheManager.hashes_reach hrequest')
      rw [hhits] at hfound
      obtain ⟨⟨rfl, rfl⟩, rfl⟩ := Prod.mk.inj (Except.ok.inj hfound) |>.imp Prod.mk.inj id
      have hkept := KVCacheManager.getComputedBlocks_kept horder₀ hhits
      rw [← hpool, ← hmanagers] at hkept hshaped
      rw [← hsetup.kvCacheConfig] at hshaped
      have hhits₁ : m₁.Hits request hits := by
        unfold KVCacheManager.Hits at hlooked ⊢
        rwa [hpool, hmanagers]
      have hkeeps := KVCacheManager.allocateSlots_keeps horder₁ (hid.symm ▸ hidle) hhits₁ hshaped
        hkept ((Nat.div_mul_le_self ..).trans (Nat.le_add_right numLocal numExternal)) hok
      rw [hid, hcount, Nat.zero_add] at hkeeps
      refine KVCacheManager.Standing.continues ⟨hkeeps, fun heq => ?_⟩ ?_ hafter hsame
      · rw [Option.getD_some] at heq
        omega
      · exact (Continues.allocateSlots ⟨free₀, horder₁⟩
          (fun _ heq => Option.some.inj heq ▸ hhits₁) hok).order

/-! ### Through the other calls -/

namespace Scheduler

variable {s s' : Scheduler H}

/-- A call that may come at any time leaves the tables of a request that runs after it. -/
theorem Step.tables {event : Event} (hstep : Step s event s') (hanytime : event.anytime = true)
    (h : s.Settled) : ∀ r ∈ s'.running,
      s'.kvCacheManager.getBlocks r = s.kvCacheManager.getBlocks r := by
  intro r hr
  cases hstep with
  | addRequest hrequest hfresh =>
      rw [addRequest_eq]
  | finishRequests hok =>
      obtain ⟨hfinished, hall⟩ := finishRequests_ok hok
      refine (finishAll_invariant (P := fun s' => s'.Settled ∧ ∀ r ∈ s'.running,
        s'.kvCacheManager.getBlocks r = s.kvCacheManager.getBlocks r) hall ⟨h, fun _ _ => rfl⟩
        fun s₁ s₂ r' _ hone hs => ⟨hs.1.finishOne hfinished hone, fun r hr => ?_⟩).2 r hr
      have hwas := (finishOne_follows hs.1 hone r hr).1
      have hgone := (hs.1.finishOne hfinished hone).partition
      rcases finishOne_ok hone with ⟨-, rfl⟩ | ⟨hknown, _, _, _, _, _, hplace, hfree, -, rfl⟩
      · exact hs.2 r hwas
      · obtain ⟨free, horder⟩ := hs.1.partition.order
        refine (KVCacheManager.free_getBlocks_of_ne horder hfree ?_).trans (hs.2 r hwas)
        rintro rfl
        exact hs.1.partition.nodup.not_mem_erase (hgone.known_of_running hr)
  | schedule hok => cases hanytime
  | updateFromOutput hok => cases hanytime
  | resetPrefixCache =>
      obtain ⟨free, horder⟩ := h.partition.order
      obtain ⟨-, -, hmanagers, -⟩ := KVCacheManager.resetPrefixCache_spec horder
      show (s.kvCacheManager.resetPrefixCache.2).getBlocks r = _
      rw [KVCacheManager.getBlocks, hmanagers]
      rfl
  | grammar hcompiling => rfl
  | sharedStore hconnector => rfl

theorem shedAll_tables {l : List RequestId} (h : s.shedAll l = .ok s')
    (horder : ∃ free, s.kvCacheManager.InOrder free)
    (hid : ∀ r, (s.request r).requestId = r) {r : RequestId} (hr : r ∉ l) :
    Continues s.kvCacheManager s'.kvCacheManager ∧
      s'.kvCacheManager.getBlocks r = s.kvCacheManager.getBlocks r := by
  refine (shedAll_ok (P := fun m => Continues s.kvCacheManager m ∧
    m.getBlocks r = s.kvCacheManager.getBlocks r) h ⟨.refl horder, rfl⟩ ?_).1
  rintro r' hr' m m' hok ⟨hcontinues, hsame⟩
  obtain ⟨free, hm⟩ := hcontinues.order
  have hne : r ≠ (s.request r').requestId := by
    rw [hid]
    rintro rfl
    exact hr hr'
  exact ⟨hcontinues.trans (.removeSkippedBlocks ⟨free, hm⟩ hok),
    (KVCacheManager.removeSkippedBlocks_getBlocks_of_ne hm hok hne).trans hsame⟩

/-- Shedding goes over requests from whose tables nothing is gone early, and takes what
is to be shed from each. -/
theorem shedAll_sheds {l : List RequestId} (h : s.shedAll l = .ok s')
    (horder : ∃ free, s.kvCacheManager.InOrder free)
    (hid : ∀ r, (s.request r).requestId = r) (hnodup : l.Nodup) {count : RequestId → ℕ}
    (hkeeps : ∀ r ∈ l, ∃ n, s.kvCacheManager.Keeps r n (count r))
    (hspares : ∀ r ∈ l, s.kvCacheManager.Spares r (s.request r).numComputedTokens) :
    ∀ r ∈ l, s'.kvCacheManager.Keeps r (s.request r).numComputedTokens (count r) ∧
      s'.kvCacheManager.Spares r (s.request r).numComputedTokens ∧
      s'.kvCacheManager.HasShed r (s.request r).numComputedTokens := by
  induction l generalizing s with
  | nil => exact fun r hr => absurd hr List.not_mem_nil
  | cons r rest ih =>
      unfold shedAll at h
      split at h
      · cases h
      rename_i m hm
      obtain ⟨hnot, hnodup⟩ := List.nodup_cons.mp hnodup
      obtain ⟨free, horder⟩ := horder
      obtain ⟨free', horder', hsetup⟩ := KVCacheManager.removeSkippedBlocks_inOrder horder hm
      obtain ⟨⟨n, hkeep⟩, hkeeps⟩ := List.forall_mem_cons.mp hkeeps
      obtain ⟨hspare, hspares⟩ := List.forall_mem_cons.mp hspares
      have hshed := KVCacheManager.removeSkippedBlocks_sheds horder hm
        (by rw [hid]; exact hkeep) (by rw [hid]; exact hspare)
      rw [hid] at hshed
      -- the state in which the rest is gone over
      obtain ⟨s₁, hs₁, hmanager, hrequest⟩ : ∃ s₁ : Scheduler H, s₁.shedAll rest = .ok s' ∧
          s₁.kvCacheManager = m ∧ s₁.request = s.request := by
        dsimp only at h
        split at h
        · exact ⟨_, h, rfl, rfl⟩
        · exact ⟨_, h, rfl, rfl⟩
      have hothers : ∀ r' ∈ rest, m.getBlocks r' = s.kvCacheManager.getBlocks r' := by
        intro r' hr'
        refine KVCacheManager.removeSkippedBlocks_getBlocks_of_ne horder hm ?_
        rw [hid]
        rintro rfl
        exact hnot hr'
      refine List.forall_mem_cons.mpr ⟨?_, ?_⟩
      · obtain ⟨⟨⟨free₁, horder₁⟩, hsetup₁⟩, hsame⟩ := shedAll_tables hs₁
          (hmanager ▸ ⟨free', horder'⟩) (hrequest ▸ hid) hnot
        rw [hmanager] at hsetup₁ hsame
        exact ⟨hshed.1.congr horder' horder₁ hsetup₁ hsame,
          hshed.2.1.congr horder' horder₁ hsetup₁ hsame,
          hshed.2.2.congr horder' horder₁ hsetup₁ hsame⟩
      · rw [← hrequest]
        refine ih hs₁ (hmanager ▸ ⟨free', horder'⟩) (hrequest ▸ hid) hnodup (fun r' hr' => ?_)
          fun r' hr' => ?_
        · obtain ⟨n', hkeep'⟩ := hkeeps r' hr'
          rw [hmanager]
          exact ⟨n', hkeep'.congr horder horder' hsetup (hothers r' hr')⟩
        · rw [hmanager, hrequest]
          exact (hspares r' hr').congr horder horder' hsetup (hothers r' hr')

/-- Folding results in leaves the tables of the requests that go on. -/
theorem updateAll_tables {schedulerOutput : SchedulerOutput} {modelRunnerOutput : ModelRunnerOutput}
    {u : UpdateState H} (h : s.Settled)
    (hok : UpdateState.updateAll schedulerOutput modelRunnerOutput ⟨s, .empty, []⟩ s.running =
      .ok u) : UpdateSettled u [] ∧ Continues s.kvCacheManager u.scheduler.kvCacheManager ∧
      ∀ r ∈ u.stillRunning, u.scheduler.kvCacheManager.getBlocks r =
        s.kvCacheManager.getBlocks r := by
  have hall := UpdateState.updateAll_invariant (P := fun u rest => UpdateSettled u rest ∧
    Continues s.kvCacheManager u.scheduler.kvCacheManager ∧ ∀ r ∈ u.stillRunning ++ rest,
      u.scheduler.kvCacheManager.getBlocks r = s.kvCacheManager.getBlocks r) hok
    ⟨⟨h.partition, h.skipped⟩, .refl h.partition.order, fun _ _ => rfl⟩ ?_
  · rwa [List.append_nil] at hall
  rintro u u' r rest hstep ⟨hsettled, hcontinues, htables⟩
  refine ⟨hsettled.step hstep, ?_⟩
  cases hstep with
  | skip hscheduled =>
      refine ⟨hcontinues, fun r' hr' => htables r' ?_⟩
      rwa [List.append_assoc] at hr'
  | goOn hscheduled hfolds hkept hpooled houtputs =>
      refine ⟨hcontinues, fun r' hr' => htables r' ?_⟩
      rwa [List.append_assoc] at hr'
  | stop hscheduled hfolds hkept houtput hfree hconnector =>
      obtain ⟨free, horder⟩ := hcontinues.order
      refine ⟨hcontinues.trans (.free ⟨free, horder⟩ hfree), fun r' hr' => ?_⟩
      have hnodup := hsettled.partition.running_nodup
      have hne : r' ≠ r := by
        rintro rfl
        rw [List.nodup_middle, List.nodup_cons] at hnodup
        exact hnodup.1 hr'
      refine (KVCacheManager.free_getBlocks_of_ne horder hfree hne).trans (htables r' ?_)
      rw [List.mem_append, List.mem_cons]
      exact (List.mem_append.mp hr').imp_right Or.inr

end Scheduler

/-! ### Over runs of the engine -/

namespace Engine

/-- Results bring the count of a request back by less than the step had tokens. -/
theorem Paced.lands {s s' : Scheduler H} {schedulerOutput : SchedulerOutput}
    {modelRunnerOutput : ModelRunnerOutput} {outputs : Dict ℕ (List EngineCoreOutput)}
    (h : Paced ⟨s, some schedulerOutput⟩)
    (hok : s.updateFromOutput schedulerOutput modelRunnerOutput = .ok (outputs, s'))
    {r : RequestId} (hr : r ∈ s'.running)
    (hahead : ∀ n, schedulerOutput.numScheduledTokens.find r = some n →
      (s.request r).numComputedTokens < (s.request r).numTokens + n) :
    r ∈ s.running ∧ (s'.request r).numComputedTokens ≤ (s.request r).numComputedTokens ∧
      (schedulerOutput.numScheduledTokens.find r = none →
        (s'.request r).numComputedTokens = (s.request r).numComputedTokens) ∧
      ∀ n, schedulerOutput.numScheduledTokens.find r = some n →
        (s.request r).numComputedTokens < (s'.request r).numComputedTokens + n := by
  obtain ⟨hwas, request, hgoes, heq⟩ :=
    (Scheduler.updateFromOutput_follows h.settled hok).running r hr
  have hcount : (s'.request r).numComputedTokens = request.numComputedTokens := by
    rw [heq]
    unfold Scheduler.drafted
    split <;> rfl
  rw [hcount]
  refine ⟨hwas, ?_⟩
  cases hgoes with
  | passed hscheduled =>
      refine ⟨le_rfl, fun _ => rfl, fun n hfind => ?_⟩
      exact Nat.lt_add_of_pos_right (h.flying r hwas n hfind).1
  | folded hscheduled hfolds hkept hpooled =>
      have hback : request.numComputedTokens = (s.request r).numComputedTokens -
          schedulerOutput.rejectedDrafts modelRunnerOutput r := hfolds.numComputedTokens_eq
      refine ⟨by omega, fun hnone => ?_, fun n hfind => ?_⟩
      · rw [Dict.findD, hnone] at hscheduled
        exact absurd rfl hscheduled
      · obtain ⟨hn, hflying⟩ := h.flying r hwas n hfind
        have hdrafts : (s.request r).numComputedTokens - (s.request r).numTokens =
            (schedulerOutput.scheduledSpecDecodeTokens.findD r []).length := hflying.ahead
        have hlt := hahead n hfind
        rw [hback]
        unfold SchedulerOutput.rejectedDrafts
        omega

/-- The tables of the running requests keep what is attended to, less the step in
flight; and between steps nothing is left of what is to be shed. -/
structure Retaining (e : Engine H) : Prop where
  standing : ∀ r ∈ e.scheduler.running, e.scheduler.kvCacheManager.Standing r
    ((e.scheduler.request r).numComputedTokens - (e.scheduledFor r).getD 0)
    (e.scheduler.request r).numComputedTokens
  ahead : ∀ r ∈ e.scheduler.running, ∀ n, e.scheduledFor r = some n →
    n ≤ (e.scheduler.request r).numComputedTokens ∧
      (e.scheduler.request r).numComputedTokens < (e.scheduler.request r).numTokens + n
  shed : e.inFlight = none → ∀ r ∈ e.scheduler.running,
    e.scheduler.kvCacheManager.HasShed r (e.scheduler.request r).numComputedTokens

variable {s s' : Scheduler H}

theorem Retaining.call {event : Event} {inFlight : Option SchedulerOutput}
    (h : Retaining ⟨s, inFlight⟩) (hsettled : s.Settled) (hstep : Scheduler.Step s event s')
    (hanytime : event.anytime = true) : Retaining ⟨s', inFlight⟩ := by
  have hcontinues := hstep.continues hsettled
  have hsame : ∀ r ∈ s'.running, r ∈ s.running ∧
      (s'.request r).numComputedTokens = (s.request r).numComputedTokens ∧
      (s'.request r).numTokens = (s.request r).numTokens ∧
      s'.kvCacheManager.getBlocks r = s.kvCacheManager.getBlocks r := by
    intro r hr
    obtain ⟨hwas, grammar, heq⟩ := hstep.follows hanytime hsettled r hr
    exact ⟨hwas, by rw [heq], by rw [heq]; rfl, hstep.tables hanytime hsettled r hr⟩
  refine ⟨fun r hr => ?_, fun r hr n hn => ?_, fun hnone r hr => ?_⟩
  · obtain ⟨hwas, hcount, -, htables⟩ := hsame r hr
    dsimp only
    rw [hcount]
    exact (h.standing r hwas).continues hsettled.partition.order hcontinues htables
  · obtain ⟨hwas, hcount, htokens, -⟩ := hsame r hr
    dsimp only
    rw [hcount, htokens]
    exact h.ahead r hwas n hn
  · obtain ⟨hwas, hcount, -, htables⟩ := hsame r hr
    obtain ⟨free, horder⟩ := hsettled.partition.order
    obtain ⟨⟨free', horder'⟩, hsetup⟩ := hcontinues
    dsimp only
    rw [hcount]
    exact (h.shed hnone r hwas).congr horder horder' hsetup htables

theorem Retaining.schedule {output : SchedulerOutput} (h : Retaining ⟨s, none⟩)
    (hpaced : Paced ⟨s, none⟩)
    (hhashed : ∀ r ∈ s.requests, (s.request r).HashedAs s.kvCacheManager.blockHasher)
    (hok : s.schedule = .ok (output, s')) : Retaining ⟨s', some output⟩ := by
  have hpart := hpaced.settled.partition
  refine ⟨fun r hr => ?_, fun r hr n hn => ?_, nofun⟩
  · obtain ⟨count, hgranted, hcount⟩ := Scheduler.schedule_granted hpart hok r hr
    have hstanding := hgranted.standing hpart.order (hhashed r) fun hwas => by
      have hfirst := h.standing r hwas
      change s.kvCacheManager.Standing r ((s.request r).numComputedTokens - 0) _ at hfirst
      rwa [Nat.sub_zero] at hfirst
    show s'.kvCacheManager.Standing r ((s'.request r).numComputedTokens -
      (output.numScheduledTokens.find r).getD 0) (s'.request r).numComputedTokens
    rw [hcount, Nat.add_sub_cancel]
    exact hstanding
  · obtain ⟨-, hle, hahead, -⟩ := hpaced.setsOut hok hn
    exact ⟨hle, hahead⟩

theorem Retaining.updateFromOutput {schedulerOutput : SchedulerOutput}
    {modelRunnerOutput : ModelRunnerOutput} {outputs : Dict ℕ (List EngineCoreOutput)}
    (h : Retaining ⟨s, some schedulerOutput⟩) (hpaced : Paced ⟨s, some schedulerOutput⟩)
    (hok : s.updateFromOutput schedulerOutput modelRunnerOutput = .ok (outputs, s')) :
    Retaining ⟨s', none⟩ := by
  have hlands := fun r (hr : r ∈ s'.running) => hpaced.lands hok hr fun n hfind =>
    (h.ahead r ((Scheduler.updateFromOutput_follows hpaced.settled hok).running r hr).1 n hfind).2
  have hsettled := hpaced.settled.updateFromOutput hok
  obtain ⟨u, s₁, hall, hshed, -, heq⟩ := Scheduler.updateFromOutput_ok hok
  obtain ⟨husettled, hcontinues, htables⟩ := Scheduler.updateAll_tables hpaced.settled hall
  obtain ⟨-, hframe⟩ := Scheduler.shedAll_ok (P := fun _ => True) hshed trivial
    fun _ _ _ _ _ _ => trivial
  have hrunning : s'.running = u.stillRunning := by rw [heq]
  have hmanager : s'.kvCacheManager = s₁.kvCacheManager := by rw [heq]
  have hcounts : ∀ r, (s'.request r).numComputedTokens =
      (u.scheduler.request r).numComputedTokens := by
    intro r
    rw [heq, hframe]
    show (Scheduler.draftedTable ..).numComputedTokens = _
    rw [Scheduler.draftedTable_frame]
    rfl
  have horder : ∃ free, s.kvCacheManager.InOrder free := hpaced.settled.partition.order
  -- the tables, once the counts are brought back
  have hbefore : ∀ r ∈ u.stillRunning, u.scheduler.kvCacheManager.Standing r
      ((s.request r).numComputedTokens -
        (schedulerOutput.numScheduledTokens.find r).getD 0) (s.request r).numComputedTokens := by
    intro r hr
    exact (h.standing r (hlands r (hrunning ▸ hr)).1).continues horder hcontinues (htables r hr)
  have hshed' := Scheduler.shedAll_sheds hshed hcontinues.order husettled.partition.requestId
    (by simpa using husettled.partition.running_nodup)
    (fun r hr => ⟨_, (hbefore r hr).keeps⟩) fun r hr => ?_
  · refine ⟨fun r hr => ?_, fun r hr n hn => (by cases hn), fun _ r hr => ?_⟩
    · obtain ⟨-, hle, -⟩ := hlands r hr
      obtain ⟨hkeeps, hspares, -⟩ := hshed' r (hrunning ▸ hr)
      show s'.kvCacheManager.Standing r ((s'.request r).numComputedTokens - 0) _
      rw [Nat.sub_zero, hmanager]
      rw [← hcounts] at hkeeps hspares
      exact ⟨hkeeps.mono le_rfl hle, fun _ => hspares⟩
    · obtain ⟨-, -, hgone⟩ := hshed' r (hrunning ▸ hr)
      show s'.kvCacheManager.HasShed r (s'.request r).numComputedTokens
      rw [hmanager, hcounts]
      exact hgone
  · obtain ⟨-, -, hidle, hforward⟩ := hlands r (hrunning ▸ hr)
    rw [← hcounts]
    cases hfind : schedulerOutput.numScheduledTokens.find r with
    | none =>
        have hstanding := hbefore r hr
        rw [hfind, Option.getD_none, Nat.sub_zero] at hstanding
        rw [hidle hfind]
        exact hstanding.spares rfl
    | some n =>
        -- the step computed a token at least
        have hstanding := hbefore r hr
        obtain ⟨hle, -⟩ := h.ahead r (hlands r (hrunning ▸ hr)).1 n hfind
        have hlt := hforward n hfind
        rw [hfind, Option.getD_some] at hstanding
        dsimp only at hle
        exact fun manager hm => (hstanding.keeps.kept manager hm).spared (by omega)

theorem run_retaining {config : SchedulerConfig} {kvCacheConfig : KVCacheConfig}
    {enableCaching : Bool} {hashFn : HashInput H → H} {seed : ℕ}
    {connector : Option (SimSharedStoreConnector H)} {s₀ : Scheduler H} {e : Engine H}
    {events : List Event}
    (hinit : Scheduler.init config kvCacheConfig enableCaching hashFn seed connector = .ok s₀)
    (hrun : Run Step ⟨s₀, none⟩ events e) : e.Retaining := by
  obtain ⟨hsettled, hstart, -⟩ := Scheduler.init_settled hinit
  have hidle : ∀ r, r ∉ s₀.running := fun r hr => by
    have hknown := hsettled.partition.known_of_running hr
    rw [hstart] at hknown
    cases hknown
  refine hrun.invariant (P := fun _ e => e.Retaining) ⟨fun r hr => absurd hr (hidle r),
    fun r hr => absurd hr (hidle r), fun _ r hr => absurd hr (hidle r)⟩ ?_
  intro events e event e' hbefore h hstep
  have hpaced := run_paced hbefore (init_paced hinit)
  obtain ⟨hpolicy, hhashed⟩ := Scheduler.run_hashedAs (run_scheduler hbefore) hsettled hstart
  cases hstep with
  | call hstep hanytime => exact h.call hpaced.settled hstep hanytime
  | schedule hok => exact h.schedule hpaced (fun r hr => hpolicy.symm ▸ hhashed r hr) hok
  | updateFromOutput hanswers hok => exact h.updateFromOutput hpaced hok

/-! ### What stays in place -/

end Engine

namespace KVCacheManager

/-- What the token after `n` computed ones attends to is in place: in the tables of
the request, referenced, and not on the queue new blocks come from. -/
structure Retains (m : KVCacheManager H) (r : RequestId) (n : ℕ) : Prop where
  live : ∃ free, m.Accounted free ∧ ∀ manager ∈ m.singleTypeManagers, ∀ i b,
    (manager.getBlocks r)[i]? = some b → manager.kvCacheSpec.Attends n i →
      (m.blockPool.blocks b).isNull = false ∧ 0 < (m.blockPool.blocks b).refCnt ∧ b ∉ free
  covers : ∀ manager ∈ m.singleTypeManagers,
    min n m.maxModelLen ≤ (manager.getBlocks r).length * manager.kvCacheSpec.blockSize

theorem Keeps.retains {m : KVCacheManager H} {r : RequestId} {n count : ℕ}
    (h : m.Keeps r n count) (horder : ∃ free, m.InOrder free) (hle : n ≤ count) :
    m.Retains r n := by
  obtain ⟨free, horder⟩ := horder
  refine ⟨⟨free, horder.accounted, fun manager hm i b hb hattends => ?_⟩, fun manager hm => ?_⟩
  · have hnull := h.kept manager hm i b hb hattends
    have hheld : b ∈ heldBlocks m.singleTypeManagers :=
      mem_heldBlocks.mpr ⟨manager, hm, SingleTypeKVCacheManager.mem_held
        (List.mem_of_getElem? hb)⟩
    have hpos : 0 < (m.blockPool.blocks b).refCnt := by
      rw [horder.books.refCnt_eq b hnull]
      exact Multiset.count_pos.mpr hheld
    exact ⟨hnull, hpos, fun hfree => hpos.ne' ((horder.books.wf.mem_free b).mp hfree).2⟩
  · exact (min_le_min_right _ hle).trans (h.covers manager hm)

end KVCacheManager

namespace Engine

/-- In every run, and at every point of a call of `schedule`: what is attended to stays
in place for the requests that are running. -/
theorem run_retains {config : SchedulerConfig} {kvCacheConfig : KVCacheConfig}
    {enableCaching : Bool} {hashFn : HashInput H → H} {seed : ℕ}
    {connector : Option (SimSharedStoreConnector H)} {s₀ : Scheduler H} {e : Engine H}
    {events : List Event}
    (hinit : Scheduler.init config kvCacheConfig enableCaching hashFn seed connector = .ok s₀)
    (hrun : Run Step ⟨s₀, none⟩ events e) :
    (∀ r ∈ e.scheduler.running, e.scheduler.kvCacheManager.Retains r
      ((e.scheduler.request r).numComputedTokens - (e.scheduledFor r).getD 0)) ∧
    (e.inFlight = none → ∀ l, StepState.Loops (.start e.scheduler) l →
      ∀ r ∈ l.scheduler.running, l.scheduler.kvCacheManager.Retains r
        (l.scheduler.request r).numComputedTokens) := by
  obtain ⟨hsettled, hstart, -⟩ := Scheduler.init_settled hinit
  have hpaced := run_paced hrun (init_paced hinit)
  have hretaining := run_retaining hinit hrun
  obtain ⟨hpolicy, hhashed⟩ := Scheduler.run_hashedAs (run_scheduler hrun) hsettled hstart
  have horder := hpaced.settled.partition.order
  refine ⟨fun r hr => (hretaining.standing r hr).keeps.retains horder (Nat.sub_le ..),
    fun hnone l hloops r hr => ?_⟩
  have hg := hloops.granting hpaced.settled.partition
  have hstanding := (hg.granted r hr).standing horder
    (fun hknown => hpolicy.symm ▸ hhashed r hknown) fun hwas => ?_
  · exact hstanding.keeps.retains hg.batch.partition.order (Nat.le_add_right ..)
  · have hfirst := hretaining.standing r hwas
    rwa [scheduledFor, hnone, Option.bind_none, Option.getD_none, Nat.sub_zero] at hfirst

theorem slidingWindow_window_pos : ∀ window, KVCacheKind.slidingWindow 3 = .slidingWindow window →
    1 ≤ window := fun _ h => KVCacheKind.slidingWindow.inj h ▸ Nat.succ_le_succ (Nat.zero_le 2)

theorem mamba_window_pos : ∀ window, KVCacheKind.mamba = .slidingWindow window →
    1 ≤ window := fun _ h => KVCacheKind.noConfusion h

def windowGroups : List KVCacheSpec :=
  [⟨.fullAttention, 2, Nat.zero_lt_two, KVCacheSpec.fullAttention_window_pos⟩,
    ⟨.slidingWindow 3, 2, Nat.zero_lt_two, slidingWindow_window_pos⟩,
    ⟨.mamba, 2, Nat.zero_lt_two, mamba_window_pos⟩]

theorem windowGroups_uniform : ∀ spec ∈ windowGroups, spec.blockSize = 2 :=
  List.forall_mem_cons.mpr ⟨rfl, List.forall_mem_cons.mpr ⟨rfl,
    List.forall_mem_cons.mpr ⟨rfl, fun _ h => absurd h List.not_mem_nil⟩⟩⟩

def windowConfig : KVCacheConfig where
  numBlocks := 16
  blockSize := 2
  kvCacheGroups := windowGroups
  uniform := windowGroups_uniform
  blockSize_pos := Nat.zero_lt_two

def windowRun (prompt : List TokenId) : Except PyError (Scheduler Digest × Request Digest ×
    SchedulerOutput × Scheduler Digest × Dict ℕ (List EngineCoreOutput) × Scheduler Digest) := do
  let s₀ ← Scheduler.init (Scheduler.shortConfig .fcfs) windowConfig true Digest.hash 0 none
  let request ← Request.init (.text 1 prompt 8)
  let (output, s₁) ← (s₀.addRequest request).schedule
  let (outputs, s₂) ← s₁.updateFromOutput output (answerOne 1 [7] [])
  return (s₀, request, output, s₁, outputs, s₂)

theorem windowRun_reaches {prompt : List TokenId} {s₀ s₁ s₂ : Scheduler Digest}
    {request : Request Digest} {output : SchedulerOutput}
    {outputs : Dict ℕ (List EngineCoreOutput)}
    (h : windowRun prompt = .ok (s₀, request, output, s₁, outputs, s₂))
    (hanswers : Answers s₁ output (answerOne 1 [7] [])) :
    Scheduler.init (Scheduler.shortConfig .fcfs) windowConfig true Digest.hash 0 none = .ok s₀ ∧
      Run Step ⟨s₀, none⟩ [.addRequest (.text 1 prompt 8), .schedule output,
        .updateFromOutput output (answerOne 1 [7] []) outputs] ⟨s₂, none⟩ := by
  unfold windowRun at h
  obtain ⟨_, hinit, h⟩ := except_bind_iff.mp h
  obtain ⟨_, hrequest, h⟩ := except_bind_iff.mp h
  obtain ⟨⟨_, _⟩, hschedule, h⟩ := except_bind_iff.mp h
  obtain ⟨⟨_, _⟩, hupdate, h⟩ := except_bind_iff.mp h
  cases h
  obtain ⟨-, hnone, -⟩ := Scheduler.init_settled hinit
  have hfresh : (RequestArgs.text 1 prompt 8).requestId ∉ s₀.requests := by
    rw [hnone]
    exact List.not_mem_nil
  exact ⟨hinit, ((Run.nil.snoc (.call (.addRequest hrequest hfresh) rfl)).snoc
    (.schedule hschedule)).snoc (.updateFromOutput hanswers hupdate)⟩

/-- A prompt of seven tokens: the first two blocks of the window are gone, and those
behind are in place. -/
theorem run_retains_window : ∃ (e : Engine Digest), e.scheduler.running = [1] ∧
    e.scheduler.kvCacheManager.getBlocks 1 = [[1, 2, 3, 4], [0, 0, 7, 8], [0, 0, 0, 12]] ∧
    e.scheduler.kvCacheManager.Retains 1 7 := by
  obtain ⟨⟨s₀, request, output, s₁, outputs, s₂⟩, hrun, hcheck⟩ :=
    exists_of_okAnd (x := windowRun [1, 2, 3, 4, 5, 6, 7])
      (p := fun (_, _, output, s₁, _, s₂) =>
        decide (Answers s₁ output (answerOne 1 [7] [])) &&
        decide (s₂.running = [1] ∧ (s₂.request 1).numComputedTokens = 7 ∧
          s₂.kvCacheManager.getBlocks 1 = [[1, 2, 3, 4], [0, 0, 7, 8], [0, 0, 0, 12]]))
      (by decide +kernel)
  rw [Bool.and_eq_true, decide_eq_true_eq, decide_eq_true_eq] at hcheck
  obtain ⟨hanswers, hrunning, hcount, hblocks⟩ := hcheck
  obtain ⟨hinit, hsteps⟩ := windowRun_reaches hrun hanswers
  have hretains := (run_retains hinit hsteps).1 1 (hrunning ▸ List.mem_cons_self)
  refine ⟨⟨s₂, none⟩, hrunning, hblocks, ?_⟩
  rwa [hcount] at hretains

end Engine

end Pvllm
