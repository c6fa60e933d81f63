import Pvllm.Core.Sched.Liveness
import Pvllm.Core.Sched.Priority

/-!
Runs under `priority`.

Every call takes from the last and gives to the first. It can also take from a request
what others then do not get, and end with nobody served; but such a call takes a request off
the running ones, so no more of them follow each other than there are requests running.
-/

namespace Pvllm

variable {H : Type} [DecidableEq H]

namespace StepState

variable {s : Scheduler H} {l l' : StepState H} {r : RequestId}

/-! ### One call -/

/-- Somebody has been given tokens, or has been preempted. -/
def Stirred (l : StepState H) : Prop := l.numScheduledTokens.keys ≠ [] ∨ l.preemptedReqs ≠ []

omit [DecidableEq H] in
theorem Stirred.of_find {n : ℕ} (hfind : l.numScheduledTokens.find r = some n) : l.Stirred :=
  Or.inl (List.ne_nil_of_mem ((Dict.mem_keys_iff ..).mpr ⟨n, hfind⟩))

theorem Outcome.stirred (h : Outcome l l') (hl : l.Stirred) : l'.Stirred := by
  cases h with
  | commit hphase hok => exact .of_find (Dict.find_store_self ..)
  | preempt hphase hok hvictim hstatus hfree hbatch hinputs =>
      exact Or.inr (List.append_ne_nil_of_right_ne_nil _ (List.cons_ne_nil _ _))
  | accept hphase hok hpop hstatus hconnector => exact .of_find (Dict.find_store_self ..)
  | _ => exact hl

/-- The first of the line stirs things up: it gets its slots, or somebody else loses theirs. -/
theorem Heading.stirs (hlively : s.Lively) (hloops : Loops (start s) l) (h : Heading r l)
    (hstep : l.advance = .ok l') : Heading r l' ∨ l'.Stirred := by
  cases h with
  | running hrunning hindex hbudget hphase =>
      rcases hphase with hphase | ⟨n, hphase⟩
      · exact Or.inl (.advance_running hlively hloops hrunning hindex hbudget hphase hstep)
      · refine Or.inr ?_
        have houtcome := advance_outcome hstep
        cases houtcome with
        | commit hphase' hok => exact .of_find (Dict.find_store_self ..)
        | preempt hphase' hok hvictim hstatus hfree hbatch hinputs =>
            exact Or.inr (List.append_ne_nil_of_right_ne_nil _ (List.cons_ne_nil _ _))
        | _ => simp_all only [reduceCtorEq]
  | waiting hrunning hhead hbudget hpreempted hphase =>
      exact Or.inl (.advance_waiting hlively hloops hrunning hhead hbudget hpreempted hphase hstep)
  | served hrunning hfind => exact Or.inr ((advance_outcome hstep).stirred (.of_find hfind))

theorem Loops.stirred (hlively : s.Lively) (hloops : Loops (start s) l)
    (hhead : (s.running ++ s.waiting.items).head? = some r) (hfinished : l.phase = .finished) :
    l.Stirred := by
  have hends : Heading r l ∨ l.Stirred := by
    clear hfinished
    induction hloops with
    | refl => exact Or.inl (heading_start hhead)
    | tail hbefore hstep ih =>
        rcases ih with h | h
        · exact h.stirs hlively hbefore hstep
        · exact Or.inr ((advance_outcome hstep).stirred h)
  rcases hends with h | h
  · obtain ⟨-, n, hfind⟩ := h.served_of_finished hfinished
    exact .of_find hfind
  · exact h

/-- The running requests are those there were, without the preempted and with the admitted. -/
def Counted (s : Scheduler H) (l : StepState H) : Prop :=
  l.scheduler.running.length + l.preemptedReqs.length = s.running.length + l.letIn.length

theorem Outcome.counted (h : Outcome l l') (hb : Batch l) (hl : Counted s l) : Counted s l' := by
  cases h with
  | pass hphase hr hnone =>
      rw [disableSpeculation_frame]
      exact hl
  | takeUp hphase hr hn hbudget hspec hlen =>
      rw [disableSpeculation_frame]
      exact hl
  | commit hphase hok =>
      unfold Counted
      rw [commitRunning_running]
      exact hl
  | @preempt r victim n kv _ _ _ _ _ _ _ _ _ hphase hok hvictim hstatus hfree hbatch hinputs =>
      rw [dropVictim_eq hb.partition.running_nodup hvictim]
      have hmem := (selectVictim_mem hvictim).1
      have hpos := List.length_pos_of_mem hmem
      unfold Counted at hl ⊢
      show (l.scheduler.running.erase victim).length + (l.preemptedReqs ++ [victim]).length =
        s.running.length + l.letIn.length
      rw [List.length_erase_of_mem hmem, List.length_append, List.length_singleton]
      omega
  | close hphase hs =>
      rcases hs with rfl | ⟨r, hs⟩
      · exact hl
      · unfold Counted
        rw [hs.running_eq]
        exact hl
  | setAside hphase hs hfree hpop =>
      unfold Counted
      rw [hs.running_eq]
      exact hl
  | lookUp hphase hs hpreempted hhits hexternal hrunning hn hbudget hlen =>
      unfold Counted
      rw [hs.running_eq]
      exact hl
  | @accept r r' hits blocks numLocal numExternal n inputs kv waiting connector loras hphase hok
      hpop hstatus hconnector =>
      unfold Counted letIn at hl ⊢
      dsimp only at hl ⊢
      split
      · simp only [List.length_append, List.length_singleton] at hl ⊢
        omega
      · simp only [List.length_append, List.length_singleton] at hl ⊢
        omega
  | _ => exact hl

theorem Loops.counted (hpart : s.Partitioned) (hloops : Loops (start s) l) : Counted s l :=
  (hloops.invariant (P := fun l => Batch l ∧ Counted s l) ⟨batch_start hpart, rfl⟩
    fun _ _ hstep h => ⟨hstep.batch h.1, hstep.counted h.1 h.2⟩).2

end StepState

namespace Scheduler

variable {s s' : Scheduler H}

/-- A call that has somebody to serve and serves nobody takes a request off the running ones. -/
theorem Lively.stall {output : SchedulerOutput} (hlively : s.Lively) (hsome : s.requests ≠ [])
    (hok : s.schedule = .ok (output, s')) (hnobody : output.numScheduledTokens.keys = []) :
    s'.running.length < s.running.length := by
  obtain ⟨l, hloops, hfinished, hfinishes⟩ := schedule_ok hok
  have hpart := hlively.ready.settled.partition
  have hb := hloops.batch hpart
  have hcounted := hloops.counted hpart
  obtain ⟨r, hhead⟩ : ∃ r, (s.running ++ s.waiting.items).head? = some r := by
    have hperm := hpart.perm
    rw [hlively.ready.settled.queued_eq] at hperm
    refine Option.isSome_iff_exists.mp (List.isSome_head?.mpr fun hnil => hsome ?_)
    exact (hnil ▸ hperm).eq_nil
  have hstirred := StepState.Loops.stirred hlively hloops hhead hfinished
  rw [hfinishes.scheduled] at hnobody
  have hbatch : l.batch = [] := List.eq_nil_iff_forall_not_mem.mpr fun r hr => by
    have hkey := (hb.keys r).mpr hr
    rw [hnobody] at hkey
    cases hkey
  have hletIn : l.letIn = [] := (List.append_eq_nil_iff.mp hbatch).2
  have hpreempted := List.length_pos_of_ne_nil (hstirred.resolve_left fun h => h hnobody)
  have hrunning : s'.running = l.scheduler.running := by
    rw [hfinishes.state, StepState.restoreSkippedWaiting_frame]
  unfold StepState.Counted at hcounted
  rw [hletIn, List.length_nil] at hcounted
  rw [hrunning]
  omega

/-! ### Over a run -/

theorem Step.running_subset {event : Event} (hstep : Step s event s') (hsettled : s.Settled)
    (hnot : event.isSchedule = false) : s'.running ⊆ s.running := by
  cases hstep with
  | addRequest hrequest hfresh =>
      rw [addRequest_eq]
      exact List.Subset.refl _
  | finishRequests hok =>
      obtain ⟨-, hall⟩ := finishRequests_ok hok
      refine finishAll_invariant (P := fun s' : Scheduler H => s'.running ⊆ s.running) hall
        (List.Subset.refl _) fun s₁ s₂ r _ hone hsub => ?_
      rcases finishOne_ok hone with ⟨-, rfl⟩ | ⟨-, _, _, _, _, _, hmoved, -, -, rfl⟩
      · exact hsub
      · rcases hmoved with ⟨-, -, rfl, -⟩ | ⟨-, rfl, -⟩
        · exact fun r' hr' => hsub (List.mem_of_mem_erase hr')
        · exact hsub
  | schedule hok => cases hnot
  | updateFromOutput hok =>
      exact fun r hr => ((updateFromOutput_follows hsettled hok).running r hr).1
  | resetPrefixCache => exact List.Subset.refl _
  | grammar hcompiling => exact List.Subset.refl _
  | sharedStore hconnector => exact List.Subset.refl _

/-- In every run of plain requests under `priority`, every call of `schedule` takes from the last
and gives to the first. -/
theorem run_prioritized {config : SchedulerConfig} {kvCacheConfig : KVCacheConfig}
    {enableCaching : Bool} {hashFn : HashInput H → H} {seed : ℕ}
    {connector : Option (SimSharedStoreConnector H)} {s₀ : Scheduler H} {events : List Event}
    {output : SchedulerOutput} (hpriority : config.policy = .priority)
    (hinit : init config kvCacheConfig enableCaching hashFn seed connector = .ok s₀)
    (hrun : Run Step s₀ events s) (hplain : PlainEvents events)
    (hok : s.schedule = .ok (output, s')) : Prioritized s output s' := by
  obtain ⟨hsettled, hstart, -⟩ := init_settled hinit
  obtain ⟨hpolicied, hconfig⟩ := init_policied hinit
  obtain ⟨hpolicied', hconfig'⟩ := run_policied hrun hpolicied
  have hpriority₀ : s₀.config.policy = .priority := by
    rw [hconfig]
    exact hpriority
  refine schedule_prioritized (run_settled hrun hsettled) (run_plain hrun hstart hplain) hpolicied'
    ?_ (run_inKeyOrder hrun hsettled hstart hpolicied hpriority₀ hplain) hok
  rw [hconfig']
  exact hpriority₀

end Scheduler

namespace Engine

variable {config : SchedulerConfig} {kvCacheConfig : KVCacheConfig} {enableCaching : Bool}
  {hashFn : HashInput H → H} {seed : ℕ} {s₀ : Scheduler H} {e e' : Engine H}
  {events later : List Event}

/-- A step in which a call of `schedule` has somebody to serve and serves nobody, or another
step. -/
structure Stall (e : Engine H) (event : Event) (e' : Engine H) : Prop where
  step : Step e event e'
  vain : ∀ output, event = .schedule output →
    e.scheduler.requests ≠ [] ∧ output.numScheduledTokens.keys = []

theorem Stall.running_le {event : Event} (h : Stall e event e')
    (hlively : e.inFlight = none → e.scheduler.Lively) (hsettled : e.scheduler.Settled) :
    e'.scheduler.running.length + (if event.isSchedule then 1 else 0) ≤
      e.scheduler.running.length := by
  obtain ⟨hstep, hvain⟩ := h
  by_cases hschedule : event.isSchedule = true
  · rw [if_pos hschedule]
    cases hstep with
    | call hstep hanytime =>
        cases event with
        | schedule output => cases hanytime
        | _ => cases hschedule
    | schedule hok =>
        obtain ⟨hsome, hnobody⟩ := hvain _ rfl
        exact (hlively rfl).stall hsome hok hnobody
    | updateFromOutput hanswers hok => cases hschedule
  · rw [if_neg hschedule, Nat.add_zero]
    have hsub := hstep.scheduler.running_subset hsettled (Bool.not_eq_true _ ▸ hschedule)
    have hnodup := (hstep.scheduler.settled hsettled).partition.running_nodup
    exact (List.subperm_of_subset hnodup hsub).length_le

/-- From wherever a tame run has come to, under either policy, with room for one request: no more
calls of `schedule` can have somebody to serve and serve nobody than there are requests
running, and each of them takes one of those off. -/
theorem run_stalls (hsuffices : config.Suffices kvCacheConfig)
    (hinit : Scheduler.init config kvCacheConfig enableCaching hashFn seed none = .ok s₀)
    (hrun : Run Step ⟨s₀, none⟩ events e) (hstalls : Run Stall e later e')
    (htame : Tame config.maxModelLen (events ++ later)) :
    e'.scheduler.running.length + later.countP Event.isSchedule ≤ e.scheduler.running.length := by
  induction hstalls with
  | nil => exact Nat.le_refl _
  | @snoc labels middle final label hbefore hlast ih =>
      rw [← List.append_assoc] at htame
      have hfirst := ih htame.left
      have hall : Run Step ⟨s₀, none⟩ (events ++ labels) middle :=
        hrun.append (hbefore.map id fun _ _ _ h => h.step)
      have hsettled := Scheduler.run_settled (run_scheduler hall) (Scheduler.init_settled hinit).1
      have hle := hlast.running_le (run_lively hsuffices hinit hall htame.left) hsettled
      rw [List.countP_append, List.countP_singleton]
      omega

/-! ### On a run -/

/-- A small window, which six blocks hold once. -/
def stallConfig : SchedulerConfig := { Scheduler.shortConfig .priority with maxModelLen := 12 }

theorem stallConfig_suffices : stallConfig.Suffices (Scheduler.shortKVConfig 6) where
  whole hnot := Bool.noConfusion hnot
  ample := by decide

/-- The first to come ranks last. -/
def laterArgs : RequestArgs := { RequestArgs.text 1 [1, 2] 8 with priority := 1 }

/-- A second request takes the blocks that the first one needs a few tokens later. -/
def stallRun : Except PyError (Scheduler Digest × Request Digest × Scheduler Digest ×
    List Event × Request Digest × Scheduler Digest × List Event × SchedulerOutput ×
    Scheduler Digest) := do
  let s₀ ← Scheduler.init stallConfig (Scheduler.shortKVConfig 6) true Digest.hash 0 none
  let later ← Request.init laterArgs
  let (s₁, events₁) ← drive 1 (s₀.addRequest later)
  let sooner ← Request.init (.text 2 [3, 4, 5, 6, 7, 8, 9] 4)
  let (s₂, events₂) ← drive 2 (s₁.addRequest sooner)
  let (output, s₃) ← s₂.schedule
  return (s₀, later, s₁, events₁, sooner, s₂, events₂, output, s₃)

theorem laterArgs_tame {events : List Event} (h : ∀ args, Event.addRequest args ∈ events →
    args = laterArgs ∨ args = .text 2 [3, 4, 5, 6, 7, 8, 9] 4) : Tame 12 events := by
  have htext : Tame 12 [.addRequest (.text 1 [1, 2] 8),
      .addRequest (.text 2 [3, 4, 5, 6, 7, 8, 9] 4)] := by
    refine Tame.of_text fun args hmem => ?_
    rcases List.mem_cons.mp hmem with heq | hmem
    · obtain rfl := Event.addRequest.inj heq
      exact ⟨1, _, 8, rfl, List.cons_ne_nil _ _, by decide, by decide⟩
    · obtain rfl := Event.addRequest.inj (List.mem_singleton.mp hmem)
      exact ⟨2, _, 4, rfl, List.cons_ne_nil _ _, by decide, by decide⟩
  refine ⟨fun args hmem => ?_, fun args hmem => ?_⟩
  · rcases h args hmem with rfl | rfl
    · obtain ⟨hlora, hgrammar, himages⟩ := htext.plain (.text 1 [1, 2] 8) List.mem_cons_self
      exact ⟨hlora, hgrammar, himages⟩
    · exact htext.plain _ (List.mem_cons_of_mem _ List.mem_cons_self)
  · rcases h args hmem with rfl | rfl
    · obtain ⟨⟨hprompt, hpooling, hroom⟩, hbounded⟩ :=
        htext.fits (.text 1 [1, 2] 8) List.mem_cons_self
      exact ⟨⟨hprompt, hpooling, hroom⟩, hbounded⟩
    · exact htext.fits _ (List.mem_cons_of_mem _ List.mem_cons_self)

theorem stallRun_reaches {s₀ s₁ s₂ s₃ : Scheduler Digest} {later sooner : Request Digest}
    {events₁ events₂ : List Event} {output : SchedulerOutput}
    (h : stallRun = .ok (s₀, later, s₁, events₁, sooner, s₂, events₂, output, s₃))
    (hknown : s₁.requests = [1]) :
    Scheduler.init stallConfig (Scheduler.shortKVConfig 6) true Digest.hash 0 none = .ok s₀ ∧
      (∃ events, Run Step ⟨s₀, none⟩ events ⟨s₂, none⟩ ∧ Tame 12 events) ∧
      s₂.schedule = .ok (output, s₃) := by
  unfold stallRun at h
  obtain ⟨s₀', hinit, h⟩ := except_bind_iff.mp h
  obtain ⟨later', hlater, h⟩ := except_bind_iff.mp h
  obtain ⟨⟨s₁', events₁'⟩, hdrive₁, h⟩ := except_bind_iff.mp h
  obtain ⟨sooner', hsooner, h⟩ := except_bind_iff.mp h
  obtain ⟨⟨s₂', events₂'⟩, hdrive₂, h⟩ := except_bind_iff.mp h
  obtain ⟨⟨output', s₃'⟩, hok, h⟩ := except_bind_iff.mp h
  cases h
  obtain ⟨hrun₁, hadded₁, -⟩ := drive_reaches hdrive₁
  obtain ⟨hrun₂, hadded₂, -⟩ := drive_reaches hdrive₂
  have hfresh₁ : laterArgs.requestId ∉ s₀.requests := by
    rw [(Scheduler.init_settled hinit).2.1]
    exact List.not_mem_nil
  have hfresh₂ : (RequestArgs.text 2 [3, 4, 5, 6, 7, 8, 9] 4).requestId ∉ s₁.requests := by
    rw [hknown]
    decide
  have hall := ((Run.nil.snoc (@Step.call _ _ _ _ _ none
    (.addRequest hlater hfresh₁) rfl)).append hrun₁).append
      ((Run.nil.snoc (Step.call (.addRequest hsooner hfresh₂) rfl)).append hrun₂)
  refine ⟨hinit, ⟨_, hall, ?_⟩, hok⟩
  -- nothing else is added
  have hargs : ∀ args, Event.addRequest args ∈ ([.addRequest laterArgs] ++ events₁) ++
      ([.addRequest (.text 2 [3, 4, 5, 6, 7, 8, 9] 4)] ++ events₂) →
        args = laterArgs ∨ args = .text 2 [3, 4, 5, 6, 7, 8, 9] 4 := by
    intro args hmem
    rcases List.mem_append.mp hmem with hmem | hmem
    · rcases List.mem_append.mp hmem with hmem | hmem
      · exact Or.inl (Event.addRequest.inj (List.mem_singleton.mp hmem))
      · cases hadded₁ _ hmem
    · rcases List.mem_append.mp hmem with hmem | hmem
      · exact Or.inr (Event.addRequest.inj (List.mem_singleton.mp hmem))
      · cases hadded₂ _ hmem
  exact laterArgs_tame hargs

theorem run_stalls_two : ∃ (e e' : Engine Digest) (output : SchedulerOutput),
    Run Stall e [.schedule output] e' ∧ e.scheduler.running = [1, 2] ∧
      e'.scheduler.running.length + 1 ≤ e.scheduler.running.length := by
  obtain ⟨⟨s₀, later, s₁, events₁, sooner, s₂, events₂, output, s₃⟩, hrun, hcheck⟩ :=
    exists_of_okAnd (x := stallRun)
      (p := fun (_, _, s₁, _, _, s₂, _, output, _) => decide (s₁.requests = [1] ∧
        s₂.requests ≠ [] ∧ s₂.running = [1, 2] ∧ output.numScheduledTokens.keys = []))
      (by decide +kernel)
  obtain ⟨hknown, hsome, hrunning, hnobody⟩ := of_decide_eq_true hcheck
  obtain ⟨hinit, ⟨events, hreaches, htame⟩, hok⟩ := stallRun_reaches hrun hknown
  have hstalls : Run Stall ⟨s₂, none⟩ [.schedule output] ⟨s₃, some output⟩ := by
    refine Run.nil.snoc ⟨.schedule hok, fun output' heq => ?_⟩
    obtain rfl := Event.schedule.inj heq
    exact ⟨hsome, hnobody⟩
  have htame' : Tame stallConfig.maxModelLen (events ++ [.schedule output]) :=
    htame.append fun event hmem => List.mem_singleton.mp hmem ▸ rfl
  exact ⟨_, _, output, hstalls, hrunning,
    run_stalls stallConfig_suffices hinit hreaches hstalls htame'⟩

theorem run_prioritized_two : ∃ (s s' : Scheduler Digest) (output : SchedulerOutput),
    s.running = [1, 2] ∧ output.preemptedReqIds = some [1] ∧
      Scheduler.Prioritized s output s' := by
  obtain ⟨⟨s₀, later, s₁, events₁, sooner, s₂, events₂, output, s₃⟩, hrun, hcheck⟩ :=
    exists_of_okAnd (x := stallRun)
      (p := fun (_, _, s₁, _, _, s₂, _, output, _) => decide (s₁.requests = [1] ∧
        s₂.running = [1, 2] ∧ output.preemptedReqIds = some [1])) (by decide +kernel)
  obtain ⟨hknown, hrunning, hvictims⟩ := of_decide_eq_true hcheck
  obtain ⟨hinit, ⟨events, hreaches, htame⟩, hok⟩ := stallRun_reaches hrun hknown
  exact ⟨s₂, s₃, output, hrunning, hvictims,
    Scheduler.run_prioritized rfl hinit (run_scheduler hreaches) htame.plain hok⟩

end Engine

end Pvllm
