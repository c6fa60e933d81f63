import Pvllm.Core.Sched.Order
import Mathlib.Data.Prod.Lex
import Mathlib.Order.Basic

/-!
The priority policy.

A request ranks by its priority and then its arrival; ids break the ties where
the waiting queue needs a total order. Neither changes while the request is
known. A victim ranks last among the running requests of its time, and the
queue is in order of the keys, so that the first of it comes before the rest.
-/

namespace Pvllm

variable {H : Type} [DecidableEq H]

/-! ### Ranks and keys -/

namespace Request

variable {request request' a b : Request H}

omit [DecidableEq H]

/-- What a victim is chosen by: the greatest goes. -/
def rank (request : Request H) : ℤ ×ₗ ℕ := toLex (request.priority, request.arrivalTime)

/-- What the waiting queue is ordered by: the least comes first. -/
def key (request : Request H) : (ℤ ×ₗ ℕ) ×ₗ ℕ := toLex (request.rank, request.requestId)

theorem rank_lt : a.rank < b.rank ↔ a.priority < b.priority ∨
    a.priority = b.priority ∧ a.arrivalTime < b.arrivalTime :=
  Prod.Lex.lt_iff

theorem before_iff : a.before b = true ↔ a.key < b.key := by
  have hkey : a.key < b.key ↔ a.rank < b.rank ∨ a.rank = b.rank ∧ a.requestId < b.requestId :=
    Prod.Lex.lt_iff
  have hrank : a.rank = b.rank ↔ a.priority = b.priority ∧ a.arrivalTime = b.arrivalTime := by
    rw [rank, rank, toLex_inj, Prod.mk.injEq]
  rw [hkey, rank_lt, hrank]
  unfold before
  split
  · rename_i hpriority
    simp only [decide_eq_true_eq]
    constructor
    · exact fun hlt => Or.inl (Or.inl hlt)
    · rintro ((hlt | hsame) | hsame)
      · exact hlt
      · exact absurd hsame.1 hpriority
      · exact absurd hsame.1.1 hpriority
  split
  · rename_i hpriority harrival
    simp only [decide_eq_true_eq]
    constructor
    · exact fun hlt => Or.inl (Or.inr ⟨not_not.mp hpriority, hlt⟩)
    · rintro ((hlt | hsame) | hsame)
      · exact absurd hlt.ne hpriority
      · exact hsame.2
      · exact absurd hsame.1.2 harrival
  · rename_i hpriority harrival
    rw [not_not] at hpriority harrival
    simp only [decide_eq_true_eq]
    constructor
    · exact fun hlt => Or.inr ⟨⟨hpriority, harrival⟩, hlt⟩
    · rintro ((hlt | hsame) | hsame)
      · exact absurd hpriority hlt.ne
      · exact absurd harrival hsame.2.ne
      · exact hsame.2

theorem key_ne (h : a.requestId ≠ b.requestId) : a.key ≠ b.key := by
  intro heq
  exact h (Prod.mk.inj (toLex_inj.mp heq)).2

theorem Keeps.rank_eq (h : request.Keeps request') : request'.rank = request.rank := by
  rw [h.eq]
  rfl

theorem Keeps.requestId_eq (h : request.Keeps request') :
    request'.requestId = request.requestId := by
  rw [h.eq]

theorem Keeps.key_eq (h : request.Keeps request') : request'.key = request.key := by
  rw [key, h.rank_eq, h.eq]
  rfl

end Request

omit [DecidableEq H] in
theorem Scheduler.maxVictim_rank (request : RequestId → Request H) (best : RequestId)
    (l : List RequestId) : ∀ r ∈ best :: l,
      (request r).rank ≤ (request (maxVictim request best l)).rank := by
  induction l generalizing best with
  | nil =>
      intro r hr
      rw [List.mem_singleton.mp hr]
      exact le_rfl
  | cons other l ih =>
      intro r hr
      unfold maxVictim
      split
      · rename_i hlt
        rw [← Request.rank_lt] at hlt
        rcases List.mem_cons.mp hr with rfl | hr
        · exact hlt.le.trans (ih other other List.mem_cons_self)
        · exact ih other r hr
      · rename_i hnot
        rw [← Request.rank_lt] at hnot
        rcases List.mem_cons.mp hr with rfl | hr
        · exact ih _ _ List.mem_cons_self
        rcases List.mem_cons.mp hr with rfl | hr
        · exact (not_lt.mp hnot).trans (ih best best List.mem_cons_self)
        · exact ih best r (List.mem_cons_of_mem _ hr)

omit [DecidableEq H] in
theorem Scheduler.selectVictim_rank {s : Scheduler H} {victim : RequestId}
    (hpriority : s.config.policy = .priority) (h : s.selectVictim = .ok victim) :
    ∀ r ∈ s.running, (s.request r).rank ≤ (s.request victim).rank := by
  unfold selectVictim at h
  rw [hpriority] at h
  dsimp only at h
  split at h
  · cases h
  rename_i first rest hrunning
  obtain rfl := Except.ok.inj h
  rw [hrunning]
  exact maxVictim_rank s.request first rest

/-! ### A queue in order -/

namespace RequestQueue

variable {request : RequestId → Request H} {key : RequestId → (ℤ ×ₗ ℕ) ×ₗ ℕ} {r : RequestId}

/-- Each id comes before all that follow. -/
abbrev Ascending (key : RequestId → (ℤ ×ₗ ℕ) ×ₗ ℕ) (l : List RequestId) : Prop :=
  l.Pairwise fun a b => key a < key b

omit [DecidableEq H] in
theorem insertKey_ascending (hkey : ∀ r, (request r).key = key r) {l : List RequestId}
    (h : Ascending key l) (hnew : ∀ other ∈ l, key other ≠ key r) :
    Ascending key (insertKey request r l) := by
  induction l with
  | nil => exact List.pairwise_singleton _ _
  | cons other rest ih =>
      obtain ⟨hfirst, hrest⟩ := List.pairwise_cons.mp h
      obtain ⟨hne, hnew⟩ := List.forall_mem_cons.mp hnew
      unfold insertKey
      split
      · rename_i hlt
        rw [Request.before_iff, hkey, hkey] at hlt
        refine List.pairwise_cons.mpr ⟨fun r' hr' => ?_, h⟩
        rcases List.mem_cons.mp hr' with rfl | hr'
        · exact hlt
        · exact hlt.trans (hfirst r' hr')
      · rename_i hnot
        rw [Request.before_iff, hkey, hkey] at hnot
        refine List.pairwise_cons.mpr ⟨fun r' hr' => ?_, ih hrest hnew⟩
        rcases List.mem_cons.mp ((insertKey_perm request r rest).mem_iff.mp hr') with rfl | hr'
        · exact lt_of_le_of_ne (not_lt.mp hnot) hne
        · exact hfirst r' hr'

theorem Ascending.congr {key' : RequestId → (ℤ ×ₗ ℕ) ×ₗ ℕ} {l : List RequestId}
    (h : Ascending key l) (hsame : ∀ r ∈ l, key' r = key r) : Ascending key' l := by
  refine List.Pairwise.imp_of_mem ?_ h
  intro a b ha hb hlt
  rwa [hsame a ha, hsame b hb]

end RequestQueue

open RequestQueue (Ascending)

/-! ### One call of `schedule` -/

namespace Scheduler

/-- The waiting queue is in order of the keys. -/
abbrev InKeyOrder (s : Scheduler H) : Prop :=
  Ascending (fun r => (s.request r).key) s.waiting.items

end Scheduler

namespace StepState

/-- A point of a call that began at `s`: whoever was preempted ranks last, and
whoever was admitted comes first. -/
structure Ranked (s : Scheduler H) (l : StepState H) : Prop where
  running : ∀ r ∈ l.scheduler.running, r ∈ s.running ∨
    r ∈ l.scheduledNewReqs ++ l.scheduledResumedReqs
  preempted : ∀ victim ∈ l.preemptedReqs, ∀ r ∈ l.scheduler.running,
    (s.request r).rank ≤ (s.request victim).rank
  spared : ∀ r ∈ l.preemptedReqs,
    (∀ other ∈ s.running, other ≠ r → (s.request r).rank < (s.request other).rank) →
      l.scheduler.running = [] ∧ l.preemptedReqs.getLast? = some r
  skipped : l.scheduler.skippedWaiting.items = []
  waiting : Ascending (fun r => (s.request r).key) l.scheduler.waiting.items
  admitted : ∀ r ∈ l.scheduledNewReqs ++ l.scheduledResumedReqs,
    ∀ other ∈ l.scheduler.waiting.items, (s.request r).key < (s.request other).key

variable {s : Scheduler H} {l l' : StepState H}

omit [DecidableEq H] in
/-- A step that moves no request. -/
theorem Ranked.quiet (h : Ranked s l) (hrunning : l'.scheduler.running = l.scheduler.running)
    (hwaiting : l'.scheduler.waiting = l.scheduler.waiting)
    (hskipped : l'.scheduler.skippedWaiting = l.scheduler.skippedWaiting)
    (hpreempted : l'.preemptedReqs = l.preemptedReqs)
    (hnew : l'.scheduledNewReqs = l.scheduledNewReqs)
    (hresumed : l'.scheduledResumedReqs = l.scheduledResumedReqs) : Ranked s l' := by
  constructor
  · rw [hrunning, hnew, hresumed]
    exact h.running
  · rw [hrunning, hpreempted]
    exact h.preempted
  · rw [hrunning, hpreempted]
    exact h.spared
  · rw [hskipped]
    exact h.skipped
  · rw [hwaiting]
    exact h.waiting
  · rw [hwaiting, hnew, hresumed]
    exact h.admitted

/-- A request that ranks before all others is the victim only where there are no
others. -/
theorem victim_alone (hpart : s.Partitioned) (hpriority : s.config.policy = .priority)
    {victim : RequestId} (hvictim : s.selectVictim = .ok victim)
    (hleast : ∀ other ∈ s.running, other ≠ victim →
      (s.request victim).rank < (s.request other).rank) : s.running = [victim] := by
  have hlast := Scheduler.selectVictim_rank hpriority hvictim
  have hall : ∀ r ∈ s.running, r = victim := fun r hr => by
    by_contra hne
    exact absurd (hleast r hr hne) (not_lt.mpr (hlast r hr))
  have hmem := (selectVictim_mem hvictim).1
  have hrun := hpart.running_nodup
  rcases hrunning : s.running with _ | ⟨first, rest⟩
  · rw [hrunning] at hmem
    cases hmem
  rw [hrunning] at hall hrun
  obtain ⟨rfl, hrest⟩ := List.forall_mem_cons.mp hall
  cases rest with
  | nil => rfl
  | cons second rest =>
      rw [hrest second List.mem_cons_self] at hrun
      exact absurd List.mem_cons_self (List.nodup_cons.mp hrun).1

omit [DecidableEq H] in
theorem ranked_preempt {victim : RequestId} {waiting : RequestQueue} (hl : Ranked s l)
    (hwaiting : l'.scheduler.waiting = waiting)
    (hascending : Ascending (fun r => (s.request r).key) waiting.items)
    (hrunning : l'.scheduler.running = l.scheduler.running.erase victim)
    (hskipped : l'.scheduler.skippedWaiting = l.scheduler.skippedWaiting)
    (hpreempted : l'.preemptedReqs = l.preemptedReqs ++ [victim])
    (hnone : l.scheduledNewReqs ++ l.scheduledResumedReqs = [])
    (hnone' : l'.scheduledNewReqs ++ l'.scheduledResumedReqs = [])
    (hmem : victim ∈ l.scheduler.running)
    (hlast : ∀ r ∈ l.scheduler.running, (s.request r).rank ≤ (s.request victim).rank)
    (halone : (∀ other ∈ l.scheduler.running, other ≠ victim →
      (s.request victim).rank < (s.request other).rank) → l.scheduler.running = [victim]) :
    Ranked s l' := by
  have hfewer : ∀ r ∈ l'.scheduler.running, r ∈ l.scheduler.running := fun r hr => by
    rw [hrunning] at hr
    exact List.mem_of_mem_erase hr
  have hbefore : ∀ r ∈ l.scheduler.running, r ∈ s.running := fun r hr =>
    (hl.running r hr).resolve_right (by rw [hnone]; exact List.not_mem_nil)
  constructor
  · exact fun r hr => Or.inl (hbefore r (hfewer r hr))
  · intro victim' hvictim' r hr
    rw [hpreempted] at hvictim'
    rcases List.mem_append.mp hvictim' with hbefore' | hlast'
    · exact hl.preempted victim' hbefore' r (hfewer r hr)
    · rw [List.mem_singleton.mp hlast']
      exact hlast r (hfewer r hr)
  · intro r hr hleast
    rw [hpreempted] at hr ⊢
    rcases List.mem_append.mp hr with hr | hr
    · -- an earlier victim that ranks first left nobody to preempt
      have hempty := (hl.spared r hr hleast).1
      rw [hempty] at hmem
      cases hmem
    · obtain rfl := List.mem_singleton.mp hr
      have hsingle := halone fun other hother hne => hleast other (hbefore other hother) hne
      rw [hrunning, hsingle]
      exact ⟨List.erase_cons_head .., List.getLast?_concat⟩
  · rw [hskipped]
    exact hl.skipped
  · rw [hwaiting]
    exact hascending
  · rw [hnone']
    exact fun r hr => absurd hr List.not_mem_nil

theorem Outcome.ranked (h : Outcome l l') (hb : Batch l) (hpolicy : l.scheduler.Policied)
    (hpriority : l.scheduler.config.policy = .priority)
    (hkeeps : ∀ r, (s.request r).Keeps (l.scheduler.request r))
    (hunskipped : l.phase = .admission → l'.scheduler.waiting = l.scheduler.waiting)
    (hl : Ranked s l) : Ranked s l' := by
  have hwaiting : l.scheduler.waiting.policy = .priority := hpolicy.waiting.trans hpriority
  cases h with
  | rest hfinished => exact hl
  | enter hrunning => exact hl.quiet rfl rfl rfl rfl rfl rfl
  | pass hrunning hr =>
      rw [disableSpeculation_frame]
      exact hl.quiet rfl rfl rfl rfl rfl rfl
  | takeUp hrunning hr hn hbudget hspec hlen =>
      rw [disableSpeculation_frame]
      exact hl.quiet rfl rfl rfl rfl rfl rfl
  | commit hallocating hok =>
      refine hl.quiet (commitRunning_running ..) (commitRunning_waiting ..) ?_ rfl rfl rfl
      rw [commitRunning_request]
  | @preempt r victim n kv inBatch blocks scheduled inputs cache encoderBudget tokenBudget reqIndex
      loras hallocating hok hvictim hstatus hfree hbatch hinputs =>
      have hover : l.phase.overRunning = true := by rw [hallocating]; rfl
      have hnone : l.scheduledNewReqs ++ l.scheduledResumedReqs = [] := by
        obtain ⟨hnew, hresumed, -⟩ := hb.first hover
        rw [hnew, hresumed, List.append_nil]
      have hmem := (selectVictim_mem hvictim).1
      have hfcfs : l.scheduler.config.policy ≠ .fcfs := by rw [hpriority]; exact fun h => by cases h
      have hranks : ∀ r, (l.scheduler.request r).rank = (s.request r).rank := fun r =>
        (hkeeps r).rank_eq
      refine ranked_preempt hl rfl ?_ (if_neg hfcfs) rfl rfl hnone hnone hmem (fun r hr => ?_) ?_
      · -- the victim goes to its place in the queue
        rw [RequestQueue.prependRequest, hwaiting, RequestQueue.addRequest, hwaiting]
        refine RequestQueue.insertKey_ascending (fun r' => ?_) hl.waiting fun other hother => ?_
        · refine Request.Keeps.key_eq ((hkeeps r').trans ?_)
          exact Request.Keeps.update .preempted r'
        · refine Request.key_ne ?_
          rw [← (hkeeps other).requestId_eq, ← (hkeeps victim).requestId_eq,
            hb.partition.requestId, hb.partition.requestId]
          rintro rfl
          exact hb.partition.not_running_of_waiting (List.mem_append_left _ hother) hmem
      · rw [← hranks, ← hranks]
        exact Scheduler.selectVictim_rank hpriority hvictim r hr
      · intro hleast
        refine victim_alone hb.partition hpriority hvictim fun other hother hne => ?_
        rw [hranks, hranks]
        exact hleast other hother hne
  | close hadmission hs =>
      rcases hs with rfl | ⟨r, hs⟩
      · exact hl.quiet rfl rfl rfl rfl rfl rfl
      · rw [hs.frame]
        exact hl.quiet rfl rfl rfl rfl rfl rfl
  | setAside hadmission hs hfree hpop =>
      -- a call that skips nobody sets nobody aside
      exact absurd (hunskipped hadmission) (setAside_absurd hs hpop)
  | lookUp hadmission hs hpreempted hhits hexternal hrunning hn hbudget hlen =>
      rw [hs.frame]
      exact hl.quiet rfl rfl rfl rfl rfl rfl
  | decline hadmitting hok => exact hl.quiet rfl rfl rfl rfl rfl rfl
  | @accept r r' hits blocks numLocal numExternal n inputs kv waiting connector loras hadmitting hok
      hpop hstatus hconnector =>
      have hnone : l.preemptedReqs = [] := hb.second (by rw [hadmitting]; rfl)
      have hitems := RequestQueue.popRequest_eq_ok hpop
      have hascending := hl.waiting
      rw [hitems] at hascending
      obtain ⟨hfirst, hrest⟩ := List.pairwise_cons.mp hascending
      have hjoin : ∀ r, r ∈ (if (l.scheduler.request r').status = .waiting
          then l.scheduledNewReqs ++ [r'] else l.scheduledNewReqs) ++
          (if (l.scheduler.request r').status = .waiting
          then l.scheduledResumedReqs else l.scheduledResumedReqs ++ [r']) ↔
          r ∈ l.scheduledNewReqs ++ l.scheduledResumedReqs ∨ r = r' := by
        intro r
        split <;> simp only [List.mem_append, List.mem_singleton] <;> tauto
      constructor
      · intro r hr
        rw [hjoin]
        rcases List.mem_append.mp hr with hr | hr
        · exact (hl.running r hr).imp_right Or.inl
        · exact Or.inr (Or.inr (List.mem_singleton.mp hr))
      · dsimp only
        rw [hnone]
        exact fun _ hmem => absurd hmem List.not_mem_nil
      · dsimp only
        rw [hnone]
        exact fun _ hmem => absurd hmem List.not_mem_nil
      · exact hl.skipped
      · exact hrest
      · -- the queue is in order: whoever is let in ranks before those who are left
        intro r hr other hother
        rcases (hjoin r).mp hr with hr | rfl
        · refine hl.admitted r hr other ?_
          rw [hitems]
          exact List.mem_cons_of_mem _ hother
        · exact hfirst other hother

theorem Loops.ranked (hsettled : s.Settled) (hplain : s.AllPlain) (hpolicy : s.Policied)
    (hpriority : s.config.policy = .priority) (horder : s.InKeyOrder)
    (hloops : Loops (start s) l) : Ranked s l := by
  refine hloops.plain_invariant (P := fun l => Ranked s l) hsettled.partition hplain ?_ ?_
  · refine ⟨fun r hr => Or.inl hr, fun _ hmem => ?_, fun _ hmem => ?_, hsettled.skipped, horder,
      fun _ hmem => ?_⟩
    · exact absurd hmem List.not_mem_nil
    · exact absurd hmem List.not_mem_nil
    · exact absurd hmem List.not_mem_nil
  · intro l l' hreach _ hstep hb hunskipped hl
    have hpolicied : l.scheduler.Policied :=
      Loops.invariant (P := fun l => l.scheduler.Policied) hreach hpolicy
        fun _ _ hstep hp => hstep.policied hp
    refine hstep.ranked hb hpolicied ?_ (Loops.keeps hreach) hunskipped hl
    rw [(Loops.static hreach).1]
    exact hpriority

end StepState

/-! ### What the output says -/

namespace Scheduler

/-- A call that takes from the last and gives to the first. -/
structure Prioritized (s : Scheduler H) (output : SchedulerOutput) (s' : Scheduler H) : Prop where
  /-- Whoever was preempted ranks after all that are still running. -/
  preempted : ∀ victim ∈ output.preemptedReqIds.getD [], ∀ r ∈ s'.running,
    (s'.request r).rank ≤ (s'.request victim).rank
  /-- Whoever was admitted comes before all that are left waiting. -/
  admitted : ∀ r ∈ output.scheduledNewReqs.map (·.reqId), ∀ other ∈ s'.waiting.items,
    (s'.request r).key < (s'.request other).key
  /-- The first of the running requests is preempted last, when nobody else is
  running any more. -/
  spared : ∀ r ∈ s.running,
    (∀ other ∈ s.running, other ≠ r → (s.request r).rank < (s.request other).rank) →
      r ∈ output.preemptedReqIds.getD [] →
        s'.running = [] ∧ (output.preemptedReqIds.getD []).getLast? = some r
  /-- It is a victim only where it is the only one running. -/
  alone : ∀ l victim, StepState.Loops (StepState.start s) l →
    l.scheduler.selectVictim = .ok victim →
    (∀ other ∈ l.scheduler.running, other ≠ victim →
      (l.scheduler.request victim).rank < (l.scheduler.request other).rank) →
    l.scheduler.running = [victim]

theorem schedule_ranked {s s' : Scheduler H} {output : SchedulerOutput} (hsettled : s.Settled)
    (hplain : s.AllPlain) (hpolicy : s.Policied) (hpriority : s.config.policy = .priority)
    (horder : s.InKeyOrder) (hok : s.schedule = .ok (output, s')) :
    ∃ l, StepState.Ranked s l ∧ StepState.Batch l ∧ StepState.Finishes l output s' ∧
      s'.running = l.scheduler.running ∧ s'.waiting = l.scheduler.waiting := by
  obtain ⟨l, hloops, -, hfinishes⟩ := schedule_ok hok
  have hl := StepState.Loops.ranked hsettled hplain hpolicy hpriority horder hloops
  have hrestore : l.scheduler.restoreSkippedWaiting = l.scheduler := if_pos hl.skipped
  refine ⟨l, hl, hloops.batch hsettled.partition, hfinishes, ?_, ?_⟩
  · rw [hfinishes.state, hrestore]
  · rw [hfinishes.state, hrestore]

theorem schedule_prioritized {s s' : Scheduler H} {output : SchedulerOutput}
    (hsettled : s.Settled) (hplain : s.AllPlain) (hpolicy : s.Policied)
    (hpriority : s.config.policy = .priority) (horder : s.InKeyOrder)
    (hok : s.schedule = .ok (output, s')) : Prioritized s output s' := by
  obtain ⟨l, hl, hb, hfinishes, hrunning, hwaiting⟩ :=
    schedule_ranked hsettled hplain hpolicy hpriority horder hok
  have hkeeps := schedule_keeps hok
  have hpreempted : output.preemptedReqIds.getD [] = l.preemptedReqs := by
    rw [hfinishes.preempted]
    split
    · rename_i hnone
      rw [hnone]
      rfl
    · rfl
  refine ⟨fun victim hvictim r hr => ?_, fun r hr other hother => ?_, fun r hr hleast hmem => ?_,
    fun l victim hloops hvictim hleast => ?_⟩
  · rw [(hkeeps r).rank_eq, (hkeeps victim).rank_eq]
    rw [hpreempted] at hvictim
    rw [hrunning] at hr
    exact hl.preempted victim hvictim r hr
  · rw [(hkeeps r).key_eq, (hkeeps other).key_eq]
    rw [StepState.makeNewRequestData_reqIds hb.partition.requestId hfinishes.newReqs] at hr
    rw [hwaiting] at hother
    exact hl.admitted r hr other hother
  · rw [hpreempted] at hmem ⊢
    rw [hrunning]
    exact hl.spared r hmem hleast
  · refine StepState.victim_alone (hloops.batch hsettled.partition).partition ?_ hvictim hleast
    rw [hloops.static.1]
    exact hpriority

/-! ### Over a run -/

omit [DecidableEq H] in
theorem removeRequest_ascending {queue queue' : RequestQueue} {r : RequestId}
    {key : RequestId → (ℤ ×ₗ ℕ) ×ₗ ℕ} (hnodup : queue.items.Nodup)
    (h : queue.removeRequest r = .ok queue') (hascending : Ascending key queue.items) :
    Ascending key queue'.items := by
  rw [RequestQueue.removeRequest_eq_ok hnodup h]
  exact hascending.sublist List.erase_sublist

theorem finishOne_inKeyOrder {s s' : Scheduler H} {finishedStatus : RequestStatus} {r : RequestId}
    (hfinished : finishedStatus.isFinished = true) (hsettled : s.Settled)
    (hok : s.finishOne finishedStatus r = .ok s') (h : s.InKeyOrder) : s'.InKeyOrder := by
  have hkeeps := finishOne_keeps hfinished hok
  suffices hsame : Ascending (fun r => (s.request r).key) s'.waiting.items from
    hsame.congr fun r' _ => (hkeeps r').key_eq
  rcases finishOne_ok hok with ⟨-, rfl⟩ |
    ⟨-, running, waiting, kv, connector, cache, hplace, -, -, rfl⟩
  · exact h
  · rcases hplace with ⟨-, -, -, rfl⟩ | ⟨-, -, hremove⟩
    · exact h
    · refine removeRequest_ascending ?_ hremove h
      rw [← hsettled.queued_eq]
      exact hsettled.partition.waiting_nodup

theorem Step.inKeyOrder {s s' : Scheduler H} {event : Event} (hstep : Step s event s')
    (hsettled : s.Settled) (hplain : s.AllPlain) (hpolicy : s.Policied)
    (hpriority : s.config.policy = .priority) (h : s.InKeyOrder) : s'.InKeyOrder := by
  have hkeeps : ∀ r, event.added ≠ some r → (s'.request r).key = (s.request r).key :=
    fun r hr => (hstep.keeps hr).key_eq
  cases hstep with
  | @addRequest args request hrequest hfresh =>
      obtain ⟨hid, -⟩ := Request.init_ok hrequest
      have hold : ∀ other ∈ s.waiting.items, other ≠ args.requestId := by
        rintro other hother rfl
        exact hfresh (hsettled.partition.known_of_waiting (List.mem_append_left _ hother))
      rw [← hid] at hold
      rw [addRequest_eq]
      set table := Function.update s.request request.requestId (s.stored request) with htable
      have hqueue : (s.waiting.addRequest table request.requestId).items =
          RequestQueue.insertKey table request.requestId s.waiting.items := by
        rw [RequestQueue.addRequest, hpolicy.waiting.trans hpriority]
      show Ascending (fun r => (table r).key) (s.waiting.addRequest table request.requestId).items
      have hothers : ∀ other ∈ s.waiting.items, table other = s.request other :=
        fun other hother => Function.update_of_ne (hold other hother) ..
      rw [hqueue]
      refine RequestQueue.insertKey_ascending (fun _ => rfl) ?_ fun other hother => ?_
      · exact h.congr fun other hother => by rw [hothers other hother]
      · refine Request.key_ne ?_
        rw [hothers other hother, hsettled.partition.requestId, htable, Function.update_self,
          stored_frame]
        exact hold other hother
  | finishRequests hok =>
      obtain ⟨hfinished, hall⟩ := finishRequests_ok hok
      exact (finishAll_invariant (P := fun s => s.Settled ∧ s.InKeyOrder) hall ⟨hsettled, h⟩
        fun _ _ _ _ hone hs => ⟨hs.1.finishOne hfinished hone,
          finishOne_inKeyOrder hfinished hs.1 hone hs.2⟩).2
  | schedule hok =>
      obtain ⟨l, hl, -, -, -, hwaiting⟩ :=
        schedule_ranked hsettled hplain hpolicy hpriority h hok
      rw [InKeyOrder, hwaiting]
      exact hl.waiting.congr fun r _ => hkeeps r fun heq => by cases heq
  | @updateFromOutput _ _ _ outputs hok =>
      rw [InKeyOrder, (updateFromOutput_queues hok).1]
      exact h.congr fun r _ => hkeeps r fun heq => by cases heq
  | resetPrefixCache => exact h
  | grammar hcompiling => exact h.congr fun r _ => hkeeps r fun heq => by cases heq
  | sharedStore hconnector => exact h

theorem run_inKeyOrder {s s' : Scheduler H} {events : List Event} (hrun : Run Step s events s')
    (hsettled : s.Settled) (hrequests : s.requests = []) (hpolicy : s.Policied)
    (hpriority : s.config.policy = .priority) (hplain : PlainEvents events) : s'.InKeyOrder := by
  refine hrun.invariant (P := fun events s => PlainEvents events → s.InKeyOrder) ?_ ?_ hplain
  · intro _
    have hnone : s.waiting.items = [] := by
      have hperm := hsettled.partition.perm
      rw [hrequests, hsettled.queued_eq] at hperm
      exact (List.append_eq_nil_iff.mp hperm.symm.eq_nil).2
    rw [InKeyOrder, hnone]
    exact List.Pairwise.nil
  · intro events s₁ event s₂ hrun ih hstep hplain
    have hbefore : PlainEvents events := fun args hmem =>
      hplain args (List.mem_append_left _ hmem)
    obtain ⟨hpolicied, hconfig⟩ := run_policied hrun hpolicy
    exact hstep.inKeyOrder (run_settled hrun hsettled) (run_plain hrun hrequests hbefore) hpolicied
      (hconfig ▸ hpriority) (ih hbefore)

end Scheduler

end Pvllm
