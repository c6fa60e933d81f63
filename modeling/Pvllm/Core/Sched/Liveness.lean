import Pvllm.Core.Sched.Peak
import Pvllm.Library.Backlog

/-!
The oldest request is served.

Under `fcfs`, in a pool with blocks for one request at its peak, the
first of the line (running, then waiting) is given tokens by every call of
`schedule` and is never a victim. So where results are folded in and nothing is
added, every request has ended after as many calls as there are tokens to be
computed.
-/

namespace Pvllm

variable {H : Type} [DecidableEq H]

namespace Scheduler

/-- A scheduler that can bring somebody on: over plain requests, with room for one request
at its peak. -/
structure Lively (s : Scheduler H) : Prop extends s.Roomy where
  whole : s.config.enableChunkedPrefill = false →
    s.config.maxModelLen ≤ s.config.maxNumScheduledTokens
  nonempty : ∀ r ∈ s.requests, 1 ≤ (s.request r).numTokens

/-- A scheduler that can serve: first come, first served. -/
structure Serving (s : Scheduler H) : Prop extends s.Lively where
  fcfs : s.config.policy = .fcfs

end Scheduler

/-! ### The first of the line -/

namespace StepState

variable {s : Scheduler H} {l l' : StepState H} {r : RequestId}

/-- Where the first of the line is, until it is in the batch. -/
inductive Heading (r : RequestId) (l : StepState H) : Prop
  /-- It runs already, and is the first to be asked. -/
  | running (hrunning : l.scheduler.running.head? = some r) (hindex : l.reqIndex = 0)
      (hbudget : l.tokenBudget = l.scheduler.config.maxNumScheduledTokens)
      (hphase : l.phase = .running ∨ ∃ n, l.phase = .allocating r n)
  /-- Nothing runs, and it is the first to be admitted. -/
  | waiting (hrunning : l.scheduler.running = [])
      (hhead : l.scheduler.waiting.items.head? = some r)
      (hbudget : l.tokenBudget = l.scheduler.config.maxNumScheduledTokens)
      (hpreempted : l.preemptedReqs = [])
      (hphase : l.phase = .running ∨ l.phase = .admission ∨
        ∃ hits numLocal n, l.phase = .admitting r hits numLocal 0 n [])
  | served (hrunning : l.scheduler.running.head? = some r) {n : ℕ}
      (hfind : l.numScheduledTokens.find r = some n)

omit [DecidableEq H] in
theorem heading_start (hhead : (s.running ++ s.waiting.items).head? = some r) :
    Heading r (start s) := by
  cases hrunning : s.running with
  | nil =>
      rw [hrunning, List.nil_append] at hhead
      exact .waiting hrunning hhead rfl rfl (Or.inl rfl)
  | cons r' rest =>
      rw [hrunning] at hhead
      refine .running ?_ rfl rfl (Or.inl rfl)
      show s.running.head? = some r
      rw [hrunning]
      exact hhead

omit [DecidableEq H] in
/-- Where the loops are over, it is in the batch. -/
theorem Heading.served_of_finished (h : Heading r l) (hfinished : l.phase = .finished) :
    l.scheduler.running.head? = some r ∧ ∃ n, l.numScheduledTokens.find r = some n := by
  cases h with
  | running hrunning hindex hbudget hphase =>
      rcases hphase with hphase | ⟨n, hphase⟩ <;> rw [hfinished] at hphase <;> cases hphase
  | waiting hrunning hhead hbudget hpreempted hphase =>
      rcases hphase with hphase | hphase | ⟨_, _, _, hphase⟩ <;> rw [hfinished] at hphase <;>
        cases hphase
  | served hrunning hfind => exact ⟨hrunning, _, hfind⟩

theorem eq_of_head?_of_getLast? {α : Type*} {l : List α} {a : α} (hnodup : l.Nodup)
    (hhead : l.head? = some a) (hlast : l.getLast? = some a) : l = [a] := by
  cases l with
  | nil => cases hhead
  | cons b l =>
      obtain rfl := Option.some.inj hhead
      cases l with
      | nil => rfl
      | cons c l =>
          rw [List.getLast?_cons_cons] at hlast
          exact absurd (List.mem_of_getLast? hlast) (List.nodup_cons.mp hnodup).1

theorem head?_dropLast {α : Type*} {l : List α} {a : α} (h : l.head? = some a)
    (hlast : l.getLast? ≠ some a) : l.dropLast.head? = some a := by
  cases l with
  | nil => cases h
  | cons b l =>
      obtain rfl := Option.some.inj h
      cases l with
      | nil => exact absurd rfl hlast
      | cons c l => rfl

section

variable (hlively : s.Lively) (hloops : Loops (start s) l)

include hlively hloops

/-- A running head is taken up. -/
theorem Heading.advance_running (hrunning : l.scheduler.running.head? = some r)
    (hindex : l.reqIndex = 0) (hbudget : l.tokenBudget = l.scheduler.config.maxNumScheduledTokens)
    (hphase : l.phase = .running) (hstep : l.advance = .ok l') : Heading r l' := by
  have hb := Loops.batch hlively.ready.settled.partition hloops
  have hp := Loops.pace hlively.ready.settled.partition hlively.ready.pace hloops
  have hconfig : l.scheduler.config = s.config := (Loops.static hloops).1
  have hmem : r ∈ l.scheduler.running := List.mem_of_head? hrunning
  have hat : l.scheduler.running[l.reqIndex]? = some r := by
    rw [hindex, ← List.head?_eq_getElem?, hrunning]
  have houtcome := advance_outcome hstep
  have hover : l.phase.overRunning = true := by rw [hphase]; rfl
  have hfirst : r ∉ l.batch := by
    rw [hb.batch_eq hover]
    exact hb.at_index hover hat
  cases houtcome with
  | enter hphase' hover =>
      rcases hover with hzero | hnone
      · have hpos := l.scheduler.config.maxNumScheduledTokens_pos
        omega
      · rw [hat] at hnone
        cases hnone
  | pass hphase' hr hnone =>
      rw [hat] at hr
      obtain rfl := Option.some.inj hr
      have hknown := hb.partition.known_of_running hmem
      rcases hnone with hfull | ⟨feature, hfeature, -⟩
      · have hbehind := (hp.steady r hmem hfirst).behind
        have hwindow := hlively.ready.window r ((Loops.static hloops).2.1 ▸ hknown)
        rw [← (hp.reworks r).numTokens_eq, hlively.ready.length, ← hconfig] at hwindow
        omega
      · rw [(Loops.plain hlively.ready hloops hknown).mmFeatures] at hfeature
        cases hfeature
  | takeUp hphase' hr hn hbudget' hspec hlen =>
      rw [hat] at hr
      obtain rfl := Option.some.inj hr
      rw [disableSpeculation_frame]
      exact .running hrunning hindex hbudget (Or.inr ⟨_, rfl⟩)
  | _ => simp_all only [reduceCtorEq]

theorem Heading.advance_admission (hrunning : l.scheduler.running = [])
    (hhead : l.scheduler.waiting.items.head? = some r)
    (hbudget : l.tokenBudget = l.scheduler.config.maxNumScheduledTokens)
    (hpreempted : l.preemptedReqs = []) (hphase : l.phase = .admission)
    (hstep : l.advance = .ok l') : Heading r l' := by
  have hb := Loops.batch hlively.ready.settled.partition hloops
  have hg := Loops.granting hlively.ready.settled.partition hloops
  have hconfig : l.scheduler.config = s.config := (Loops.static hloops).1
  obtain ⟨rest, hitems⟩ := List.head?_eq_some_iff.mp hhead
  have hr : r ∈ l.scheduler.queued := List.mem_append_left _ (List.mem_of_head? hhead)
  have hknown := hb.partition.known_of_waiting hr
  have hplain := Loops.plain hlively.ready hloops hknown
  rw [hg.requests] at hknown
  have hlora : l.lacksAdapterSlot (l.scheduler.request r) = false := by
    unfold lacksAdapterSlot
    rw [hplain.loraRequest]
    cases l.scheduler.config.maxLoras <;> rfl
  have hhalf : l.scheduler.numPartialPrefills = 0 := by
    unfold Scheduler.numPartialPrefills
    rw [hrunning]
    rfl
  have hpos := l.scheduler.config.maxNumScheduledTokens_pos
  have hseats := l.scheduler.config.maxNumRunningReqs_pos
  have hprefills := l.scheduler.config.maxNumPartialPrefills_pos
  obtain ⟨found, numLocal, kv, -, hle, hlookup⟩ := Loops.lookupStep_eq hlively.ready hloops hr
  -- there is at least one token left to ask for, and no more than the window holds
  have htokens := hlively.nonempty r hknown
  have hwindow := hlively.ready.window r hknown
  rw [← (hg.reworks r).numTokens_eq] at htokens hwindow
  rw [hlively.ready.length, ← hconfig] at hwindow
  have hasked : 0 < l.askedTokens r numLocal := capShare_pos _ (by omega)
  have hcap : l.askedTokens r numLocal ≤ l.scheduler.config.maxModelLen :=
    (capShare_le ..).trans ((Nat.sub_le ..).trans hwindow)
  have hgates : ¬ (l.scheduler.config.enableChunkedPrefill = false ∧
      l.tokenBudget < l.askedTokens r numLocal ∨
        min (l.askedTokens r numLocal) l.tokenBudget = 0) := by
    rintro (⟨hwhole, hlt⟩ | hzero)
    · have hfits := hlively.whole (hconfig ▸ hwhole)
      rw [← hconfig, ← hbudget] at hfits
      omega
    · omega
  have hnext : l.advance = l.lookupStep l.scheduler r := by
    unfold advance
    rw [hphase]
    dsimp only
    unfold admissionStep
    dsimp only
    rw [if_neg (by rw [hitems]; simp; omega), if_neg (by rw [hrunning, List.length_nil]; omega),
      if_neg (by rw [hhalf]; omega)]
    unfold RequestQueue.peekRequest
    rw [hitems]
    dsimp only
    rw [hlora, if_neg Bool.false_ne_true, if_neg hplain.status]
  rw [hnext, hlookup, if_neg hgates] at hstep
  obtain rfl := Except.ok.inj hstep
  exact .waiting hrunning hhead hbudget hpreempted (Or.inr (Or.inr ⟨_, _, _, rfl⟩))

/-- It is admitted. -/
theorem Heading.advance_waiting (hrunning : l.scheduler.running = [])
    (hhead : l.scheduler.waiting.items.head? = some r)
    (hbudget : l.tokenBudget = l.scheduler.config.maxNumScheduledTokens)
    (hpreempted : l.preemptedReqs = [])
    (hphase : l.phase = .running ∨ l.phase = .admission ∨
      ∃ hits numLocal n, l.phase = .admitting r hits numLocal 0 n [])
    (hstep : l.advance = .ok l') : Heading r l' := by
  have houtcome := advance_outcome hstep
  rcases hphase with hphase | hphase | ⟨found, numLocal, n, hphase⟩
  · have hempty : l.scheduler.running[l.reqIndex]? = none := by
      rw [hrunning]
      exact List.getElem?_nil
    cases houtcome with
    | enter hphase' hover =>
        refine .waiting hrunning hhead hbudget hpreempted (Or.inr (Or.inl ?_))
        exact if_pos hpreempted
    | pass hphase' hr hnone =>
        rw [hempty] at hr
        cases hr
    | takeUp hphase' hr hn hbudget' hspec hlen =>
        rw [hempty] at hr
        cases hr
    | _ => simp_all only [reduceCtorEq]
  · exact Heading.advance_admission hlively hloops hrunning hhead hbudget hpreempted hphase hstep
  · -- nothing else runs, so the slots are there
    have halone : ∀ r' ∈ l.scheduler.running, r' = r := by
      rw [hrunning]
      exact fun r' hr' => absurd hr' List.not_mem_nil
    obtain ⟨news, kv, hgoes⟩ := hloops.alone hlively.toRoomy (.admission hphase) halone
    cases houtcome with
    | decline hphase' hok =>
        obtain ⟨rfl, rfl, rfl, rfl, rfl, rfl⟩ := Phase.admitting.inj (hphase.symm.trans hphase')
        rw [hgoes] at hok
        cases hok
    | accept hphase' hok hpop hstatus hconnector =>
        obtain ⟨rfl, rfl, rfl, rfl, rfl, rfl⟩ := Phase.admitting.inj (hphase.symm.trans hphase')
        have hitems := RequestQueue.popRequest_eq_ok hpop
        rw [hitems, List.head?_cons] at hhead
        obtain rfl := Option.some.inj hhead
        refine .served ?_ (Dict.find_store_self ..)
        dsimp only
        rw [hrunning]
        rfl
    | _ => simp_all only [reduceCtorEq]

end

section

variable (hserving : s.Serving) (hloops : Loops (start s) l) {n : ℕ}

include hserving hloops

theorem Loops.victim_last {victim : RequestId} (hvictim : l.scheduler.selectVictim = .ok victim) :
    l.scheduler.config.policy = .fcfs ∧ l.scheduler.running.getLast? = some victim := by
  have hfcfs : l.scheduler.config.policy = .fcfs := by
    rw [(Loops.static hloops).1]
    exact hserving.fcfs
  unfold Scheduler.selectVictim at hvictim
  rw [hfcfs] at hvictim
  dsimp only at hvictim
  split at hvictim
  · cases hvictim
  · rename_i last hlast
    obtain rfl := Except.ok.inj hvictim
    exact ⟨hfcfs, hlast⟩

/-- A running head gets its slots: whoever is preempted runs behind it. -/
theorem Heading.advance_allocating (hrunning : l.scheduler.running.head? = some r)
    (hindex : l.reqIndex = 0) (hbudget : l.tokenBudget = l.scheduler.config.maxNumScheduledTokens)
    (hphase : l.phase = .allocating r n) (hstep : l.advance = .ok l') : Heading r l' := by
  have hb := Loops.batch hserving.ready.settled.partition hloops
  have houtcome := advance_outcome hstep
  cases houtcome with
  | commit hphase' hok =>
      obtain ⟨rfl, rfl⟩ := Phase.allocating.inj (hphase.symm.trans hphase')
      refine .served ?_ (Dict.find_store_self ..)
      rw [commitRunning_request]
      exact hrunning
  | @preempt _ victim _ kv _ _ _ _ _ _ _ _ _ hphase' hok hvictim hstatus hfree hbatch hinputs =>
      obtain ⟨rfl, rfl⟩ := Phase.allocating.inj (hphase.symm.trans hphase')
      obtain ⟨hfcfs, hlast⟩ := Loops.victim_last hserving hloops hvictim
      -- had it run on its own, it would have got its slots
      have hne : victim ≠ r := by
        rintro rfl
        have halone : ∀ r' ∈ l.scheduler.running, r' = victim := by
          rw [eq_of_head?_of_getLast? hb.partition.running_nodup hrunning hlast]
          exact fun r' hr' => List.mem_singleton.mp hr'
        obtain ⟨news, kv', hgoes⟩ := hloops.alone hserving.toRoomy (.running hphase) halone
        rw [hok] at hgoes
        cases hgoes
      obtain ⟨-, -, -, -, hkept, hstays⟩ | ⟨hpriority, -⟩ := hbatch
      · refine .running ?_ (hstays.trans hindex) (hkept.trans hbudget) (Or.inr ⟨n, if_neg hne⟩)
        dsimp only
        rw [if_pos hfcfs]
        refine head?_dropLast hrunning fun hlast' => hne ?_
        exact Option.some.inj (hlast.symm.trans hlast')
      · rw [hfcfs] at hpriority
        cases hpriority
  | _ => simp_all only [reduceCtorEq]

/-- Once it is in the batch it stays there: it is not the last who runs when somebody else
asks for slots. -/
theorem Heading.advance_served (hrunning : l.scheduler.running.head? = some r)
    (hfind : l.numScheduledTokens.find r = some n) (hstep : l.advance = .ok l') :
    Heading r l' := by
  have hb := Loops.batch hserving.ready.settled.partition hloops
  have hmem : r ∈ l.batch := (hb.keys r).mp ((Dict.mem_keys_iff ..).mpr ⟨n, hfind⟩)
  have houtcome := advance_outcome hstep
  cases houtcome with
  | rest hphase => exact .served hrunning hfind
  | enter hphase hover => exact .served hrunning hfind
  | pass hphase hr hnone =>
      rw [disableSpeculation_frame]
      exact .served hrunning hfind
  | takeUp hphase hr hn hbudget hspec hlen =>
      rw [disableSpeculation_frame]
      exact .served hrunning hfind
  | @commit r' m blocks kv hphase hok =>
      obtain ⟨m', hfind'⟩ : ∃ m', (l.numScheduledTokens.store r' m).find r = some m' := by
        rw [Dict.find_store]
        split
        · exact ⟨m, rfl⟩
        · exact ⟨n, hfind⟩
      refine .served ?_ hfind'
      rw [commitRunning_request]
      exact hrunning
  | @preempt r' victim m kv _ _ _ _ _ _ _ _ _ hphase hok hvictim hstatus hfree hbatch hinputs =>
      obtain ⟨hfcfs, hlast⟩ := Loops.victim_last hserving hloops hvictim
      obtain ⟨-, hout, htake, -⟩ := hb.allocating r' m hphase
      have hover : l.phase.overRunning = true := by rw [hphase]; rfl
      rw [hb.batch_eq hover] at hmem
      -- the first has its tokens and `r'` has not, so the last is not the first
      have hne : l.scheduler.running.getLast? ≠ some r := by
        intro hlast'
        have hall := eq_of_head?_of_getLast? hb.partition.running_nodup hrunning hlast'
        have hr' := List.mem_of_mem_take htake
        rw [hall, List.mem_singleton] at hr'
        exact hout (hr' ▸ hmem)
      obtain ⟨-, -, -, hkept, -, -⟩ | ⟨hpriority, -⟩ := hbatch
      · refine .served (n := n) ?_ ?_
        · dsimp only
          rw [if_pos hfcfs]
          exact head?_dropLast hrunning hne
        · dsimp only
          rw [hkept]
          exact hfind
      · rw [hfcfs] at hpriority
        cases hpriority
  | close hphase hs =>
      rcases hs with rfl | ⟨r', hs⟩
      · exact .served hrunning hfind
      · exact .served (hs.running_eq ▸ hrunning) hfind
  | setAside hphase hs hfree hpop => exact .served (hs.running_eq ▸ hrunning) hfind
  | lookUp hphase hs hpreempted hhits hexternal hseat hn hbudget hlen =>
      exact .served (hs.running_eq ▸ hrunning) hfind
  | decline hphase hok => exact .served hrunning hfind
  | @accept _ r' _ _ _ _ m _ _ _ _ _ hphase hok hpop hstatus hconnector =>
      obtain ⟨m', hfind'⟩ : ∃ m', (l.numScheduledTokens.store r' m).find r = some m' := by
        rw [Dict.find_store]
        split
        · exact ⟨m, rfl⟩
        · exact ⟨n, hfind⟩
      refine .served ?_ hfind'
      dsimp only
      rw [List.head?_append, hrunning]
      rfl

/-- Every step of the loops brings the first of the line on. -/
theorem Heading.advance (h : Heading r l) (hstep : l.advance = .ok l') : Heading r l' := by
  cases h with
  | running hrunning hindex hbudget hphase =>
      rcases hphase with hphase | ⟨n, hphase⟩
      · exact Heading.advance_running hserving.toLively hloops hrunning hindex hbudget hphase hstep
      · exact Heading.advance_allocating hserving hloops hrunning hindex hbudget hphase hstep
  | waiting hrunning hhead hbudget hpreempted hphase =>
      exact Heading.advance_waiting hserving.toLively hloops hrunning hhead hbudget hpreempted
        hphase hstep
  | served hrunning hfind => exact Heading.advance_served hserving hloops hrunning hfind hstep

/-- In every call the first of the line gets tokens, and runs on as the first. -/
theorem Loops.head_served (hhead : (s.running ++ s.waiting.items).head? = some r)
    (hfinished : l.phase = .finished) :
    l.scheduler.running.head? = some r ∧ ∃ n, l.numScheduledTokens.find r = some n ∧ 0 < n := by
  have hheading : Heading r l := by
    clear hfinished
    induction hloops with
    | refl => exact heading_start hhead
    | tail hbefore hstep ih => exact ih.advance hserving hbefore hstep
  have hb := Loops.batch hserving.ready.settled.partition hloops
  obtain ⟨hrunning, n, hfind⟩ := hheading.served_of_finished hfinished
  exact ⟨hrunning, n, hfind, hb.pos _ _ hfind⟩

end

end StepState

/-! ### Over a run -/

/-- Room for one request at its peak, and for a prompt in one step where it is not chunked. -/
structure SchedulerConfig.Suffices (config : SchedulerConfig) (kvCacheConfig : KVCacheConfig) :
    Prop where
  whole : config.enableChunkedPrefill = false → config.maxModelLen ≤ config.maxNumScheduledTokens
  ample : config.peakBlocks kvCacheConfig ≤ kvCacheConfig.numBlocks

/-- First come, first served, with room for one request at its peak. -/
structure SchedulerConfig.Serves (config : SchedulerConfig) (kvCacheConfig : KVCacheConfig) :
    Prop extends config.Suffices kvCacheConfig where
  fcfs : config.policy = .fcfs

namespace Engine

variable {config : SchedulerConfig} {kvCacheConfig : KVCacheConfig} {enableCaching : Bool}
  {hashFn : HashInput H → H} {seed : ℕ} {s₀ : Scheduler H} {e e' : Engine H}
  {events : List Event}

/-- Between steps of a tame run the scheduler can bring somebody on. -/
theorem run_lively (hsuffices : config.Suffices kvCacheConfig)
    (hinit : Scheduler.init config kvCacheConfig enableCaching hashFn seed none = .ok s₀)
    (hrun : Run Step ⟨s₀, none⟩ events e) (htame : Tame config.maxModelLen events)
    (hnone : e.inFlight = none) : e.scheduler.Lively := by
  obtain ⟨hsettled, hstart, -⟩ := Scheduler.init_settled hinit
  obtain ⟨hpolicied, hconfig⟩ := Scheduler.init_policied hinit
  have hconfig' : e.scheduler.config = config :=
    (Scheduler.run_policied (run_scheduler hrun) hpolicied).2.trans hconfig
  refine ⟨run_roomy hsuffices.ample hinit hrun htame hnone, ?_, fun r hr => ?_⟩
  · rw [hconfig']
    exact hsuffices.whole
  · obtain ⟨args, hmem, -, hasked⟩ := Scheduler.run_asked (run_scheduler hrun) hstart r hr
    have hprompt := List.length_pos_of_ne_nil (htame.fits args hmem).1.prompt
    rw [Request.numTokens, Request.allTokenIds, hasked.promptTokenIds, List.length_append]
    omega

theorem run_serving (hserves : config.Serves kvCacheConfig)
    (hinit : Scheduler.init config kvCacheConfig enableCaching hashFn seed none = .ok s₀)
    (hrun : Run Step ⟨s₀, none⟩ events e) (htame : Tame config.maxModelLen events)
    (hnone : e.inFlight = none) : e.scheduler.Serving := by
  obtain ⟨hpolicied, hconfig⟩ := Scheduler.init_policied hinit
  refine ⟨run_lively hserves.toSuffices hinit hrun htame hnone, ?_⟩
  rw [(Scheduler.run_policied (run_scheduler hrun) hpolicied).2, hconfig]
  exact hserves.fcfs

/-- The running requests, and then the waiting ones. -/
def line (e : Engine H) : List RequestId := e.scheduler.running ++ e.scheduler.waiting.items

/-- Over every tame run under `fcfs` the line is that of the arrivals. -/
theorem run_line (hserves : config.Serves kvCacheConfig)
    (hinit : Scheduler.init config kvCacheConfig enableCaching hashFn seed none = .ok s₀)
    (hrun : Run Step ⟨s₀, none⟩ events e) (htame : Tame config.maxModelLen events) :
    e.line = (arrivals events).filter (· ∈ e.scheduler.requests) := by
  obtain ⟨hsettled, hstart, -⟩ := Scheduler.init_settled hinit
  obtain ⟨hpolicied, hconfig⟩ := Scheduler.init_policied hinit
  refine hrun.invariant (P := fun events e => Tame config.maxModelLen events →
    Scheduler.InLine events e.scheduler) (fun _ => ?_) ?_ htame
  · have hperm := hsettled.partition.perm
    rw [hstart, hsettled.queued_eq] at hperm
    rw [Scheduler.InLine, Arrived, hperm.symm.eq_nil]
    rfl
  · intro events e event e' hrun ih hstep htame
    have hrun' := run_scheduler hrun
    obtain ⟨hpolicied', hconfig'⟩ := Scheduler.run_policied hrun' hpolicied
    refine hstep.scheduler.inLine (Scheduler.run_settled hrun' hsettled)
      (Scheduler.run_plain hrun' hstart htame.left.plain) hpolicied' ?_ (ih htame.left)
    rw [hconfig', hconfig]
    exact hserves.fcfs

/-- What a call gives the request that has been there longest. -/
structure HeadServed (e : Engine H) (r : RequestId) : Prop where
  scheduled : ∃ output s' n, e.scheduler.schedule = .ok (output, s') ∧
    output.numScheduledTokens.find r = some n ∧ 0 < n ∧ s'.running.head? = some r ∧
      ∀ victims, output.preemptedReqIds = some victims → r ∉ victims

theorem Serving.headServed {s : Scheduler H} {r : RequestId} (hserving : s.Serving)
    (hhead : (s.running ++ s.waiting.items).head? = some r) : HeadServed ⟨s, none⟩ r := by
  obtain ⟨⟨output, s'⟩, hok⟩ := hserving.ready.schedule_exists
  obtain ⟨l, hloops, hfinished, hfinishes⟩ := Scheduler.schedule_ok hok
  have hb := hloops.batch hserving.ready.settled.partition
  obtain ⟨hrunning, n, hfind, hn⟩ := StepState.Loops.head_served hserving hloops hhead hfinished
  refine ⟨output, s', n, hok, by rw [hfinishes.scheduled, hfind], hn, ?_, ?_⟩
  · rw [hfinishes.state, StepState.restoreSkippedWaiting_frame]
    exact hrunning
  · intro victims hvictims hmem
    rw [hfinishes.preempted] at hvictims
    split at hvictims
    · cases hvictims
    · obtain rfl := Option.some.inj hvictims
      exact hb.partition.not_running_of_waiting (hb.preempted r hmem)
        (List.mem_of_head? hrunning)

/-- In every tame run under `fcfs` with room for one request, every call serves the request
that has been there longest. -/
theorem run_head_served (hserves : config.Serves kvCacheConfig)
    (hinit : Scheduler.init config kvCacheConfig enableCaching hashFn seed none = .ok s₀)
    (hrun : Run Step ⟨s₀, none⟩ events e) (htame : Tame config.maxModelLen events)
    (hnone : e.inFlight = none) {r : RequestId}
    (holdest : ((arrivals events).filter (· ∈ e.scheduler.requests)).head? = some r) :
    e.HeadServed r := by
  have hserving := run_serving hserves hinit hrun htame hnone
  rw [← run_line hserves hinit hrun htame] at holdest
  obtain ⟨s, inFlight⟩ := e
  obtain rfl : inFlight = none := hnone
  exact Serving.headServed hserving holdest

end Engine

/-! ### What is left to do -/

/-- A call of `schedule`. -/
def Event.isSchedule : Event → Bool
  | .schedule _ => true
  | _ => false

/-- A known request has not finished. -/
theorem Partition.live {request : RequestId → Request H} {kv : KVCacheManager H}
    {requests running waiting : List RequestId} {r : RequestId}
    (h : Partition request kv requests running waiting) (hr : r ∈ requests) :
    (request r).isFinished = false := by
  rcases List.mem_append.mp (h.perm.mem_iff.mp hr) with hrunning | hwaiting
  · rw [Request.isFinished, h.status r hrunning]
    rfl
  · exact (h.queued r hwaiting).not_finished

theorem Scheduler.Step.known_before {s s' : Scheduler H} {event : Event}
    (hstep : Scheduler.Step s event s') (hsettled : s.Settled) (hadded : event.added = none)
    {r : RequestId} (hr : r ∈ s'.requests) : r ∈ s.requests := by
  by_contra hgone
  have hfinished := hsettled.partition.gone r hgone
  have hsame := hstep.gone hsettled hgone (by rw [hadded]; exact Option.some_ne_none r ∘ Eq.symm)
  have hlive := (hstep.settled hsettled).partition.live hr
  rw [hsame] at hlive
  exact Bool.false_ne_true (hlive.symm.trans hfinished)

namespace Engine

variable {config : SchedulerConfig} {kvCacheConfig : KVCacheConfig} {enableCaching : Bool}
  {hashFn : HashInput H → H} {seed : ℕ} {s₀ : Scheduler H} {e e' : Engine H}
  {events : List Event}

/-- The tokens a request may come to, and at least one beyond its prompt. -/
def work (e : Engine H) (r : RequestId) : ℕ :=
  (e.scheduler.request r).numPromptTokens + max 1 (e.scheduler.request r).maxTokens

/-- The computed tokens of a request that no roll-back takes off. -/
def covered (e : Engine H) (r : RequestId) : ℕ :=
  (e.scheduler.request r).numComputedTokens - (e.draftsFor r).length

/-- The work left for the requests in the line. -/
def owed (e : Engine H) : ℕ := backlog e.work e.covered e.line

theorem Paced.covered_lt (h : e.Paced) {r : RequestId} (hr : r ∈ e.line)
    (hcaps : Scheduler.CapsFor e.scheduler r) (hknown : r ∈ e.scheduler.requests)
    (hnonempty : 1 ≤ (e.scheduler.request r).numTokens) : e.covered r < e.work r := by
  have htokens : (e.scheduler.request r).numTokens < e.work r := by
    have hout : (e.scheduler.request r).numTokens = (e.scheduler.request r).numPromptTokens +
        (e.scheduler.request r).numOutputTokens := List.length_append
    have hlive := hcaps.live hknown
    rw [work]
    cases hpooling : (e.scheduler.request r).usePooling with
    | false =>
        have hroom := hlive.room hpooling
        omega
    | true =>
        have hnone : (e.scheduler.request r).numOutputTokens = 0 := by
          rw [Request.numOutputTokens, h.pooling r hpooling]
          rfl
        omega
  have hcovered : e.covered r ≤ (e.scheduler.request r).numTokens := by
    rw [covered]
    rcases List.mem_append.mp hr with hrunning | hwaiting
    · cases hfind : e.scheduledFor r with
      | none =>
          have hbehind := (h.steady r hrunning hfind).behind
          omega
      | some n =>
          have hahead := (h.flying r hrunning n hfind).2.ahead
          omega
    · rw [← h.settled.queued_eq] at hwaiting
      rw [(h.settled.partition.queued r hwaiting).numComputedTokens]
      omega
  omega

theorem counts_of_anytime {s s' : Scheduler H} {event : Event}
    (hstep : Scheduler.Step s event s') (hanytime : event.anytime = true)
    (hadded : event.added = none) (r : RequestId) :
    (s'.request r).numComputedTokens = (s.request r).numComputedTokens := by
  cases hstep with
  | addRequest hrequest hfresh => cases hadded
  | finishRequests hok =>
      obtain ⟨hfinished, hall⟩ := Scheduler.finishRequests_ok hok
      refine Scheduler.finishAll_invariant (P := fun s' : Scheduler H =>
        (s'.request r).numComputedTokens = (s.request r).numComputedTokens) hall rfl
        fun s₁ s₂ r' _ hone hs => ?_
      rcases Scheduler.finishOne_ok hone with ⟨-, rfl⟩ | ⟨-, _, _, _, _, _, -, -, -, rfl⟩
      · exact hs
      · show (Function.update s₁.request r' _ r).numComputedTokens = _
        by_cases hr : r = r'
        · subst hr
          rw [Function.update_self]
          exact hs
        · rw [Function.update_of_ne hr]
          exact hs
  | schedule hok => cases hanytime
  | updateFromOutput hok => cases hanytime
  | resetPrefixCache => rfl
  | @grammar r' result hcompiling =>
      show (Function.update s.request r' _ r).numComputedTokens = _
      rw [Request.update_grammar]
  | sharedStore hconnector => rfl

/-- A roll-back takes off no more than the drafts. -/
theorem covered_update {s s' : Scheduler H} {schedulerOutput : SchedulerOutput}
    {modelRunnerOutput : ModelRunnerOutput} {outputs : Dict ℕ (List EngineCoreOutput)}
    (hsettled : s.Settled)
    (hok : s.updateFromOutput schedulerOutput modelRunnerOutput = .ok (outputs, s'))
    {r : RequestId} (hr : r ∈ line ⟨s', none⟩) :
    covered ⟨s, some schedulerOutput⟩ r ≤ covered ⟨s', none⟩ r := by
  have hfollows := Scheduler.updateFromOutput_follows hsettled hok
  have hgoes : (s.request r).numComputedTokens -
      (schedulerOutput.scheduledSpecDecodeTokens.findD r []).length ≤
        (s'.request r).numComputedTokens := by
    rcases List.mem_append.mp hr with hrunning | hwaiting
    · obtain ⟨-, request, hgoesOn, heq⟩ := hfollows.running r hrunning
      have hcount : (s'.request r).numComputedTokens = request.numComputedTokens := by
        rw [heq, Scheduler.drafted]
        split <;> rfl
      rw [hcount]
      cases hgoesOn with
      | passed hscheduled => exact Nat.sub_le ..
      | folded hscheduled hfolds hkept hpooled =>
          rw [hfolds.numComputedTokens_eq, UpdateState.rolledBack]
          show _ ≤ (s.request r).numComputedTokens - _
          omega
    · have hqueued : r ∈ s'.queued := List.mem_append_left _ hwaiting
      rw [hfollows.queued] at hqueued
      rw [hfollows.waiting r hqueued]
      exact Nat.sub_le ..
  exact hgoes

theorem covered_schedule {s s' : Scheduler H} {output : SchedulerOutput} {r : RequestId}
    (hserving : s.Serving) (hhead : (s.running ++ s.waiting.items).head? = some r)
    (hok : s.schedule = .ok (output, s')) :
    covered ⟨s, none⟩ r < covered ⟨s', some output⟩ r := by
  obtain ⟨l, hloops, hfinished, hfinishes⟩ := Scheduler.schedule_ok hok
  have hpart := hserving.ready.settled.partition
  have hb := hloops.batch hpart
  have hp := hloops.pace hpart hserving.ready.pace
  obtain ⟨hrunning, n, hfind, hn⟩ := StepState.Loops.head_served hserving hloops hhead hfinished
  have hin : r ∈ l.batch := (hb.keys r).mp ((Dict.mem_keys_iff ..).mpr ⟨n, hfind⟩)
  have hadvanced : (s'.request r).numComputedTokens =
      (l.scheduler.request r).numComputedTokens + n := by
    rw [hfinishes.state]
    dsimp only
    rw [StepState.advancedTable]
    rw [Dict.find] at hfind
    rw [hfind]
    rfl
  -- a request let in by this call had nothing computed
  have hbefore : (s.request r).numComputedTokens ≤ (l.scheduler.request r).numComputedTokens := by
    rcases hloops.follows hpart r (List.mem_of_head? hrunning) with hlet | ⟨-, heq⟩
    · have hfresh := (hloops.newcomers hpart).fresh r hlet
      have hwaiting : r ∈ s.waiting.items :=
        (List.mem_append.mp (List.mem_of_head? hhead)).resolve_left hfresh
      rw [← hserving.ready.settled.queued_eq] at hwaiting
      rw [(hpart.queued r hwaiting).numComputedTokens]
      exact Nat.zero_le _
    · exact heq.ge
  have hbehind := hp.behind r hin
  have hsent := (hp.sent r n hfind).2
  show (s.request r).numComputedTokens - 0 < (s'.request r).numComputedTokens -
    (output.scheduledSpecDecodeTokens.findD r []).length
  rw [hadvanced, hfinishes.spec, hsent]
  omega

section

variable (hserves : config.Serves kvCacheConfig)
  (hinit : Scheduler.init config kvCacheConfig enableCaching hashFn seed none = .ok s₀)
  (hrun : Run Step ⟨s₀, none⟩ events e) (htame : Tame config.maxModelLen events)

include hinit hrun htame

theorem run_covered_lt {r : RequestId} (hr : r ∈ e.line) : e.covered r < e.work r := by
  obtain ⟨hsettled, hstart, -⟩ := Scheduler.init_settled hinit
  have hpaced := run_paced hrun (init_paced hinit)
  have hknown : r ∈ e.scheduler.requests := by
    rw [hpaced.settled.partition.perm.mem_iff, hpaced.settled.queued_eq]
    exact hr
  obtain ⟨args, hmem, -, hasked⟩ := Scheduler.run_asked (run_scheduler hrun) hstart r hknown
  refine hpaced.covered_lt hr (run_capsFor hinit hrun htame r hknown) hknown ?_
  have hprompt := List.length_pos_of_ne_nil (htame.fits args hmem).1.prompt
  rw [Request.numTokens, Request.allTokenIds, hasked.promptTokenIds, List.length_append]
  omega

include hserves

theorem Step.line_sublist {event : Event} (hstep : Step e event e') (hadded : event.added = none) :
    e'.line.Sublist e.line := by
  have htame' : Tame config.maxModelLen (events ++ [event]) :=
    htame.append fun event hevent => List.mem_singleton.mp hevent ▸ hadded
  rw [run_line hserves hinit hrun htame, run_line hserves hinit (hrun.snoc hstep) htame',
    arrivals_snoc, Event.arrive, hadded]
  refine List.monotone_filter_right _ fun r hr => ?_
  have hsettled := Scheduler.run_settled (run_scheduler hrun) (Scheduler.init_settled hinit).1
  exact decide_eq_true (hstep.scheduler.known_before hsettled hadded (of_decide_eq_true hr))

/-- A step that adds nothing leaves no more to do, and a call of `schedule` less. -/
theorem Step.owed_le {event : Event} (hstep : Step e event e') (hadded : event.added = none) :
    e.line = [] ∨ e'.owed + (if event.isSchedule then 1 else 0) ≤ e.owed := by
  have hsub : e'.line.Sublist e.line := hstep.line_sublist hserves hinit hrun htame hadded
  have hwork : e'.work = e.work := by
    funext r
    have hkeeps := hstep.scheduler.keeps (r := r)
      (by rw [hadded]; exact Option.some_ne_none r ∘ Eq.symm)
    rw [work, work, hkeeps.eq]
    rfl
  have hsettled := Scheduler.run_settled (run_scheduler hrun) (Scheduler.init_settled hinit).1
  rw [owed, hwork]
  cases hstep with
  | call hstep hanytime =>
      refine Or.inr ?_
      rw [if_neg, Nat.add_zero]
      · refine backlog_sublist hsub fun r _ _ => ?_
        exact (congrArg (· - _) (counts_of_anytime hstep hanytime hadded r)).ge
      · rintro hschedule
        cases event with
        | schedule output => cases hanytime
        | _ => cases hschedule
  | @schedule s s' output hok =>
      rw [or_iff_not_imp_left]
      intro hsome
      obtain ⟨r, rest, hline⟩ := List.exists_cons_of_ne_nil hsome
      have hhead : (s.running ++ s.waiting.items).head? = some r := by
        show (line ⟨s, none⟩).head? = some r
        rw [hline]
        rfl
      have hserving : s.Serving := run_serving hserves hinit hrun htame rfl
      have hbelow : covered ⟨s, none⟩ r < work ⟨s, none⟩ r :=
        run_covered_lt hinit hrun htame (List.mem_of_head? hhead)
      have hline' : line ⟨s', some output⟩ = line ⟨s, none⟩ := by
        obtain ⟨hsettled₀, hstart, -⟩ := Scheduler.init_settled hinit
        obtain ⟨hpolicied, -⟩ := Scheduler.init_policied hinit
        have hrun' := run_scheduler hrun
        exact (Scheduler.schedule_moves hsettled (Scheduler.run_plain hrun' hstart htame.plain)
          (Scheduler.run_policied hrun' hpolicied).1 hserving.fcfs hok).line_eq
      rw [hline']
      exact backlog_lt hhead hbelow (covered_schedule hserving hhead hok)
  | updateFromOutput hanswers hok =>
      refine Or.inr ?_
      rw [if_neg (by exact Bool.false_ne_true), Nat.add_zero]
      refine backlog_sublist hsub fun r _ hhead => ?_
      exact covered_update hsettled hok (List.mem_of_head? hhead)

/-- Where results are folded in and nothing is added, every request has ended after as many
calls of `schedule` as there is work. -/
theorem run_drained {events' : List Event} (hrun' : Run Step e events' e')
    (hadded : ∀ event ∈ events', event.added = none)
    (hmany : (e.scheduler.requests.map e.work).sum ≤ events'.countP Event.isSchedule) :
    e'.scheduler.requests = [] := by
  have hsettled : e.scheduler.Settled :=
    Scheduler.run_settled (run_scheduler hrun) (Scheduler.init_settled hinit).1
  have hspent : e'.line = [] ∨ events'.countP Event.isSchedule + e'.owed ≤ e.owed := by
    refine hrun'.invariant (P := fun events' e' => (∀ event ∈ events', event.added = none) →
      e'.line = [] ∨ events'.countP Event.isSchedule + e'.owed ≤ e.owed) (fun _ => ?_) ?_ hadded
    · exact Or.inr (Nat.zero_add _).le
    · intro events' e₁ event e₂ hrun' ih hstep hadded
      have hbefore : ∀ event ∈ events', event.added = none := fun event hmem =>
        hadded event (List.mem_append_left _ hmem)
      have hnone : event.added = none := hadded event (List.mem_append_right _ List.mem_cons_self)
      have hall := hrun.append hrun'
      have htame' := htame.append hbefore
      rcases hstep.owed_le hserves hinit hall htame' hnone with hempty | hless
      · have hsub := hstep.line_sublist hserves hinit hall htame' hnone
        rw [hempty] at hsub
        exact Or.inl (List.sublist_nil.mp hsub)
      · refine (ih hbefore).imp (fun hempty => ?_) fun hspent => ?_
        · have hsub := hstep.line_sublist hserves hinit hall htame' hnone
          rw [hempty] at hsub
          exact List.sublist_nil.mp hsub
        · rw [List.countP_append, List.countP_singleton]
          omega
  have hsettled' : e'.scheduler.Settled :=
    Scheduler.run_settled (run_scheduler (hrun.append hrun')) (Scheduler.init_settled hinit).1
  have hperm := hsettled'.partition.perm
  rw [hsettled'.queued_eq] at hperm
  have hline : e'.line = [] := by
    by_contra hsome
    obtain ⟨r, rest, hcons⟩ := List.exists_cons_of_ne_nil hsome
    have hhead : e'.line.head? = some r := by
      rw [hcons]
      rfl
    have hpos : 0 < e'.owed := backlog_pos hhead
      (run_covered_lt hinit (hrun.append hrun') (htame.append hadded) (List.mem_of_head? hhead))
    have howed : e.owed ≤ (e.scheduler.requests.map e.work).sum := by
      refine (backlog_le_sum ..).trans_eq ?_
      have hbefore := hsettled.partition.perm
      rw [hsettled.queued_eq] at hbefore
      exact (hbefore.map e.work).sum_eq.symm
    have hleft := hspent.resolve_left hsome
    omega
  rw [line] at hline
  rw [hline] at hperm
  exact hperm.eq_nil

end

/-! ### On a run -/

def answerEach (output : SchedulerOutput) : ModelRunnerOutput where
  reqIds := output.numScheduledTokens.keys
  reqIdToIndex := output.numScheduledTokens.keys.zipIdx.foldl
    (fun index entry => index.store entry.1 entry.2) .empty
  sampledTokenIds := output.numScheduledTokens.keys.map fun _ => [7]
  specTokenIds := none
  poolerOutput := none

def drive : ℕ → Scheduler Digest → Except PyError (Scheduler Digest × List Event)
  | 0, s => .ok (s, [])
  | k + 1, s => do
      let (output, s₁) ← s.schedule
      if Answers s₁ output (answerEach output) then
        let (outputs, s₂) ← s₁.updateFromOutput output (answerEach output)
        let (s', events) ← drive k s₂
        return (s', .schedule output :: .updateFromOutput output (answerEach output) outputs ::
          events)
      else
        .error (.assertionError "a result does not answer its step")

theorem drive_reaches {k : ℕ} {s s' : Scheduler Digest} {events : List Event}
    (h : drive k s = .ok (s', events)) :
    Run Step ⟨s, none⟩ events ⟨s', none⟩ ∧ (∀ event ∈ events, event.added = none) ∧
      events.countP Event.isSchedule = k := by
  induction k generalizing s events with
  | zero =>
      obtain ⟨rfl, rfl⟩ := Prod.mk.inj (Except.ok.inj h)
      exact ⟨.nil, fun _ hmem => absurd hmem List.not_mem_nil, rfl⟩
  | succ k ih =>
      unfold drive at h
      obtain ⟨⟨output, s₁⟩, hschedule, h⟩ := except_bind_iff.mp h
      dsimp only at h
      split at h
      · rename_i hanswers
        obtain ⟨⟨outputs, s₂⟩, hupdate, h⟩ := except_bind_iff.mp h
        obtain ⟨⟨s₃, rest⟩, hdrive, h⟩ := except_bind_iff.mp h
        obtain ⟨rfl, rfl⟩ := Prod.mk.inj (Except.ok.inj h)
        obtain ⟨hrun, hadded, hcount⟩ := ih hdrive
        have hfirst : Run Step ⟨s, none⟩ [.schedule output,
            .updateFromOutput output (answerEach output) outputs] ⟨s₂, none⟩ :=
          (Run.nil.snoc (.schedule hschedule)).snoc (.updateFromOutput hanswers hupdate)
        refine ⟨hfirst.append hrun, ?_, ?_⟩
        · rw [List.forall_mem_cons, List.forall_mem_cons]
          exact ⟨rfl, rfl, hadded⟩
        · rw [List.countP_cons_of_pos rfl, List.countP_cons_of_neg Bool.false_ne_true, hcount]
      · cases h

def pairRun (k : ℕ) : Except PyError (Scheduler Digest × Request Digest × Request Digest ×
    Scheduler Digest × List Event) := do
  let s₀ ← Scheduler.init (Scheduler.shortConfig .fcfs) (Scheduler.shortKVConfig 16) true
    Digest.hash 0 none
  let first ← Request.init (.text 7 [1, 2] 2)
  let second ← Request.init (.text 5 [3, 4] 2)
  let (s, events) ← drive k ((s₀.addRequest first).addRequest second)
  return (s₀, first, second, s, events)

theorem shortConfig_serves :
    (Scheduler.shortConfig .fcfs).Serves (Scheduler.shortKVConfig 16) where
  fcfs := rfl
  whole hnot := Bool.noConfusion hnot
  ample := by decide

theorem pairRun_reaches {k : ℕ} {s₀ s : Scheduler Digest} {first second : Request Digest}
    {events : List Event} (h : pairRun k = .ok (s₀, first, second, s, events)) :
    Scheduler.init (Scheduler.shortConfig .fcfs) (Scheduler.shortKVConfig 16) true Digest.hash 0
        none = .ok s₀ ∧
      Run Step ⟨s₀, none⟩ [.addRequest (.text 7 [1, 2] 2), .addRequest (.text 5 [3, 4] 2)]
        ⟨(s₀.addRequest first).addRequest second, none⟩ ∧
      Run Step ⟨(s₀.addRequest first).addRequest second, none⟩ events ⟨s, none⟩ ∧
      (∀ event ∈ events, event.added = none) ∧ events.countP Event.isSchedule = k ∧
      Tame 32 [.addRequest (.text 7 [1, 2] 2), .addRequest (.text 5 [3, 4] 2)] := by
  unfold pairRun at h
  obtain ⟨s₁, hinit, h⟩ := except_bind_iff.mp h
  obtain ⟨first', hfirst, h⟩ := except_bind_iff.mp h
  obtain ⟨second', hsecond, h⟩ := except_bind_iff.mp h
  obtain ⟨⟨s', events'⟩, hdrive, h⟩ := except_bind_iff.mp h
  cases h
  obtain ⟨hrun, hadded, hcount⟩ := drive_reaches hdrive
  have hnone := (Scheduler.init_settled hinit).2.1
  have hid := (Request.init_ok hfirst).1
  have hfresh : (RequestArgs.text 7 [1, 2] 2).requestId ∉ s₀.requests := by
    rw [hnone]
    exact List.not_mem_nil
  have hother : (RequestArgs.text 5 [3, 4] 2).requestId ∉ (s₀.addRequest first).requests := by
    rw [Scheduler.addRequest_eq]
    show _ ∉ EncoderCacheManager.insertNew s₀.requests first.requestId
    rw [hnone, hid]
    decide
  refine ⟨hinit, (Run.nil.snoc (.call (.addRequest hfirst hfresh) rfl)).snoc
    (.call (.addRequest hsecond hother) rfl), hrun, hadded, hcount,
    Tame.of_text fun args hmem => ?_⟩
  rcases List.mem_cons.mp hmem with heq | hmem
  · obtain rfl := Event.addRequest.inj heq
    exact ⟨7, [1, 2], 2, rfl, List.cons_ne_nil _ _, by decide, by decide⟩
  · obtain rfl := Event.addRequest.inj (List.mem_singleton.mp hmem)
    exact ⟨5, [3, 4], 2, rfl, List.cons_ne_nil _ _, by decide, by decide⟩

theorem run_head_served_pair : ∃ e : Engine Digest, e.scheduler.running = [7, 5] ∧
    e.HeadServed 7 := by
  obtain ⟨⟨s₀, first, second, s, events⟩, hrun, hcheck⟩ :=
    exists_of_okAnd (x := pairRun 1)
      (p := fun (_, _, _, s, _) => decide (s.running = [7, 5] ∧ s.requests = [7, 5]))
      (by decide +kernel)
  obtain ⟨hrunning, hrequests⟩ := of_decide_eq_true hcheck
  obtain ⟨hinit, hadds, hsteps, hadded, -, htame⟩ := pairRun_reaches hrun
  refine ⟨⟨s, none⟩, hrunning, ?_⟩
  refine run_head_served shortConfig_serves hinit (hadds.append hsteps) (htame.append hadded) rfl ?_
  rw [← run_line shortConfig_serves hinit (hadds.append hsteps) (htame.append hadded), line]
  show (s.running ++ _).head? = _
  rw [hrunning]
  rfl

theorem run_drained_pair : ∃ e e' : Engine Digest, e.scheduler.waiting.items = [7, 5] ∧
    e'.scheduler.requests = [] := by
  obtain ⟨⟨s₀, first, second, s, events⟩, hrun, hcheck⟩ :=
    exists_of_okAnd (x := pairRun 8)
      (p := fun (s₀, first, second, _, _) => decide
        (((s₀.addRequest first).addRequest second).waiting.items = [7, 5] ∧
          ((((s₀.addRequest first).addRequest second).requests.map
            (work ⟨(s₀.addRequest first).addRequest second, none⟩)).sum ≤ 8)))
      (by decide +kernel)
  obtain ⟨hwaiting, hwork⟩ := of_decide_eq_true hcheck
  obtain ⟨hinit, hadds, hsteps, hadded, hcount, htame⟩ := pairRun_reaches hrun
  exact ⟨⟨(s₀.addRequest first).addRequest second, none⟩, ⟨s, none⟩, hwaiting,
    run_drained shortConfig_serves hinit hadds htame hsteps hadded (hwork.trans hcount.ge)⟩

end Engine

end Pvllm
