import Pvllm.Core.Sched.Totality
import Pvllm.Core.Sched.PrefixClosure

/-!
Every allocation of a run is exact.

Wherever the loops of `schedule` ask for slots, what `allocate_slots` computes as
needed decides alone: it declines where that exceeds the free blocks and has then
changed nothing, and takes exactly that many where it does not.
-/

namespace Pvllm

variable {H : Type} [DecidableEq H]

namespace StepState

variable {s : Scheduler H} {l l' : StepState H} {r : RequestId} {n k : ℕ}
  {hits : Option (List (List BlockId))}

/-- The loops are at a call of `allocate_slots`: for a running request, or for the
request at the head of the queue with what was found of it. -/
inductive Asks (l : StepState H) : RequestId → ℕ → ℕ → Option (List (List BlockId)) → Prop
  | running {r : RequestId} {n : ℕ} (hphase : l.phase = .allocating r n) : Asks l r n 0 none
  | admission {r : RequestId} {hits : List (List BlockId)} {numLocal numExternal n : ℕ}
      {inputs : List ℕ} (hphase : l.phase = .admitting r hits numLocal numExternal n inputs) :
      Asks l r n (numLocal + numExternal) (some hits)

/-- A request never asks for slots past the window. -/
def Windowed (l : StepState H) : Prop :=
  ∀ r n, l.phase = .allocating r n →
    n + (l.scheduler.request r).numComputedTokens ≤ l.scheduler.config.maxModelLen

theorem Outcome.windowed (h : Outcome l l') (hl : l.Windowed) : l'.Windowed := by
  intro r n hnext
  cases h with
  | rest hphase => exact hl r n hnext
  | enter hphase =>
      dsimp only at hnext
      split at hnext <;> cases hnext
  | pass hphase hr =>
      rw [disableSpeculation_frame] at hnext
      dsimp only at hnext
      rw [hphase] at hnext
      cases hnext
  | takeUp hphase hr hn hbudget hspec hlen =>
      obtain ⟨rfl, rfl⟩ := Phase.allocating.inj hnext
      show _ + ((disableSpeculation l.scheduler _).request _).numComputedTokens ≤
        (disableSpeculation l.scheduler _).config.maxModelLen
      rw [disableSpeculation_numComputedTokens, disableSpeculation_frame]
      exact hlen
  | commit hphase hok => cases hnext
  | @preempt asking victim m _ _ _ _ _ _ _ _ _ _ hphase hok hvictim hstatus hfree hbatch hinputs =>
      dsimp only at hnext ⊢
      split at hnext
      · cases hnext
      · rename_i hne
        obtain ⟨rfl, rfl⟩ := Phase.allocating.inj hnext
        rw [Function.update_of_ne (Ne.symm hne)]
        exact hl _ _ hphase
  | close hphase hs => cases hnext
  | setAside hphase hs hfree hpop => cases hnext
  | lookUp hphase hs hpreempted hhits hexternal hrunning hn hbudget hlen => cases hnext
  | decline hphase hok => cases hnext
  | accept hphase hok hpop hstatus hconnector => cases hnext

section

variable (hready : s.Ready) (hloops : Loops (start s) l)

include hloops

theorem Loops.windowed : l.Windowed :=
  hloops.invariant (fun _ _ hnext => Phase.noConfusion hnext) fun _ _ hstep hl => hstep.windowed hl

include hready

/-- Where slots are asked for, the request fits, and what it asks for is in the window. -/
theorem Loops.asks_fitting (hasks : l.Asks r n k hits) :
    n ≠ 0 ∧ r ∈ s.requests ∧ l.scheduler.kvCacheManager.Fitting (l.scheduler.request r)
        ((l.scheduler.request r).numComputedTokens + k)
        (l.scheduler.kvCacheManager.perGroupCached hits) ∧
      (l.scheduler.request r).numComputedTokens + k + n ≤
        l.scheduler.kvCacheManager.maxModelLen := by
  have hb := Loops.batch hready.settled.partition hloops
  have hg := Loops.granting hready.settled.partition hloops
  have hp := Loops.pace hready.settled.partition hready.pace hloops
  have hlength : s.kvCacheManager.maxModelLen = l.scheduler.config.maxModelLen := by
    rw [hready.length, (Loops.static hloops).1]
    rfl
  rw [hg.continues.setup.maxModelLen, hlength, ← hg.requests]
  cases hasks with
  | running hphase =>
      obtain ⟨hn, -, htake, -⟩ := hb.allocating r n hphase
      have hwindow := hloops.windowed r n hphase
      refine ⟨hn.ne', hb.partition.known_of_running (List.mem_of_mem_take htake),
        hloops.fitting_allocating hready hphase, ?_⟩
      omega
  | @admission hits' numLocal numExternal _ inputs hphase =>
      obtain ⟨hn, hhead, -⟩ := hb.admitting _ _ _ _ _ _ hphase
      have hqueued : r ∈ l.scheduler.queued := List.mem_append_left _ (List.mem_of_head? hhead)
      have hknown := hb.partition.known_of_waiting hqueued
      have hasked := hp.admitting _ _ _ _ _ _ hphase
      have hwindow := hready.window r (hg.requests ▸ hknown)
      rw [← (hg.reworks r).numTokens_eq, hlength] at hwindow
      rw [(hb.partition.queued r hqueued).numComputedTokens]
      refine ⟨hn.ne', hknown, ?_, by omega⟩
      have hfitting := hloops.fitting_admitting hready hphase
      rwa [(hb.partition.queued r hqueued).numComputedTokens] at hfitting

/-- Every call of `allocate_slots` is exact. -/
theorem Loops.exact (hasks : l.Asks r n k hits) (hnodup : (s.request r).blockHashes.Nodup) :
    l.scheduler.kvCacheManager.Exact (l.scheduler.request r) n k hits := by
  have hb := Loops.batch hready.settled.partition hloops
  have hg := Loops.granting hready.settled.partition hloops
  obtain ⟨free, horder⟩ := hb.partition.order
  obtain ⟨hn, -, hfitting, hwindow⟩ := hloops.asks_fitting hready hasks
  refine hfitting.exact horder hn ?_ hwindow
  rwa [blockHashes_of_reworks (hg.reworks r)]

end

end StepState

omit [DecidableEq H] in
/-- Different contents have different hashes. -/
theorem Request.HashedAs.nodup {policy : Option (BlockHasher H)} {request : Request H}
    (h : request.HashedAs policy)
    (hinjective : ∀ hasher, policy = some hasher → Function.Injective hasher.hashFn) :
    request.blockHashes.Nodup := by
  cases policy with
  | none =>
      rw [h.2]
      exact List.nodup_nil
  | some hasher =>
      rw [h.blockHashes]
      exact (BlockHasher.chain_descends (hinjective hasher rfl) _).nodup

namespace Engine

variable {config : SchedulerConfig} {kvCacheConfig : KVCacheConfig} {enableCaching : Bool}
  {hashFn : HashInput H → H} {seed : ℕ} {s₀ : Scheduler H} {e : Engine H} {events : List Event}

/-- In every run of plain requests that fit the window, over whatever groups and under either
policy, every call of `allocate_slots` that `schedule` makes is exact. -/
theorem run_exact (hinjective : Function.Injective hashFn)
    (hinit : Scheduler.init config kvCacheConfig enableCaching hashFn seed none = .ok s₀)
    (hrun : Run Step ⟨s₀, none⟩ events e) (htame : Tame config.maxModelLen events)
    (hnone : e.inFlight = none) : ∀ l, StepState.Loops (StepState.start e.scheduler) l →
      ∀ r n k hits, l.Asks r n k hits →
        l.scheduler.kvCacheManager.Exact (l.scheduler.request r) n k hits := by
  intro l hloops r n k hits hasks
  have hready := run_ready hinit hrun htame hnone
  obtain ⟨hsettled, hstart, -⟩ := Scheduler.init_settled hinit
  obtain ⟨-, hknown, -⟩ := hloops.asks_fitting hready hasks
  refine hloops.exact hready hasks ((hready.hashed r hknown).nodup fun hasher hpolicy => ?_)
  obtain ⟨hhasher, -⟩ := Scheduler.run_hashedAs (run_scheduler hrun) hsettled hstart
  rw [hhasher] at hpolicy
  rw [Scheduler.init_hashFn hinit hpolicy]
  exact hinjective

/-- The loops up to the first allocation, for one request over three kinds of groups. -/
def windowAsk (prompt : List TokenId) : Except PyError (Scheduler Digest × Request Digest ×
    StepState Digest × StepState Digest) := do
  let s₀ ← Scheduler.init (Scheduler.shortConfig .fcfs) windowConfig true Digest.hash 0 none
  let request ← Request.init (.text 1 prompt 8)
  let l ← (StepState.start (s₀.addRequest request)).advance
  let l' ← l.advance
  return (s₀, request, l, l')

theorem run_exact_window : ∃ l : StepState Digest, l.Asks 1 7 0 (some [[], [], []]) ∧
    l.scheduler.kvCacheManager.charged (l.scheduler.request 1) 7 0 0 [[], [], []] = 12 ∧
    l.scheduler.kvCacheManager.Exact (l.scheduler.request 1) 7 0 (some [[], [], []]) := by
  obtain ⟨⟨s₀, request, l, l'⟩, hrun, hcheck⟩ :=
    exists_of_okAnd (x := windowAsk [1, 2, 3, 4, 5, 6, 7])
      (p := fun (_, _, _, l') => decide (l'.phase = .admitting 1 [[], [], []] 0 0 7 [] ∧
        l'.scheduler.kvCacheManager.charged (l'.scheduler.request 1) 7 0 0 [[], [], []] = 12))
      (by decide +kernel)
  obtain ⟨hphase, hcharged⟩ := of_decide_eq_true hcheck
  unfold windowAsk at hrun
  obtain ⟨_, hinit, hrun⟩ := except_bind_iff.mp hrun
  obtain ⟨_, hrequest, hrun⟩ := except_bind_iff.mp hrun
  obtain ⟨_, hfirst, hrun⟩ := except_bind_iff.mp hrun
  obtain ⟨_, hsecond, hrun⟩ := except_bind_iff.mp hrun
  cases hrun
  have hfresh : (RequestArgs.text 1 [1, 2, 3, 4, 5, 6, 7] 8).requestId ∉ s₀.requests := by
    rw [(Scheduler.init_settled hinit).2.1]
    exact List.not_mem_nil
  have hloops : StepState.Loops (StepState.start (s₀.addRequest request)) l' :=
    .tail (.single hfirst) hsecond
  refine ⟨l', .admission hphase, hcharged, ?_⟩
  refine run_exact Digest.hash_injective hinit
    (Run.nil.snoc (.call (.addRequest hrequest hfresh) rfl)) (Tame.of_text fun args hmem => ?_) rfl
    l' hloops 1 7 0 _ (.admission hphase)
  obtain rfl : args = .text 1 [1, 2, 3, 4, 5, 6, 7] 8 := by simpa using hmem
  exact ⟨1, _, 8, rfl, List.cons_ne_nil _ _, by decide, by decide⟩

end Engine

end Pvllm
