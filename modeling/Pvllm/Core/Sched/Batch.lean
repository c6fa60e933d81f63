import Pvllm.Core.Sched.Partition
import Pvllm.Core.Accounting

/-!
The batch being built.

`Batch` is the invariant of the loops of `schedule`: the maps a call fills in
are about the same requests, those of the batch are running and come before the
index the first loop stands at, and what was preempted waits. `Outcome.batch`
is the step lemma.
-/

namespace Pvllm

/-! ### Lists with an entry erased -/

section Lists

variable {α : Type*} {l : List α} {a b : α} {i : ℕ}

theorem not_mem_take_of_getElem? (hl : l.Nodup) (h : l[i]? = some a) : a ∉ l.take i := by
  intro hmem
  obtain ⟨j, hj⟩ := List.getElem?_of_mem hmem
  rw [List.getElem?_take] at hj
  split at hj
  · rename_i hlt
    have hi := (List.getElem?_eq_some_iff.mp h).1
    have heq := (List.getElem?_inj hi hl).mp (h.trans hj.symm)
    omega
  · cases hj

theorem mem_take_succ (h : l[i]? = some a) : a ∈ l.take (i + 1) := by
  rw [List.take_add_one, h]
  simp

theorem mem_take_mono {j : ℕ} (hij : i ≤ j) (h : a ∈ l.take i) : a ∈ l.take j :=
  (List.take_prefix_take_left hij).subset h

variable [DecidableEq α]

theorem mem_take_erase (h : a ∈ l.take i) (hne : a ≠ b) : a ∈ (l.erase b).take i := by
  induction l generalizing i with
  | nil => simp at h
  | cons c l ih =>
      cases i with
      | zero => simp at h
      | succ i =>
          rw [List.take_succ_cons, List.mem_cons] at h
          by_cases hc : c = b
          · subst hc
            rw [List.erase_cons_head]
            exact mem_take_mono (Nat.le_succ i) (h.resolve_left hne)
          · rw [List.erase_cons_tail (by simpa using hc), List.take_succ_cons, List.mem_cons]
            exact h.imp_right ih

theorem take_erase_of_mem (h : b ∈ l.take i) : (l.erase b).take (i - 1) = (l.take i).erase b := by
  induction l generalizing i with
  | nil => simp at h
  | cons c l ih =>
      cases i with
      | zero => simp at h
      | succ i =>
          rw [List.take_succ_cons, List.mem_cons] at h
          rw [List.take_succ_cons, Nat.add_sub_cancel]
          by_cases hc : c = b
          · subst hc
            rw [List.erase_cons_head, List.erase_cons_head]
          · have hmem := h.resolve_left (Ne.symm hc)
            have hi : i = i - 1 + 1 := by
              cases i with
              | zero => simp at hmem
              | succ i => rfl
            rw [List.erase_cons_tail (by simpa using hc), List.erase_cons_tail (by simpa using hc),
              ← ih hmem]
            conv_lhs => rw [hi, List.take_succ_cons]

theorem dropLast_eq_erase (hl : l.Nodup) (h : l.getLast? = some a) : l.dropLast = l.erase a := by
  have hsplit := List.dropLast_append_getLast? a h
  have hnot : a ∉ l.dropLast := by
    rw [← hsplit, List.nodup_append] at hl
    exact fun hmem => hl.2.2 a hmem a (List.mem_singleton_self a) rfl
  conv_rhs => rw [← hsplit]
  rw [List.erase_append_right _ hnot, List.erase_cons_head, List.append_nil]

end Lists

variable {H : Type} [DecidableEq H]

/-- The requests that wait, those set aside included. -/
def Scheduler.queued (s : Scheduler H) : List RequestId :=
  s.waiting.items ++ s.skippedWaiting.items

abbrev Scheduler.Partitioned (s : Scheduler H) : Prop :=
  Partition s.request s.kvCacheManager s.requests s.running s.queued

def Phase.overRunning : Phase → Bool
  | .running => true
  | .allocating _ _ => true
  | _ => false

def Phase.overWaiting : Phase → Bool
  | .admission => true
  | .admitting .. => true
  | _ => false

namespace StepState

def batch (l : StepState H) : List RequestId :=
  l.scheduledRunningReqs ++ (l.scheduledNewReqs ++ l.scheduledResumedReqs)

structure Batch (l : StepState H) : Prop where
  partition : l.scheduler.Partitioned
  nodup : l.batch.Nodup
  running : ∀ r ∈ l.batch, r ∈ l.scheduler.running
  keys : ∀ r, r ∈ l.numScheduledTokens.keys ↔ r ∈ l.batch
  blocks : ∀ r, r ∈ l.reqToNewBlocks.keys ↔ r ∈ l.batch
  pos : ∀ r n, l.numScheduledTokens.find r = some n → 0 < n
  preempted : ∀ r ∈ l.preemptedReqs, r ∈ l.scheduler.queued
  encoder : ∀ r ∈ l.scheduledEncoderInputs.keys, r ∈ l.batch ∨ ∃ n, l.phase = .allocating r n
  spec : ∀ r ∈ l.scheduledSpecDecodeTokens.keys, r ∈ l.batch ∨ r ∈ l.preemptedReqs
  first : l.phase.overRunning = true → l.scheduledNewReqs = [] ∧ l.scheduledResumedReqs = [] ∧
    ∀ r ∈ l.scheduledRunningReqs, r ∈ l.scheduler.running.take l.reqIndex
  allocating : ∀ r n, l.phase = .allocating r n → 0 < n ∧ r ∉ l.scheduledRunningReqs ∧
    r ∈ l.scheduler.running.take (l.reqIndex + 1) ∧
    (l.scheduler.config.policy = .fcfs → l.scheduler.running[l.reqIndex]? = some r)
  second : l.phase.overWaiting = true → l.preemptedReqs = []
  admitting : ∀ r hits numLocal numExternal n inputs,
    l.phase = .admitting r hits numLocal numExternal n inputs →
      0 < n ∧ l.scheduler.waiting.items.head? = some r ∧
        l.scheduler.kvCacheManager.Hits (l.scheduler.request r) hits

variable {l l' : StepState H}

/-! ### What the parts of a step do to the partition -/

theorem disableSpeculation_partition {s : Scheduler H} (h : s.Partitioned) (r : RequestId) :
    (disableSpeculation s r).Partitioned := by
  rcases disableSpeculation_eq s r with heq | heq
  · rwa [heq]
  · rw [heq]
    exact h.update_same _ rfl rfl rfl

/-- Preparing an admission moves no request and touches no table. -/
theorem Prepared.partition {s s' : Scheduler H} {r : RequestId} (hs : Prepared s s' r)
    (h : s.Partitioned) : s'.Partitioned := by
  obtain ⟨free, horder⟩ := h.order
  have hr : r ∈ s.queued := List.mem_append_left _ (List.mem_of_head? hs.head)
  have hmoved : Partition s'.request s.kvCacheManager s.requests s.running s.queued := by
    rcases hs.table with heq | ⟨-, status, hstatus, heq⟩
    · rwa [heq]
    · rw [heq]
      refine h.update_waiting hr (h.requestId r) ⟨?_, (h.queued r hr).numComputedTokens⟩
      exact hstatus.imp_right Or.inr
  rw [Scheduler.Partitioned, hs.frame]
  rcases hs.lookup with heq | ⟨result, hlookup⟩
  · dsimp only
    rwa [heq]
  · exact hmoved.manager_same (KVCacheManager.getComputedBlocks_getBlocks horder hlookup)
      ⟨free, (KVCacheManager.getComputedBlocks_inOrder horder hlookup).1⟩

theorem Prepared.running_eq {s s' : Scheduler H} {r : RequestId} (hs : Prepared s s' r) :
    s'.running = s.running := by
  rw [hs.frame]

theorem Prepared.queued_eq {s s' : Scheduler H} {r : RequestId} (hs : Prepared s s' r) :
    s'.queued = s.queued := by
  rw [hs.frame]
  rfl

/-- An allocation for a request keeps the manager in order and the tables of
the others as they are. -/
theorem allocateSlots_others {m m' : KVCacheManager H} {request : Request H}
    {n numNewComputedTokens : ℕ} {newComputedBlocks : Option (List (List BlockId))}
    {result : Option (List (List BlockId))} (horder : ∃ free, m.InOrder free)
    (hhits : ∀ hits, newComputedBlocks = some hits → m.Hits request hits)
    (hok : m.allocateSlots request n numNewComputedTokens newComputedBlocks 0 false =
      .ok (result, m')) :
    (∃ free, m'.InOrder free) ∧
      ∀ r, r ≠ request.requestId → m'.getBlocks r = m.getBlocks r := by
  obtain ⟨free, horder⟩ := horder
  rcases KVCacheManager.allocateSlots_ok horder (KVCacheManager.cachedBlocks_lt horder hhits) hok
    with ⟨-, rfl⟩ | ⟨_, free', _, _, -, halloc⟩
  · exact ⟨⟨free, horder⟩, fun _ _ => rfl⟩
  · exact ⟨⟨free', halloc.order⟩, fun r hr => halloc.getBlocks_of_ne hr⟩

/-! ### What a step does to the batch -/

theorem Batch.not_allocating (hb : Batch l)
    (hphase : l.phase.overWaiting = true ∨ l.phase = .running)
    {r : RequestId} (hr : r ∈ l.scheduledEncoderInputs.keys) : r ∈ l.batch := by
  rcases hb.encoder r hr with hmem | ⟨n, halloc⟩
  · exact hmem
  · rw [halloc] at hphase
    simp [Phase.overWaiting] at hphase

/-- The request the first loop stands at is not in the batch. -/
theorem Batch.at_index (hb : Batch l) (hphase : l.phase.overRunning = true) {r : RequestId}
    (hr : l.scheduler.running[l.reqIndex]? = some r) : r ∉ l.scheduledRunningReqs :=
  fun hmem => not_mem_take_of_getElem? hb.partition.running_nodup hr ((hb.first hphase).2.2 r hmem)

theorem Batch.batch_eq (hb : Batch l) (hphase : l.phase.overRunning = true) :
    l.batch = l.scheduledRunningReqs := by
  obtain ⟨hnew, hresumed, -⟩ := hb.first hphase
  rw [batch, hnew, hresumed]
  simp

theorem batch_takeUp {r : RequestId} {n : ℕ} {inputs : List ℕ} {cache : EncoderCacheManager}
    {budget : ℕ} (hb : Batch l) (hphase : l.phase = .running)
    (hr : l.scheduler.running[l.reqIndex]? = some r) (hn : 0 < n) :
    Batch { l with
      scheduler := { disableSpeculation l.scheduler r with encoderCacheManager := cache }
      encoderBudget := budget
      scheduledEncoderInputs :=
        if inputs = [] then l.scheduledEncoderInputs
        else l.scheduledEncoderInputs.store r inputs
      phase := .allocating r n } := by
  have hover : l.phase.overRunning = true := by rw [hphase]; rfl
  have hpart := disableSpeculation_partition hb.partition r
  rw [disableSpeculation_frame] at hpart ⊢
  exact {
    partition := hpart
    nodup := hb.nodup
    running := hb.running
    keys := hb.keys
    blocks := hb.blocks
    pos := hb.pos
    preempted := hb.preempted
    encoder := by
      intro r' hr'
      dsimp only at hr'
      split at hr'
      · exact Or.inl (hb.not_allocating (Or.inr hphase) hr')
      · rcases (Dict.mem_keys_store ..).mp hr' with rfl | hr'
        · exact Or.inr ⟨n, rfl⟩
        · exact Or.inl (hb.not_allocating (Or.inr hphase) hr')
    spec := hb.spec
    first := fun _ => hb.first hover
    allocating := by
      intro r' n' heq
      obtain ⟨rfl, rfl⟩ := Phase.allocating.inj heq
      exact ⟨hn, hb.at_index hover hr, mem_take_succ hr, fun _ => hr⟩
    second := nofun
    admitting := nofun }

omit [DecidableEq H] in
theorem commitRunning_request (l : StepState H) (r : RequestId) (n : ℕ)
    (blocks : List (List BlockId)) (kv : KVCacheManager H) :
    (l.commitRunning r n blocks kv).scheduler = { l.scheduler with
      kvCacheManager := kv
      request := Function.update l.scheduler.request r
        ((l.scheduler.request r).withSpecTokenIds []) } := by
  unfold commitRunning
  dsimp only
  split
  · rename_i hnone
    have hsame : (l.scheduler.request r).withSpecTokenIds [] = l.scheduler.request r := by
      rw [Request.withSpecTokenIds, ← hnone]
    rw [hsame, Function.update_eq_self]
  · rfl

theorem batch_commit {r : RequestId} {n : ℕ} {blocks : List (List BlockId)} {kv : KVCacheManager H}
    (hb : Batch l) (hphase : l.phase = .allocating r n)
    (hok : l.scheduler.kvCacheManager.allocateSlots (l.scheduler.request r) n 0 none 0 false =
      .ok (some blocks, kv)) : Batch (l.commitRunning r n blocks kv) := by
  have hover : l.phase.overRunning = true := by rw [hphase]; rfl
  obtain ⟨hn, hnot, htake, -⟩ := hb.allocating r n hphase
  obtain ⟨hnew, hresumed, hbefore⟩ := hb.first hover
  have hr : r ∈ l.scheduler.running := List.mem_of_mem_take htake
  obtain ⟨horder, hother⟩ := allocateSlots_others hb.partition.order (fun _ h => by cases h) hok
  rw [hb.partition.requestId] at hother
  have hpart := (hb.partition.manager_running hr hother horder).update_same (r := r)
    ((l.scheduler.request r).withSpecTokenIds []) rfl rfl rfl
  have hbatch : (l.commitRunning r n blocks kv).batch = l.batch ++ [r] := by
    rw [hb.batch_eq hover]
    simp [batch, commitRunning, hnew, hresumed]
  have hmem : ∀ r', r' ∈ (l.commitRunning r n blocks kv).batch ↔ r' = r ∨ r' ∈ l.batch := by
    intro r'
    rw [hbatch, List.mem_append, List.mem_singleton, or_comm]
  have hsched := commitRunning_request l r n blocks kv
  have hrunning : (l.commitRunning r n blocks kv).scheduler.running = l.scheduler.running := by
    rw [hsched]
  exact {
    partition := by
      rw [hsched]
      exact hpart
    nodup := by
      rw [hbatch, List.nodup_append]
      refine ⟨hb.nodup, by simp, fun a ha b hbr => ?_⟩
      rw [List.mem_singleton.mp hbr]
      rintro rfl
      rw [hb.batch_eq hover] at ha
      exact hnot ha
    running := by
      intro r' hr'
      rw [hrunning]
      rcases (hmem r').mp hr' with rfl | hr'
      · exact hr
      · exact hb.running r' hr'
    keys := fun r' => by
      rw [hmem, ← hb.keys]
      exact Dict.mem_keys_store ..
    blocks := fun r' => by
      rw [hmem, ← hb.blocks]
      exact Dict.mem_keys_store ..
    pos := by
      intro r' n' hfind
      change (l.numScheduledTokens.store r n).find r' = some n' at hfind
      rw [Dict.find_store] at hfind
      split at hfind
      · exact Option.some.inj hfind ▸ hn
      · exact hb.pos r' n' hfind
    preempted := by
      intro r' hr'
      rw [hsched]
      exact hb.preempted r' hr'
    encoder := by
      intro r' hr'
      rw [hmem]
      rcases hb.encoder r' hr' with hbatch | ⟨n', halloc⟩
      · exact Or.inl (Or.inr hbatch)
      · rw [hphase] at halloc
        exact Or.inl (Or.inl (Phase.allocating.inj halloc).1.symm)
    spec := by
      intro r' hr'
      rw [hmem]
      change r' ∈ Dict.keys (if _ then l.scheduledSpecDecodeTokens.store r _ else
        l.scheduledSpecDecodeTokens) at hr'
      split at hr'
      · rcases (Dict.mem_keys_store ..).mp hr' with rfl | hr'
        · exact Or.inl (Or.inl rfl)
        · exact (hb.spec r' hr').imp_left Or.inr
      · exact (hb.spec r' hr').imp_left Or.inr
    first := by
      intro _
      -- the index moves on, past the request that was committed
      refine ⟨hnew, hresumed, fun r' hr' => ?_⟩
      rw [hrunning]
      rcases List.mem_append.mp hr' with hr' | hr'
      · exact mem_take_mono (Nat.le_succ _) (hbefore r' hr')
      · rw [List.mem_singleton.mp hr']
        exact htake
    allocating := by
      intro r' n' heq
      cases heq
    second := by
      intro heq
      cases heq
    admitting := by
      intro r' hits a b n' inputs heq
      cases heq }

/-- What becomes of the batch when a victim is preempted: nothing where it is not
in it, and else it leaves, with its share. -/
structure Drops (l : StepState H) (victim : RequestId) (inBatch : List RequestId)
    (blocks : Dict RequestId (List (List BlockId))) (scheduled : Dict RequestId ℕ)
    (reqIndex : ℕ) : Prop where
  mem : ∀ r, r ∈ inBatch ↔ r ≠ victim ∧ r ∈ l.scheduledRunningReqs
  nodup : inBatch.Nodup
  blocks : ∀ r, r ∈ blocks.keys ↔ r ≠ victim ∧ r ∈ l.reqToNewBlocks.keys
  keys : ∀ r, r ∈ scheduled.keys ↔ r ≠ victim ∧ r ∈ l.numScheduledTokens.keys
  find : ∀ r, r ≠ victim → scheduled.find r = l.numScheduledTokens.find r
  take : ∀ r, r ≠ victim → r ∈ l.scheduler.running.take l.reqIndex →
    r ∈ (l.scheduler.running.erase victim).take reqIndex
  take_succ : ∀ r, r ≠ victim → r ∈ l.scheduler.running.take (l.reqIndex + 1) →
    r ∈ (l.scheduler.running.erase victim).take (reqIndex + 1)

/-- Under the fcfs policy the victim is the last request, and the batch ends before. -/
theorem Batch.fcfs_victim (hb : Batch l) {r victim : RequestId} {n : ℕ}
    (hphase : l.phase = .allocating r n) (hvictim : l.scheduler.selectVictim = .ok victim)
    (hfcfs : l.scheduler.config.policy = .fcfs) : victim ∉ l.scheduledRunningReqs := by
  intro hmem
  obtain ⟨-, -, hbefore⟩ := hb.first (by rw [hphase]; rfl)
  obtain ⟨-, -, -, hindex⟩ := hb.allocating r n hphase
  have hlt := (List.getElem?_eq_some_iff.mp (hindex hfcfs)).1
  have hlast := (selectVictim_mem hvictim).2 hfcfs
  rw [List.getLast?_eq_getElem?] at hlast
  refine not_mem_take_of_getElem? hb.partition.running_nodup hlast
    (mem_take_mono ?_ (hbefore victim hmem))
  omega

theorem Batch.drops (hb : Batch l) {r victim : RequestId} {n : ℕ} {inBatch : List RequestId}
    {blocks : Dict RequestId (List (List BlockId))} {scheduled : Dict RequestId ℕ}
    {tokenBudget reqIndex : ℕ} (hphase : l.phase = .allocating r n)
    (hvictim : l.scheduler.selectVictim = .ok victim)
    (hbatch : (l.scheduler.config.policy = .fcfs ∨ victim ∉ l.scheduledRunningReqs) ∧
        inBatch = l.scheduledRunningReqs ∧ blocks = l.reqToNewBlocks ∧
        scheduled = l.numScheduledTokens ∧ tokenBudget = l.tokenBudget ∧
        reqIndex = l.reqIndex ∨
      l.scheduler.config.policy = .priority ∧ victim ∈ l.scheduledRunningReqs ∧
        inBatch = l.scheduledRunningReqs.erase victim ∧
        blocks = l.reqToNewBlocks.delete victim ∧
        scheduled = l.numScheduledTokens.delete victim ∧
        (∃ m, l.numScheduledTokens.find victim = some m ∧ tokenBudget = l.tokenBudget + m) ∧
        reqIndex = l.reqIndex - 1) :
    Drops l victim inBatch blocks scheduled reqIndex := by
  have hover : l.phase.overRunning = true := by rw [hphase]; rfl
  have hnodup : l.scheduledRunningReqs.Nodup := by
    rw [← hb.batch_eq hover]
    exact hb.nodup
  obtain ⟨-, -, hbefore⟩ := hb.first hover
  rcases hbatch with ⟨hout, rfl, rfl, rfl, -, rfl⟩ | ⟨-, hin, rfl, rfl, rfl, -, rfl⟩
  · have hnot : victim ∉ l.scheduledRunningReqs := by
      rcases hout with hfcfs | hout
      · exact hb.fcfs_victim hphase hvictim hfcfs
      · exact hout
    have hne : ∀ r, r ∈ l.scheduledRunningReqs → r ≠ victim := fun r hr e => hnot (e ▸ hr)
    refine ⟨fun r => ⟨fun hr => ⟨hne r hr, hr⟩, And.right⟩, hnodup, fun r => ?_, fun r => ?_,
      fun _ _ => rfl, fun r hr hmem => mem_take_erase hmem hr,
      fun r hr hmem => mem_take_erase hmem hr⟩
    · rw [hb.blocks, hb.batch_eq hover]
      exact ⟨fun hr => ⟨hne r hr, hr⟩, And.right⟩
    · rw [hb.keys, hb.batch_eq hover]
      exact ⟨fun hr => ⟨hne r hr, hr⟩, And.right⟩
  · have htake := hbefore victim hin
    have hpos : l.reqIndex - 1 + 1 = l.reqIndex := by
      cases hzero : l.reqIndex with
      | zero => rw [hzero] at htake; simp at htake
      | succ k => rfl
    refine ⟨fun r => hnodup.mem_erase_iff, hnodup.erase victim, fun r => Dict.mem_keys_delete ..,
      fun r => Dict.mem_keys_delete .., fun r hr => ?_, fun r hr hmem => ?_, fun r hr hmem => ?_⟩
    · rw [Dict.find_delete, if_neg hr]
    · rw [take_erase_of_mem htake]
      exact (List.mem_erase_of_ne hr).mpr hmem
    · have herase := take_erase_of_mem (mem_take_mono (Nat.le_succ l.reqIndex) htake)
      rw [Nat.succ_sub_one] at herase
      rw [hpos, herase]
      exact (List.mem_erase_of_ne hr).mpr hmem

theorem partition_preempt {s : Scheduler H} {victim : RequestId} {kv : KVCacheManager H}
    (h : s.Partitioned) (hvictim : s.selectVictim = .ok victim)
    (hfree : s.kvCacheManager.free victim = .ok kv) :
    Partition (Function.update s.request victim (s.request victim).preempted) kv s.requests
      (s.running.erase victim)
      ((s.waiting.prependRequest (Function.update s.request victim (s.request victim).preempted)
        victim).items ++ s.skippedWaiting.items) := by
  have hmem := (selectVictim_mem hvictim).1
  have hmoved := (h.congr_perm (List.perm_cons_erase hmem) (List.Perm.refl _)).preempt
    (s.request victim).preempted (h.requestId victim)
    ⟨Or.inr (Or.inr rfl), rfl⟩ hfree
  refine hmoved.congr_perm (List.Perm.refl _) ?_
  exact ((RequestQueue.prependRequest_perm ..).append_right _).symm

omit [DecidableEq H] in
/-- The running list is the old one without the victim. -/
theorem dropVictim_eq {s : Scheduler H} (hnodup : s.running.Nodup) {victim : RequestId}
    (hvictim : s.selectVictim = .ok victim) :
    (if s.config.policy = .fcfs then s.running.dropLast else s.running.erase victim) =
      s.running.erase victim := by
  split
  · rename_i hpolicy
    exact dropLast_eq_erase hnodup ((selectVictim_mem hvictim).2 hpolicy)
  · rfl

theorem batch_preempt {r victim : RequestId} {n : ℕ} {kv : KVCacheManager H}
    {inBatch : List RequestId} {blocks : Dict RequestId (List (List BlockId))}
    {scheduled : Dict RequestId ℕ} {cache : EncoderCacheManager}
    {encoderBudget tokenBudget reqIndex : ℕ} {loras : List ℕ}
    (hb : Batch l) (hphase : l.phase = .allocating r n)
    (hvictim : l.scheduler.selectVictim = .ok victim)
    (hfree : l.scheduler.kvCacheManager.free victim = .ok kv)
    (hdrops : Drops l victim inBatch blocks scheduled reqIndex)
    (hfcfs : l.scheduler.config.policy = .fcfs → reqIndex = l.reqIndex) :
    Batch { l with
      scheduler := { l.scheduler with
        kvCacheManager := kv
        request := Function.update l.scheduler.request victim
          (l.scheduler.request victim).preempted
        running := l.scheduler.running.erase victim
        waiting := l.scheduler.waiting.prependRequest
          (Function.update l.scheduler.request victim (l.scheduler.request victim).preempted)
          victim
        numPreemptionsTotal := l.scheduler.numPreemptionsTotal + 1
        encoderCacheManager := cache }
      scheduledRunningReqs := inBatch
      preemptedReqs := l.preemptedReqs ++ [victim]
      reqToNewBlocks := blocks
      numScheduledTokens := scheduled
      scheduledEncoderInputs := l.scheduledEncoderInputs.delete victim
      encoderBudget := encoderBudget
      tokenBudget := tokenBudget
      reqIndex := reqIndex
      scheduledLoras := loras
      phase := if victim = r then .finished else .allocating r n } := by
  have hover : l.phase.overRunning = true := by rw [hphase]; rfl
  obtain ⟨hnew, hresumed, hbefore⟩ := hb.first hover
  obtain ⟨hn, hnot, htake, hindex⟩ := hb.allocating r n hphase
  have hqueued : ∀ r', r' = victim ∨ r' ∈ l.scheduler.queued →
      r' ∈ (l.scheduler.waiting.prependRequest (Function.update l.scheduler.request victim
        (l.scheduler.request victim).preempted) victim).items ++
          l.scheduler.skippedWaiting.items := by
    intro r' hr'
    have hperm := (RequestQueue.prependRequest_perm (Function.update l.scheduler.request victim
      (l.scheduler.request victim).preempted) l.scheduler.waiting victim).append_right
        l.scheduler.skippedWaiting.items
    exact hperm.mem_iff.mpr (List.mem_cons.mpr hr')
  have hbatch : ∀ r', r' ∈ inBatch ++ (l.scheduledNewReqs ++ l.scheduledResumedReqs) ↔
      r' ≠ victim ∧ r' ∈ l.batch := by
    intro r'
    rw [hb.batch_eq hover, hnew, hresumed, List.append_nil, List.append_nil]
    exact hdrops.mem r'
  exact {
    partition := partition_preempt hb.partition hvictim hfree
    nodup := by
      change (inBatch ++ (l.scheduledNewReqs ++ l.scheduledResumedReqs)).Nodup
      rw [hnew, hresumed, List.append_nil, List.append_nil]
      exact hdrops.nodup
    running := by
      intro r' hr'
      obtain ⟨hne, hr'⟩ := (hbatch r').mp hr'
      exact (List.mem_erase_of_ne hne).mpr (hb.running r' hr')
    keys := fun r' => by
      refine (hdrops.keys r').trans ?_
      rw [hb.keys]
      exact (hbatch r').symm
    blocks := fun r' => by
      refine (hdrops.blocks r').trans ?_
      rw [hb.blocks]
      exact (hbatch r').symm
    pos := by
      intro r' n' hfind
      have hmem : r' ∈ scheduled.keys := (Dict.mem_keys_iff ..).mpr ⟨n', hfind⟩
      exact hb.pos r' n' ((hdrops.find r' ((hdrops.keys r').mp hmem).1).symm.trans hfind)
    preempted := by
      intro r' hr'
      refine hqueued r' ?_
      rcases List.mem_append.mp hr' with hr' | hr'
      · exact Or.inr (hb.preempted r' hr')
      · exact Or.inl (List.mem_singleton.mp hr')
    encoder := by
      intro r' hr'
      obtain ⟨hne, hr'⟩ := (Dict.mem_keys_delete ..).mp hr'
      rcases hb.encoder r' hr' with hmem | ⟨n', halloc⟩
      · exact Or.inl ((hbatch r').mpr ⟨hne, hmem⟩)
      · rw [hphase] at halloc
        obtain ⟨rfl, rfl⟩ := Phase.allocating.inj halloc
        exact Or.inr ⟨n, if_neg (Ne.symm hne)⟩
    spec := by
      intro r' hr'
      rcases hb.spec r' hr' with hmem | hmem
      · by_cases hne : r' = victim
        · exact Or.inr (List.mem_append_right _ (List.mem_singleton.mpr hne))
        · exact Or.inl ((hbatch r').mpr ⟨hne, hmem⟩)
      · exact Or.inr (List.mem_append_left _ hmem)
    first := by
      intro _
      refine ⟨hnew, hresumed, fun r' hr' => ?_⟩
      obtain ⟨hne, hr'⟩ := (hdrops.mem r').mp hr'
      exact hdrops.take r' hne (hbefore r' hr')
    allocating := by
      intro r' n' heq
      dsimp only at heq
      split at heq
      · cases heq
      rename_i hself
      obtain ⟨rfl, rfl⟩ := Phase.allocating.inj heq
      refine ⟨hn, fun hmem => hnot ((hdrops.mem r).mp hmem).2,
        hdrops.take_succ r (Ne.symm hself) htake, fun hpolicy => ?_⟩
      -- the last is dropped, and `r` is not the last
      have hat := hindex hpolicy
      have hlast := (selectVictim_mem hvictim).2 hpolicy
      dsimp only
      rw [hfcfs hpolicy, ← dropLast_eq_erase hb.partition.running_nodup hlast,
        List.getElem?_dropLast, if_pos, hat]
      have hlt := (List.getElem?_eq_some_iff.mp hat).1
      rw [List.getLast?_eq_getElem?] at hlast
      have hneq : l.reqIndex ≠ l.scheduler.running.length - 1 := by
        intro heq
        rw [← heq, hat] at hlast
        exact hself (Option.some.inj hlast).symm
      omega
    second := by
      intro hsecond
      dsimp only at hsecond
      split at hsecond
      · cases hsecond
      · cases hsecond
    admitting := by
      intro r' hits a b n' inputs heq
      dsimp only at heq
      split at heq
      · cases heq
      · cases heq }

theorem Batch.reschedule (hb : Batch l) (hphase : l.phase.overWaiting = true) {s : Scheduler H}
    {inputs : Dict RequestId (List ℕ)} {budget : ℕ} {phase : Phase} (hpart : s.Partitioned)
    (hrunning : s.running = l.scheduler.running)
    (hqueued : ∀ r ∈ l.scheduler.queued, r ∈ s.queued)
    (hinputs : ∀ r ∈ inputs.keys, r ∈ l.scheduledEncoderInputs.keys)
    (hnext : phase.overRunning = false)
    (hadmitting : ∀ r hits numLocal numExternal n inputs,
      phase = .admitting r hits numLocal numExternal n inputs →
        0 < n ∧ s.waiting.items.head? = some r ∧ s.kvCacheManager.Hits (s.request r) hits) :
    Batch { l with
      scheduler := s
      scheduledEncoderInputs := inputs
      encoderBudget := budget
      phase := phase } where
  partition := hpart
  nodup := hb.nodup
  running r hr := by
    rw [hrunning]
    exact hb.running r hr
  keys := hb.keys
  blocks := hb.blocks
  pos := hb.pos
  preempted r hr := hqueued r (hb.preempted r hr)
  encoder r hr := Or.inl (hb.not_allocating (Or.inl hphase) (hinputs r hr))
  spec := hb.spec
  first hover := by
    rw [hnext] at hover
    cases hover
  allocating r n heq := by
    dsimp only at heq
    rw [heq] at hnext
    cases hnext
  second _ := hb.second hphase
  admitting := hadmitting

/-- Setting a request aside moves it from one queue to the other. -/
theorem setAside_partition {s : Scheduler H} {r : RequestId} {kv : KVCacheManager H}
    {waiting : RequestQueue} (h : s.Partitioned)
    (hfree : kv = s.kvCacheManager ∨ s.kvCacheManager.free r = .ok kv)
    (hpop : s.waiting.popRequest = .ok (r, waiting)) :
    s.queued.Perm (waiting.items ++ (s.skippedWaiting.addRequest s.request r).items) ∧
      Partition s.request kv s.requests s.running
        (waiting.items ++ (s.skippedWaiting.addRequest s.request r).items) := by
  have hperm : s.queued.Perm
      (waiting.items ++ (s.skippedWaiting.addRequest s.request r).items) := by
    rw [Scheduler.queued, RequestQueue.popRequest_eq_ok hpop, List.cons_append]
    exact List.perm_middle.symm.trans
      ((RequestQueue.addRequest_perm s.request s.skippedWaiting r).symm.append_left _)
  refine ⟨hperm, (?_ : Partition s.request kv s.requests s.running s.queued).congr_perm
    (List.Perm.refl _) hperm⟩
  rcases hfree with rfl | hfree
  · exact h
  obtain ⟨free, horder⟩ := h.order
  obtain ⟨free', horder', -⟩ := KVCacheManager.free_inOrder horder hfree
  have hidle : s.kvCacheManager.Idle r := by
    refine h.idle r (h.not_running_of_waiting (List.mem_append_left _ ?_))
    rw [RequestQueue.popRequest_eq_ok hpop]
    exact List.mem_cons_self
  refine { h with idle := fun r' hr' => ?_, order := ⟨free', horder'⟩ }
  by_cases heq : r' = r
  · subst heq
    exact KVCacheManager.free_idle horder hfree
  · exact (h.idle r' hr').of_getBlocks_eq (KVCacheManager.free_getBlocks_of_ne horder hfree heq)

theorem batch_accept {r r' : RequestId} {hits blocks : List (List BlockId)}
    {numLocal numExternal n : ℕ} {inputs : List ℕ} {kv : KVCacheManager H} {waiting : RequestQueue}
    {connector : Option (SimSharedStoreConnector H)} {loras : List ℕ} (hb : Batch l)
    (hphase : l.phase = .admitting r hits numLocal numExternal n inputs)
    (hok : l.scheduler.kvCacheManager.allocateSlots (l.scheduler.request r) n
      (numLocal + numExternal) (some hits) 0 false = .ok (some blocks, kv))
    (hpop : l.scheduler.waiting.popRequest = .ok (r', waiting)) :
    r' = r ∧ Batch { l with
      scheduler := { l.scheduler with
        kvCacheManager := kv
        request := Function.update l.scheduler.request r'
          ((l.scheduler.request r').admitted (numLocal + numExternal) numLocal)
        running := l.scheduler.running ++ [r']
        waiting := waiting
        pendingScheduled := l.scheduler.pendingScheduled ++ [r']
        connector := connector }
      scheduledNewReqs := if (l.scheduler.request r').status = .waiting
        then l.scheduledNewReqs ++ [r'] else l.scheduledNewReqs
      scheduledResumedReqs := if (l.scheduler.request r').status = .waiting
        then l.scheduledResumedReqs else l.scheduledResumedReqs ++ [r']
      reqToNewBlocks := l.reqToNewBlocks.store r' (kv.getBlocks r')
      numScheduledTokens := l.numScheduledTokens.store r' n
      scheduledEncoderInputs := if inputs = [] then l.scheduledEncoderInputs
        else l.scheduledEncoderInputs.store r' inputs
      tokenBudget := l.tokenBudget - n
      scheduledLoras := loras
      phase := .admission } := by
  have hover : l.phase.overWaiting = true := by rw [hphase]; rfl
  obtain ⟨hn, hhead, hhits⟩ := hb.admitting r hits numLocal numExternal n inputs hphase
  obtain rfl := RequestQueue.head_of_pop hhead hpop
  have hqueued : l.scheduler.queued =
      r' :: (waiting.items ++ l.scheduler.skippedWaiting.items) := by
    rw [Scheduler.queued, RequestQueue.popRequest_eq_ok hpop, List.cons_append]
  have hpart := hb.partition
  rw [Scheduler.Partitioned, hqueued] at hpart
  have hout : r' ∉ l.scheduler.running := hpart.not_running_of_waiting List.mem_cons_self
  obtain ⟨horder, hother⟩ := allocateSlots_others hpart.order
    (fun hits' heq => Option.some.inj heq ▸ hhits) hok
  rw [hpart.requestId] at hother
  -- the batch has one more request, among the new or among the resumed
  have hbatch : (l.scheduledRunningReqs ++
      ((if (l.scheduler.request r').status = .waiting then l.scheduledNewReqs ++ [r']
        else l.scheduledNewReqs) ++
      (if (l.scheduler.request r').status = .waiting then l.scheduledResumedReqs
        else l.scheduledResumedReqs ++ [r']))).Perm (r' :: l.batch) := by
    have hend : (l.batch ++ [r']).Perm (r' :: l.batch) := List.perm_append_singleton r' l.batch
    split
    · refine List.Perm.trans ?_ hend
      rw [batch, List.append_assoc, List.append_assoc]
      refine List.Perm.append_left _ ?_
      rw [List.append_assoc]
      exact List.perm_append_comm.append_left _
    · rw [← List.append_assoc l.scheduledNewReqs, ← List.append_assoc]
      exact hend
  have hnot : r' ∉ l.batch := fun hmem => hout (hb.running r' hmem)
  refine ⟨rfl, ?_⟩
  exact {
    partition := hpart.accept ((l.scheduler.request r').admitted
      (numLocal + numExternal) numLocal) (hpart.requestId r') rfl hother horder
    nodup := hbatch.nodup_iff.mpr (List.nodup_cons.mpr ⟨hnot, hb.nodup⟩)
    running := by
      intro r hr
      rw [List.mem_append, List.mem_singleton]
      rcases List.mem_cons.mp (hbatch.mem_iff.mp hr) with rfl | hr
      · exact Or.inr rfl
      · exact Or.inl (hb.running r hr)
    keys := fun r => by
      refine (Dict.mem_keys_store ..).trans ?_
      rw [hb.keys, ← List.mem_cons]
      exact hbatch.mem_iff.symm
    blocks := fun r => by
      refine (Dict.mem_keys_store ..).trans ?_
      rw [hb.blocks, ← List.mem_cons]
      exact hbatch.mem_iff.symm
    pos := by
      intro r m hfind
      rw [Dict.find_store] at hfind
      split at hfind
      · exact Option.some.inj hfind ▸ hn
      · exact hb.pos r m hfind
    preempted := by
      intro r hr
      dsimp only at hr
      rw [hb.second hover] at hr
      cases hr
    encoder := by
      intro r hr
      refine Or.inl (hbatch.mem_iff.mpr (List.mem_cons.mpr ?_))
      dsimp only at hr
      split at hr
      · exact Or.inr (hb.not_allocating (Or.inl hover) hr)
      · rcases (Dict.mem_keys_store ..).mp hr with rfl | hr
        · exact Or.inl rfl
        · exact Or.inr (hb.not_allocating (Or.inl hover) hr)
    spec := by
      intro r hr
      rcases hb.spec r hr with hmem | hmem
      · exact Or.inl (hbatch.mem_iff.mpr (List.mem_cons_of_mem _ hmem))
      · exact Or.inr hmem
    first := nofun
    allocating := nofun
    second := fun _ => hb.second hover
    admitting := nofun }

/-- Every step keeps the batch in order. -/
theorem Outcome.batch (h : Outcome l l') (hb : Batch l) : Batch l' := by
  cases h with
  | rest hfinished => exact hb
  | enter hrunning =>
      have hencoder : ∀ r ∈ l.scheduledEncoderInputs.keys, r ∈ l.batch := fun r hr =>
        hb.not_allocating (Or.inr hrunning) hr
      have hnext : ∀ p : Prop, [Decidable p] →
          (if p then Phase.admission else .finished) = .admission ∧ p ∨
            (if p then Phase.admission else .finished) = .finished := by
        intro p _
        split
        · rename_i hp
          exact Or.inl ⟨rfl, hp⟩
        · exact Or.inr rfl
      -- after a preemption nobody is admitted in this call
      rcases hnext (l.preemptedReqs = []) with ⟨hphase, hnone⟩ | hphase
      · rw [hphase]
        exact { hb with
          encoder := fun r hr => Or.inl (hencoder r hr)
          first := nofun
          allocating := nofun
          second := fun _ => hnone
          admitting := nofun }
      · rw [hphase]
        exact { hb with
          encoder := fun r hr => Or.inl (hencoder r hr)
          first := nofun
          allocating := nofun
          second := nofun
          admitting := nofun }
  | @pass r cache budget hrunning hr =>
      have hover : l.phase.overRunning = true := by rw [hrunning]; rfl
      have hpart := disableSpeculation_partition hb.partition r
      rw [disableSpeculation_frame] at hpart ⊢
      obtain ⟨hnew, hresumed, hbefore⟩ := hb.first hover
      exact {
        partition := hpart
        nodup := hb.nodup
        running := hb.running
        keys := hb.keys
        blocks := hb.blocks
        pos := hb.pos
        preempted := hb.preempted
        encoder := fun r' hr' => Or.inl (hb.not_allocating (Or.inr hrunning) hr')
        spec := hb.spec
        first := fun _ => ⟨hnew, hresumed, fun r' hr' =>
          mem_take_mono (Nat.le_succ _) (hbefore r' hr')⟩
        allocating := by
          intro r' n heq
          dsimp only at heq
          rw [hrunning] at heq
          cases heq
        second := by
          intro hsecond
          dsimp only at hsecond
          rw [hrunning] at hsecond
          cases hsecond
        admitting := by
          intro r' hits a b n inputs heq
          dsimp only at heq
          rw [hrunning] at heq
          cases heq }
  | takeUp hrunning hr hn hbudget hspec hlen => exact batch_takeUp hb hrunning hr hn
  | commit hallocating hok => exact batch_commit hb hallocating hok
  | @preempt r victim n kv inBatch blocks scheduled inputs cache encoderBudget tokenBudget reqIndex
      loras hallocating hok hvictim hstatus hfree hbatch hinputs =>
      subst hinputs
      rw [dropVictim_eq hb.partition.running_nodup hvictim]
      refine batch_preempt hb hallocating hvictim hfree (hb.drops hallocating hvictim hbatch) ?_
      intro hfcfs
      rcases hbatch with hout | hin
      · exact hout.2.2.2.2.2
      · rw [hfcfs] at hin
        cases hin.1
  | close hadmission hs =>
      have hover : l.phase.overWaiting = true := by rw [hadmission]; rfl
      rcases hs with rfl | ⟨r, hs⟩
      · exact hb.reschedule hover hb.partition rfl (fun _ h => h) (fun _ h => h) rfl nofun
      · exact hb.reschedule hover (hs.partition hb.partition) hs.running_eq
          (fun r' hr' => hs.queued_eq ▸ hr') (fun _ h => h) rfl nofun
  | @setAside s r kv waiting budget hadmission hs hfree hpop =>
      have hover : l.phase.overWaiting = true := by rw [hadmission]; rfl
      obtain ⟨hperm, hpart⟩ := setAside_partition (hs.partition hb.partition) hfree hpop
      exact hb.reschedule (s := { s with
        kvCacheManager := kv
        waiting := waiting
        skippedWaiting := s.skippedWaiting.addRequest s.request r }) hover hpart hs.running_eq
        (fun r' hr' => hperm.mem_iff.mp (hs.queued_eq ▸ hr')) (fun _ h => h) rfl nofun
  | @lookUp s r hits numLocal numExternal n inputs budget hadmission hs hpreempted hhits hexternal
      hrunning hn hbudget hlen =>
      have hover : l.phase.overWaiting = true := by rw [hadmission]; rfl
      refine hb.reschedule hover (hs.partition hb.partition) hs.running_eq
        (fun r' hr' => hs.queued_eq ▸ hr') (fun _ h => h) rfl ?_
      intro r' hits' a b n' inputs' heq
      obtain ⟨rfl, rfl, -, -, rfl, -⟩ := Phase.admitting.inj heq
      obtain ⟨free, horder⟩ := hb.partition.order
      obtain ⟨-, hpool, hmanagers, hcached⟩ := KVCacheManager.getComputedBlocks_ok horder hhits
      refine ⟨hn, hs.head_eq, ?_⟩
      unfold KVCacheManager.Hits at hcached ⊢
      rwa [hpool, hmanagers]
  | @decline r hits numLocal numExternal n inputs cache budget hadmitting hok =>
      have hover : l.phase.overWaiting = true := by rw [hadmitting]; rfl
      exact hb.reschedule (s := { l.scheduler with encoderCacheManager := cache }) hover
        hb.partition rfl (fun _ h => h) (fun r' hr' => ((Dict.mem_keys_delete ..).mp hr').2) rfl
        nofun
  | accept hadmitting hok hpop hstatus hconnector =>
      exact (batch_accept hb hadmitting hok hpop).2

/-- What no step of the loops changes. -/
theorem Outcome.static (h : Outcome l l') : l'.scheduler.config = l.scheduler.config ∧
    l'.scheduler.requests = l.scheduler.requests ∧
    l'.scheduler.finishedReqIds = l.scheduler.finishedReqIds := by
  cases h with
  | rest hfinished => exact ⟨rfl, rfl, rfl⟩
  | enter hrunning => exact ⟨rfl, rfl, rfl⟩
  | pass hrunning hr =>
      rw [disableSpeculation_frame]
      exact ⟨rfl, rfl, rfl⟩
  | takeUp hrunning hr hn hbudget hspec hlen =>
      rw [disableSpeculation_frame]
      exact ⟨rfl, rfl, rfl⟩
  | commit hallocating hok =>
      rw [commitRunning_request]
      exact ⟨rfl, rfl, rfl⟩
  | preempt hallocating hok hvictim hstatus hfree hbatch hinputs => exact ⟨rfl, rfl, rfl⟩
  | close hadmission hs =>
      rcases hs with rfl | ⟨r, hs⟩
      · exact ⟨rfl, rfl, rfl⟩
      · rw [hs.frame]
        exact ⟨rfl, rfl, rfl⟩
  | setAside hadmission hs hfree hpop =>
      rw [hs.frame]
      exact ⟨rfl, rfl, rfl⟩
  | lookUp hadmission hs hpreempted hhits hexternal hrunning hn hbudget hlen =>
      rw [hs.frame]
      exact ⟨rfl, rfl, rfl⟩
  | decline hadmitting hok => exact ⟨rfl, rfl, rfl⟩
  | accept hadmitting hok hpop hstatus hconnector => exact ⟨rfl, rfl, rfl⟩

/-- At the start of a call nothing is in the batch. -/
theorem batch_start {s : Scheduler H} (h : s.Partitioned) : Batch (start s) where
  partition := h
  nodup := List.nodup_nil
  running := nofun
  keys _ := Iff.rfl
  blocks _ := Iff.rfl
  pos _ _ hfind := by cases hfind
  preempted := nofun
  encoder := nofun
  spec := nofun
  first _ := ⟨rfl, rfl, nofun⟩
  allocating := nofun
  second := nofun
  admitting := nofun

/-- The batch is in order at every point of a call. -/
theorem Loops.batch {s : Scheduler H} (h : s.Partitioned) (hloops : Loops (start s) l) : Batch l :=
  hloops.invariant (batch_start h) fun _ _ hstep hb => hstep.batch hb

theorem Loops.static (hloops : Loops l l') : l'.scheduler.config = l.scheduler.config ∧
    l'.scheduler.requests = l.scheduler.requests ∧
    l'.scheduler.finishedReqIds = l.scheduler.finishedReqIds := by
  refine hloops.invariant (P := fun l' => l'.scheduler.config = l.scheduler.config ∧
    l'.scheduler.requests = l.scheduler.requests ∧
    l'.scheduler.finishedReqIds = l.scheduler.finishedReqIds) ⟨rfl, rfl, rfl⟩ ?_
  intro l₁ l₂ hstep ⟨hconfig, hrequests, hfinished⟩
  obtain ⟨hconfig', hrequests', hfinished'⟩ := hstep.static
  exact ⟨hconfig'.trans hconfig, hrequests'.trans hrequests, hfinished'.trans hfinished⟩

end StepState

end Pvllm
