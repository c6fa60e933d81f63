import Pvllm.Core.Sched.Contents
import Pvllm.Core.Sched.CommonPrefix
import Pvllm.Core.Sched.Ledger
import Pvllm.Core.Sched.Retained
import Pvllm.Core.Sched.Totality

/-!
The memory under the cache, over runs of the engine.

`schedule` publishes the full blocks of a request when it gives it slots, before the step that
fills them has run. A `Machine` is the engine with the memory of its device: a step that is
handed to the worker writes the slots of the positions it schedules. Through the loops of a call
the slots are read as they will be once the batch so far has run, and a point of the loops is
`Truthful` where these readings are what the tables and the hashes take them for. What would
spoil it is a victim that is preempted out of the batch: its blocks stay published, and nothing
writes them. `Recalls` is the point of the loops where that happens; under fcfs there is none.
-/

namespace Pvllm

variable {H : Type} [DecidableEq H]

open KVCacheManager (Continues Faithful Gives Grows Rewrites)
open UpdateState (generatedFor)

abbrev KVMemory : Type := BlockId → ℕ → Option KVEntry

/-! ### The loops of `schedule` -/

namespace StepState

variable {s : Scheduler H} {l l' : StepState H} {memory : KVMemory} {blockSize : ℕ}
  {policy : Option (BlockHasher H)}

/-- A victim is about to be preempted that is in the batch. -/
def Recalls (l : StepState H) : Prop :=
  ∃ r n kv victim, l.phase = .allocating r n ∧
    l.scheduler.kvCacheManager.allocateSlots (l.scheduler.request r) n 0 none 0 false =
      .ok (none, kv) ∧
    l.scheduler.selectVictim = .ok victim ∧ victim ∈ l.batch

omit [DecidableEq H] in
/-- How far a running request is computed once the batch so far has run. -/
def covered (l : StepState H) (r : RequestId) : ℕ :=
  if r ∈ l.scheduler.running then
    (l.scheduler.request r).numComputedTokens + (l.numScheduledTokens.find r).getD 0
  else 0

omit [DecidableEq H] in
/-- What a position of a request stands for, behind whose tokens the drafts of the batch come. -/
def entry (l : StepState H) (blockSize : ℕ) (r : RequestId) (position : ℕ) : KVEntry :=
  (l.scheduler.request r).kvEntry (l.scheduledSpecDecodeTokens.findD r []) blockSize position

omit [DecidableEq H] in
/-- The batch so far writes an entry into a slot. -/
def Writes (l : StepState H) (blockSize : ℕ) (b : BlockId) (offset : ℕ) (e : KVEntry) : Prop :=
  ∃ r n, l.numScheduledTokens.find r = some n ∧
    ∃ table ∈ l.scheduler.kvCacheManager.getBlocks r, ∃ i : ℕ, table[i]? = some b ∧
      offset < blockSize ∧ (l.scheduler.request r).numComputedTokens ≤ i * blockSize + offset ∧
      i * blockSize + offset < (l.scheduler.request r).numComputedTokens + n ∧
      e = l.entry blockSize r (i * blockSize + offset)

omit [DecidableEq H] in
/-- What a slot reads once the batch so far has run. -/
def Reads (l : StepState H) (memory : KVMemory) (blockSize : ℕ) (b : BlockId) (offset : ℕ)
    (e : KVEntry) : Prop :=
  l.Writes blockSize b offset e ∨
    (∀ e', ¬ l.Writes blockSize b offset e') ∧ memory b offset = some e

omit [DecidableEq H] in
/-- The slots read what the tables and the hashes take them for. -/
def Truthful (memory : KVMemory) (blockSize : ℕ) (policy : Option (BlockHasher H))
    (l : StepState H) : Prop :=
  Faithful blockSize policy (l.Reads memory blockSize) (l.entry blockSize) l.covered
    l.scheduler.kvCacheManager

/-- A step that leaves the batch, its tables and its drafts, though the requests that are gone
lose their tables. -/
structure Steadies (gone : RequestId → Prop) (l l' : StepState H) : Prop where
  gives : Gives gone l.scheduler.kvCacheManager l'.scheduler.kvCacheManager
  scheduled : ∀ r, ¬ gone r → l'.numScheduledTokens.find r = l.numScheduledTokens.find r
  idle : ∀ r, gone r → l.numScheduledTokens.find r = none ∧ l'.numScheduledTokens.find r = none
  spec : l'.scheduledSpecDecodeTokens = l.scheduledSpecDecodeTokens
  running : ∀ r, r ∈ l'.scheduler.running ↔ r ∈ l.scheduler.running ∧ ¬ gone r
  counts : ∀ r ∈ l.scheduler.running, ¬ gone r →
    (l'.scheduler.request r).numComputedTokens = (l.scheduler.request r).numComputedTokens
  blocks : ∀ r ∈ l.scheduler.running, ¬ gone r →
    l'.scheduler.kvCacheManager.getBlocks r = l.scheduler.kvCacheManager.getBlocks r

namespace Steadies

variable {gone : RequestId → Prop}

omit [DecidableEq H] in
theorem entry_eq (h : Steadies gone l l')
    (hreworks : ∀ r, (l.scheduler.request r).Reworks (l'.scheduler.request r)) :
    l'.entry blockSize = l.entry blockSize := by
  funext r position
  unfold entry
  rw [h.spec, Request.kvEntry_reworks (hreworks r)]

theorem writes_iff (h : Steadies gone l l') (hb : Batch l)
    (hreworks : ∀ r, (l.scheduler.request r).Reworks (l'.scheduler.request r))
    (b : BlockId) (offset : ℕ) (e : KVEntry) :
    l'.Writes blockSize b offset e ↔ l.Writes blockSize b offset e := by
  unfold Writes
  rw [h.entry_eq hreworks]
  refine exists_congr fun r => exists_congr fun n => ?_
  by_cases hr : gone r
  · rw [(h.idle r hr).1, (h.idle r hr).2]
    simp
  · rw [h.scheduled r hr]
    refine and_congr_right fun hfind => ?_
    have hrunning : r ∈ l.scheduler.running :=
      hb.running r ((hb.keys r).mp ((Dict.mem_keys_iff ..).mpr ⟨n, hfind⟩))
    rw [h.counts r hrunning hr, h.blocks r hrunning hr]

theorem reads_eq (h : Steadies gone l l') (hb : Batch l)
    (hreworks : ∀ r, (l.scheduler.request r).Reworks (l'.scheduler.request r)) :
    l'.Reads memory blockSize = l.Reads memory blockSize := by
  funext b offset e
  unfold Reads
  simp only [h.writes_iff hb hreworks]

theorem truthful (h : Steadies gone l l') (hb : Batch l)
    (hreworks : ∀ r, (l.scheduler.request r).Reworks (l'.scheduler.request r))
    (htruthful : l.Truthful memory blockSize policy) :
    l'.Truthful memory blockSize policy := by
  obtain ⟨free, horder⟩ := hb.partition.order
  unfold Truthful
  rw [h.reads_eq hb hreworks, h.entry_eq hreworks]
  refine Faithful.gives htruthful horder h.gives (fun r hr => ?_) fun r hr => ?_
  · exact if_neg fun hmem => ((h.running r).mp hmem).2 hr
  · unfold covered
    rw [h.scheduled r hr]
    by_cases hmem : r ∈ l.scheduler.running
    · rw [if_pos hmem, if_pos ((h.running r).mpr ⟨hmem, hr⟩), h.counts r hmem hr]
    · rw [if_neg hmem, if_neg fun hnow => hmem ((h.running r).mp hnow).1]

end Steadies

/-! ### A request joins the batch -/

/-- A request is given slots for `n` tokens from `start` on, and joins the batch. -/
structure Joins (blockSize : ℕ) (r : RequestId) (start n : ℕ) (l l' : StepState H) : Prop where
  outside : l.numScheduledTokens.find r = none
  scheduled : ∀ r', l'.numScheduledTokens.find r' =
    if r' = r then some n else l.numScheduledTokens.find r'
  count : (l'.scheduler.request r).numComputedTokens = start
  counts : ∀ r', r' ≠ r → (l'.scheduler.request r').numComputedTokens =
    (l.scheduler.request r').numComputedTokens
  spec : ∀ r', r' ≠ r → l'.scheduledSpecDecodeTokens.findD r' [] =
    l.scheduledSpecDecodeTokens.findD r' []
  blocks : ∀ r', r' ≠ r → l'.scheduler.kvCacheManager.getBlocks r' =
    l.scheduler.kvCacheManager.getBlocks r'
  running : r ∈ l'.scheduler.running
  others : ∀ r', r' ≠ r → (r' ∈ l'.scheduler.running ↔ r' ∈ l.scheduler.running)
  known : l.covered r ≤ (l.scheduler.request r).numTokens
  requestId : (l.scheduler.request r).requestId = r
  grows : ∃ news mid, Grows l.scheduler.kvCacheManager l'.scheduler.kvCacheManager
    (l.scheduler.request r) start n blockSize l.covered news mid

namespace Joins

variable {r : RequestId} {start n : ℕ}

omit [DecidableEq H] in
theorem covered_eq (h : Joins blockSize r start n l l') :
    l'.covered = Function.update l.covered r (start + n) := by
  funext r'
  unfold covered
  by_cases hr : r' = r
  · subst hr
    rw [Function.update_self, if_pos h.running, h.scheduled, if_pos rfl, h.count,
      Option.getD_some]
  · rw [Function.update_of_ne hr, h.scheduled, if_neg hr, h.counts r' hr]
    simp only [h.others r' hr]

omit [DecidableEq H] in
theorem entry_eq (h : Joins blockSize r start n l l')
    (hreworks : ∀ r, (l.scheduler.request r).Reworks (l'.scheduler.request r))
    {r' : RequestId} (hr : r' ≠ r) : l'.entry blockSize r' = l.entry blockSize r' := by
  funext position
  unfold entry
  rw [h.spec r' hr, Request.kvEntry_reworks (hreworks r')]

omit [DecidableEq H] in
theorem writes_others (h : Joins blockSize r start n l l')
    (hreworks : ∀ r, (l.scheduler.request r).Reworks (l'.scheduler.request r))
    {b : BlockId} {offset : ℕ} {e : KVEntry} :
    l'.Writes blockSize b offset e ↔ l.Writes blockSize b offset e ∨
      ∃ table ∈ l'.scheduler.kvCacheManager.getBlocks r, ∃ i : ℕ, table[i]? = some b ∧
        offset < blockSize ∧ start ≤ i * blockSize + offset ∧
        i * blockSize + offset < start + n ∧ e = l'.entry blockSize r (i * blockSize + offset) := by
  constructor
  · rintro ⟨r', n', hfind, hrest⟩
    rw [h.scheduled] at hfind
    split at hfind
    · rename_i hr
      subst hr
      obtain rfl := Option.some.inj hfind
      rw [h.count] at hrest
      exact Or.inr hrest
    · rename_i hr
      rw [h.counts r' hr, h.blocks r' hr, h.entry_eq hreworks hr] at hrest
      exact Or.inl ⟨r', n', hfind, hrest⟩
  · rintro (⟨r', n', hfind, hrest⟩ | hrest)
    · have hr : r' ≠ r := by
        rintro rfl
        rw [h.outside] at hfind
        cases hfind
      refine ⟨r', n', by rw [h.scheduled, if_neg hr, hfind], ?_⟩
      rwa [h.counts r' hr, h.blocks r' hr, h.entry_eq hreworks hr]
    · refine ⟨r, n, by rw [h.scheduled, if_pos rfl], ?_⟩
      rwa [h.count]

omit [DecidableEq H] in
theorem rewrites (h : Joins blockSize r start n l l')
    (hreworks : ∀ r, (l.scheduler.request r).Reworks (l'.scheduler.request r)) :
    Rewrites l'.scheduler.kvCacheManager r start n blockSize (l'.entry blockSize)
      (l.Reads memory blockSize) (l'.Reads memory blockSize) where
  keeps b offset e hread hoffset hclear := by
    rcases hread with hwrites | ⟨hnone, hmemory⟩
    · exact Or.inl ((h.writes_others hreworks).mpr (Or.inl hwrites))
    · refine Or.inr ⟨fun e' hwrites => ?_, hmemory⟩
      rcases (h.writes_others hreworks).mp hwrites with hbefore | ⟨table, htable, i, hb, -, hge, -⟩
      · exact hnone e' hbefore
      · obtain ⟨manager, hm, rfl⟩ := List.mem_map.mp htable
        have hlt := hclear manager hm i hb
        omega
  writes manager hm i b hb offset hoffset hge hlt :=
    Or.inl ((h.writes_others hreworks).mpr (Or.inr ⟨_, List.mem_map_of_mem hm, i, hb, hoffset, hge,
      hlt, rfl⟩))

theorem truthful (h : Joins blockSize r start n l l') (hblockSize : 0 < blockSize)
    (hreworks : ∀ r, (l.scheduler.request r).Reworks (l'.scheduler.request r))
    (horder : ∃ free, l'.scheduler.kvCacheManager.InOrder free)
    (hpolicy : ∀ hasher, policy = some hasher →
      Function.Injective hasher.hashFn ∧ hasher.blockSize = blockSize)
    (hhashed : (l.scheduler.request r).HashedAs policy)
    (htruthful : l.Truthful memory blockSize policy) :
    l'.Truthful memory blockSize policy := by
  obtain ⟨free, horder⟩ := horder
  obtain ⟨news, mid, hgrows⟩ := h.grows
  have hknown : ∀ position < (l.scheduler.request r).numTokens, l'.entry blockSize r position =
      (l.scheduler.request r).kvEntry [] blockSize position := by
    intro position hposition
    unfold entry
    rw [Request.kvEntry_reworks (hreworks r), Request.kvEntry_known hposition]
  have hfirst : Faithful blockSize policy (l.Reads memory blockSize) (l'.entry blockSize) l.covered
      l.scheduler.kvCacheManager := by
    refine Faithful.recount htruthful (fun _ => le_rfl) (fun r' position hposition => ?_)
      htruthful.below
    by_cases hr : r' = r
    · subst hr
      have hlt := Nat.lt_of_lt_of_le hposition h.known
      exact (hknown position hlt).trans (Request.kvEntry_known hlt).symm
    · rw [h.entry_eq hreworks hr]
  have hrewrites : Rewrites l'.scheduler.kvCacheManager r start n blockSize (l'.entry blockSize)
      (l.Reads memory blockSize) (l'.Reads memory blockSize) := h.rewrites hreworks
  have hsecond := hfirst.grows hgrows hblockSize horder.null_unhashed hpolicy hhashed
    (h.requestId.symm ▸ hknown) (h.requestId.symm ▸ hrewrites)
  unfold Truthful
  rw [h.covered_eq]
  rwa [h.requestId] at hsecond

end Joins

/-- What a call goes by: its requests are hashed under the one policy, without collisions, and
nothing comes from outside. -/
structure Governed (s : Scheduler H) (blockSize : ℕ) (policy : Option (BlockHasher H)) :
    Prop where
  partition : s.Partitioned
  marked : s.Hashmarked
  hasher : s.kvCacheManager.blockHasher = policy
  hashed : ∀ r ∈ s.requests, (s.request r).HashedAs policy
  sound : ∀ hasher, policy = some hasher →
    Function.Injective hasher.hashFn ∧ hasher.blockSize = blockSize
  pos : 0 < blockSize
  size : s.kvCacheManager.kvCacheConfig.blockSize = blockSize
  pace : Pace s (start s)
  connector : s.connector = none

section Call

variable (hs : Governed s blockSize policy) (hloops : Loops (start s) l)

include hs hloops

theorem Loops.sameHashes (r : RequestId) :
    (s.request (l.scheduler.request r).requestId).blockHashes =
      (l.scheduler.request r).blockHashes := by
  have hg := hloops.granting hs.partition
  rw [hg.batch.partition.requestId]
  exact (blockHashes_of_reworks (hg.reworks r)).symm

theorem Loops.hashedAs {r : RequestId} (hr : r ∈ l.scheduler.requests) :
    (l.scheduler.request r).HashedAs policy := by
  have hg := hloops.granting hs.partition
  have hhashed := hs.hashed r (hg.requests ▸ hr)
  rw [(hg.reworks r).eq]
  exact (Request.HashedAs.lasting policy).stands hhashed rfl

/-- A running request that is given slots joins the batch. -/
theorem Loops.joins {r : RequestId} {n : ℕ} {blocks : List (List BlockId)}
    {kv : KVCacheManager H} (hphase : l.phase = .allocating r n)
    (hok : l.scheduler.kvCacheManager.allocateSlots (l.scheduler.request r) n 0 none 0 false =
      .ok (some blocks, kv)) :
    Joins blockSize r (l.scheduler.request r).numComputedTokens n l
      (l.commitRunning r n blocks kv) := by
  have hg := hloops.granting hs.partition
  have hb := hg.batch
  have horder := hb.partition.order
  have hover : l.phase.overRunning = true := by rw [hphase]; rfl
  obtain ⟨hn, hnot, htake, -⟩ := hb.allocating r n hphase
  have hrunning := List.mem_of_mem_take htake
  have hout : r ∉ l.batch := by rwa [hb.batch_eq hover]
  have hnone : l.numScheduledTokens.find r = none := by
    rwa [Dict.find_eq_none_iff, hb.keys]
  -- it has no tokens in the batch, so it is covered as far as it is computed
  have hcovered : l.covered r = (l.scheduler.request r).numComputedTokens := by
    rw [covered, if_pos hrunning, hnone, Option.getD_none, Nat.add_zero]
  obtain ⟨-, htables⟩ := allocateSlots_others horder (fun _ heq => by cases heq) hok
  rw [hb.partition.requestId] at htables
  have hrequest : (l.commitRunning r n blocks kv).scheduler.request = Function.update
      l.scheduler.request r ((l.scheduler.request r).withSpecTokenIds []) := by
    rw [commitRunning_request]
  constructor
  case outside => exact hnone
  case scheduled => exact fun r' => Dict.find_store ..
  case count =>
    rw [hrequest, Function.update_self]
    rfl
  case counts =>
    intro r' hr
    rw [hrequest, Function.update_of_ne hr]
  case spec =>
    intro r' hr
    unfold commitRunning
    dsimp only
    split
    · rw [Dict.findD, Dict.find_store_of_ne _ _ hr, Dict.findD]
    · rfl
  case blocks =>
    intro r' hr
    rw [commitRunning_request]
    exact htables r' hr
  case running => rwa [commitRunning_running]
  case others =>
    intro r' hr
    rw [commitRunning_running]
  case known =>
    rw [hcovered]
    exact ((Loops.pace hs.partition hs.pace hloops).steady r hrunning hout).behind.le
  case requestId => exact hb.partition.requestId r
  case grows =>
    obtain ⟨free, horder⟩ := horder
    rw [commitRunning_request]
    refine KVCacheManager.allocateSlots_grows horder (hloops.marks hs.partition hs.marked)
      (hloops.sameHashes hs r) (hg.continues.setup.kvCacheConfig ▸ hs.size) ?_ hok
    rw [hb.partition.requestId, hcovered]

omit hs in
theorem Loops.unaided (hconnector : s.connector = none) : Unconnected l :=
  hloops.invariant ⟨hconnector, fun _ _ _ _ _ _ hnext => Phase.noConfusion hnext⟩
    fun _ _ hstep hl => hstep.unconnected hl

theorem Loops.lookedUp {r : RequestId} {hits : List (List BlockId)} {numLocal numExternal n : ℕ}
    {inputs : List ℕ} (hphase : l.phase = .admitting r hits numLocal numExternal n inputs) :
    l.scheduler.kvCacheManager.FoundBlocks (numLocal / blockSize) hits ∧ blockSize ∣ numLocal ∧
      l.scheduler.kvCacheManager.Filled hits := by
  have hg := hloops.granting hs.partition
  obtain ⟨-, hhead, -⟩ := hg.batch.admitting r hits numLocal numExternal n inputs hphase
  have hqueued : r ∈ l.scheduler.queued := List.mem_append_left _ (List.mem_of_head? hhead)
  have hrequest := hloops.hashedAs hs (hg.batch.partition.known_of_waiting hqueued)
  obtain ⟨m, hbefore, hlookup⟩ := hg.found r hits numLocal numExternal n inputs hphase
  obtain ⟨free, horder⟩ := hbefore.order
  obtain ⟨hsetup, hpool, hmanagers, -⟩ := KVCacheManager.getComputedBlocks_ok horder hlookup
  have hpolicy : (l.scheduler.request r).HashedAs m.blockHasher := by
    rwa [hbefore.setup.blockHasher, hs.hasher]
  obtain ⟨hits', k, m', hfound, -, hdvd, hshaped⟩ :=
    KVCacheManager.getComputedBlocks_shaped horder (KVCacheManager.hashes_reach hpolicy)
  rw [hlookup] at hfound
  obtain ⟨⟨rfl, rfl⟩, rfl⟩ := Prod.mk.inj (Except.ok.inj hfound) |>.imp Prod.mk.inj id
  have hsize : m.kvCacheConfig.blockSize = blockSize := by
    rw [hbefore.setup.kvCacheConfig, hs.size]
  rw [← hpool, ← hmanagers, hsize] at hshaped
  exact ⟨hshaped, hsize ▸ hdvd, KVCacheManager.getComputedBlocks_filled horder hlookup⟩

/-- A request that is let in joins the batch behind its hits. -/
theorem Loops.admits {l' : StepState H} {r r' : RequestId} {hits blocks : List (List BlockId)}
    {numLocal numExternal n : ℕ} {inputs : List ℕ} {kv : KVCacheManager H} {waiting : RequestQueue}
    (hphase : l.phase = .admitting r hits numLocal numExternal n inputs)
    (hok : l.scheduler.kvCacheManager.allocateSlots (l.scheduler.request r) n
      (numLocal + numExternal) (some hits) 0 false = .ok (some blocks, kv))
    (hpop : l.scheduler.waiting.popRequest = .ok (r', waiting))
    (hscheduled : l'.numScheduledTokens = l.numScheduledTokens.store r' n)
    (hspec : l'.scheduledSpecDecodeTokens = l.scheduledSpecDecodeTokens)
    (hkv : l'.scheduler.kvCacheManager = kv)
    (hrunning : l'.scheduler.running = l.scheduler.running ++ [r'])
    (hrequest : ∃ cached, l'.scheduler.request = Function.update l.scheduler.request r'
      ((l.scheduler.request r').admitted (numLocal + numExternal) cached)) :
    Joins blockSize r numLocal n l l' := by
  have hg := hloops.granting hs.partition
  have hb := hg.batch
  have horder := hb.partition.order
  obtain rfl := (hloops.unaided hs.connector).external r hits numLocal numExternal n inputs hphase
  obtain ⟨hn, hhead, hhits⟩ := hb.admitting r hits numLocal 0 n inputs hphase
  obtain rfl := RequestQueue.head_of_pop hhead hpop
  obtain ⟨cached, hrequest⟩ := hrequest
  have hqueued : r' ∈ l.scheduler.queued := List.mem_append_left _ (List.mem_of_mem_head? hhead)
  have hwaits := hb.partition.not_running_of_waiting hqueued
  have hnone : l.numScheduledTokens.find r' = none := by
    rw [Dict.find_eq_none_iff, hb.keys]
    exact fun hmem => hwaits (hb.running r' hmem)
  obtain ⟨-, htables⟩ := allocateSlots_others horder
    (fun _ heq => Option.some.inj heq ▸ hhits) hok
  rw [hb.partition.requestId] at htables
  obtain ⟨hfound, hdvd, hfilled⟩ := hloops.lookedUp hs hphase
  constructor
  case outside => exact hnone
  case scheduled =>
    intro r''
    rw [hscheduled]
    exact Dict.find_store ..
  case count =>
    rw [hrequest, Function.update_self]
    rfl
  case counts =>
    intro r'' hr
    rw [hrequest, Function.update_of_ne hr]
  case spec =>
    intro r'' hr
    rw [hspec]
  case blocks =>
    intro r'' hr
    rw [hkv]
    exact htables r'' hr
  case running =>
    rw [hrunning]
    exact List.mem_append_right _ (List.mem_singleton_self _)
  case others =>
    intro r'' hr
    rw [hrunning, List.mem_append, List.mem_singleton, or_iff_left hr]
  case known =>
    rw [covered, if_neg hwaits]
    exact Nat.zero_le _
  case requestId => exact hb.partition.requestId r'
  -- the hits begin the table, and what is handed out anew follows them
  case grows =>
    obtain ⟨free, horder⟩ := horder
    obtain ⟨k, rfl⟩ := hdvd
    rw [Nat.mul_div_cancel_left k hs.pos] at hfound
    rw [hkv, Nat.mul_comm]
    rw [Nat.add_zero, Nat.mul_comm] at hok
    refine KVCacheManager.allocateSlots_grows_admitted horder (hloops.marks hs.partition hs.marked)
      (hloops.sameHashes hs r') (hg.continues.setup.kvCacheConfig ▸ hs.size) ?_ hhits hfound
      hfilled (hb.partition.queued r' hqueued).numComputedTokens hok
    rw [hb.partition.requestId]
    exact hb.partition.idle r' hwaits

end Call

/-! ### A whole call -/

theorem Prepared.kvCacheManager_eq {s s' : Scheduler H} {r : RequestId} (h : Prepared s s' r)
    (horder : ∃ free, s.kvCacheManager.InOrder free) :
    s'.kvCacheManager.blockPool = s.kvCacheManager.blockPool ∧
      s'.kvCacheManager.singleTypeManagers = s.kvCacheManager.singleTypeManagers ∧
      s'.kvCacheManager.maxModelLen = s.kvCacheManager.maxModelLen := by
  obtain ⟨free, horder⟩ := horder
  rcases h.lookup with heq | ⟨⟨hits, k⟩, hok⟩
  · rw [heq]
    exact ⟨rfl, rfl, rfl⟩
  · obtain ⟨hsetup, hpool, hmanagers, -⟩ := KVCacheManager.getComputedBlocks_ok horder hok
    exact ⟨hpool, hmanagers, hsetup.maxModelLen⟩

namespace Steadies

variable {gone : RequestId → Prop}

omit [DecidableEq H] in
/-- Only the manager's counters and what stands beside the tables has moved. -/
theorem of_same
    (hpool : l'.scheduler.kvCacheManager.blockPool = l.scheduler.kvCacheManager.blockPool)
    (hmanagers : l'.scheduler.kvCacheManager.singleTypeManagers =
      l.scheduler.kvCacheManager.singleTypeManagers)
    (hmax : l'.scheduler.kvCacheManager.maxModelLen = l.scheduler.kvCacheManager.maxModelLen)
    (hscheduled : l'.numScheduledTokens = l.numScheduledTokens)
    (hspec : l'.scheduledSpecDecodeTokens = l.scheduledSpecDecodeTokens)
    (hrunning : l'.scheduler.running = l.scheduler.running)
    (hcounts : ∀ r, (l'.scheduler.request r).numComputedTokens =
      (l.scheduler.request r).numComputedTokens) : Steadies (fun _ => False) l l' where
  gives := by
    refine ⟨hmax, fun c => by rw [hpool], fun c key hkey => by rwa [hpool] at hkey, ?_⟩
    rw [hmanagers]
    exact fun manager hm => ⟨manager, hm, fun r => ⟨False.elim, fun _ =>
      ⟨rfl, fun i b hb => Or.inl hb⟩⟩⟩
  scheduled r _ := by rw [hscheduled]
  idle r hr := hr.elim
  spec := hspec
  running r := by
    rw [hrunning]
    exact ⟨fun hr => ⟨hr, False.elim⟩, And.left⟩
  counts r _ _ := hcounts r
  blocks r _ _ := by
    unfold KVCacheManager.getBlocks
    rw [hmanagers]

theorem of_prepared {s' : Scheduler H} {r : RequestId} (hb : Batch l)
    (hs : Prepared l.scheduler s' r)
    (hkv : l'.scheduler.kvCacheManager = s'.kvCacheManager)
    (hrequest : l'.scheduler.request = s'.request) (hrunning : l'.scheduler.running = s'.running)
    (hscheduled : l'.numScheduledTokens = l.numScheduledTokens)
    (hspec : l'.scheduledSpecDecodeTokens = l.scheduledSpecDecodeTokens) :
    Steadies (fun _ => False) l l' := by
  obtain ⟨hpool, hmanagers, hmax⟩ := hs.kvCacheManager_eq hb.partition.order
  rw [← hkv] at hpool hmanagers hmax
  refine of_same hpool hmanagers hmax hscheduled hspec (hrunning.trans hs.running_eq) fun r' => ?_
  rw [hrequest]
  exact (hs.counts r').1

end Steadies

/-- Where no victim is recalled, every point of a call is truthful. -/
theorem Loops.truthful (hs : Governed s blockSize policy) (hloops : Loops (start s) l)
    (hspares : ∀ l, Loops (start s) l → ¬ l.Recalls)
    (hstart : (start s).Truthful memory blockSize policy) :
    l.Truthful memory blockSize policy := by
  induction hloops with
  | refl => exact hstart
  | @tail l l' hloops hstep ih =>
      have hg := Loops.granting hs.partition hloops
      have hb := hg.batch
      have h := advance_outcome hstep
      have hreworks := h.reworks
      have hafter := (h.batch hb).partition.order
      have hsteady : ∀ gone, Steadies gone l l' → l'.Truthful memory blockSize policy :=
        fun gone hsteady => hsteady.truthful hb hreworks ih
      cases h with
      | rest hphase => exact ih
      | enter hphase => exact hsteady _ (.of_same rfl rfl rfl rfl rfl rfl fun _ => rfl)
      | pass hphase hr =>
          rw [disableSpeculation_frame] at hsteady ⊢
          exact hsteady _ (.of_same rfl rfl rfl rfl rfl rfl fun r =>
            disableSpeculation_numComputedTokens ..)
      | takeUp hphase hr hn hbudget hspec hlen =>
          rw [disableSpeculation_frame] at hsteady ⊢
          exact hsteady _ (.of_same rfl rfl rfl rfl rfl rfl fun r =>
            disableSpeculation_numComputedTokens ..)
      | @commit r n blocks kv hphase hok =>
          have hrunning := List.mem_of_mem_take (hb.allocating r n hphase).2.2.1
          exact (Loops.joins hs hloops hphase hok).truthful hs.pos hreworks hafter hs.sound
            (Loops.hashedAs hs hloops (hb.partition.known_of_running hrunning)) ih
      | @preempt r victim n kv inBatch blocks scheduled inputs cache encoderBudget tokenBudget
          reqIndex loras hphase hok hvictim hstatus hfree hbatch hinputs =>
          have hout : victim ∉ l.batch := fun hmem =>
            hspares l hloops ⟨r, n, _, victim, hphase, hok, hvictim, hmem⟩
          have hdrops := hb.drops hphase hvictim hbatch
          obtain ⟨free, horder⟩ := hb.partition.order
          refine hsteady (· = victim) ⟨.of_free horder hfree, fun r' hr => hdrops.find r' hr, ?_,
            rfl, fun r' => ?_, fun r' _ hr => ?_, fun r' _ hr => ?_⟩
          · rintro r' rfl
            rw [Dict.find_eq_none_iff, Dict.find_eq_none_iff, hb.keys]
            exact ⟨hout, fun hmem => ((hdrops.keys r').mp hmem).1 rfl⟩
          · rw [dropVictim_eq hb.partition.running_nodup hvictim,
              hb.partition.running_nodup.mem_erase_iff]
            exact And.comm
          · show (Function.update l.scheduler.request victim _ r').numComputedTokens = _
            rw [Function.update_of_ne hr]
          · exact KVCacheManager.free_getBlocks_of_ne horder hfree hr
      | close hphase hs' =>
          rcases hs' with rfl | ⟨r, hs'⟩
          · exact hsteady _ (.of_same rfl rfl rfl rfl rfl rfl fun _ => rfl)
          · exact hsteady _ (.of_prepared hb hs' rfl rfl rfl rfl rfl)
      | @setAside s' r kv waiting budget hphase hs' hfree hpop =>
          rcases hfree with rfl | hfree
          · exact hsteady _ (.of_prepared hb hs' rfl rfl rfl rfl rfl)
          -- the request at the head of the queue has no table to lose
          obtain ⟨free, horder⟩ := (hs'.continues hb.partition.order).order
          obtain ⟨hpool, hmanagers, hmax⟩ := hs'.kvCacheManager_eq hb.partition.order
          have hwaits : ∀ r' ∈ l.scheduler.running, r' ≠ r := fun r' hr' => hb.ne_head hs'.head hr'
          have hout : l.numScheduledTokens.find r = none := by
            rw [Dict.find_eq_none_iff, hb.keys]
            exact fun hmem => hwaits r (hb.running r hmem) rfl
          have hgives := (Gives.of_free horder hfree).of_eq hpool hmanagers hmax
          refine hsteady (· = r) ⟨hgives, fun _ _ => rfl, ?_, rfl, fun r' => ?_, fun r' _ _ => ?_,
            fun r' _ hr => ?_⟩
          · rintro r' rfl
            exact ⟨hout, hout⟩
          · show r' ∈ s'.running ↔ _
            rw [hs'.running_eq]
            exact ⟨fun hr' => ⟨hr', hwaits r' hr'⟩, And.left⟩
          · exact (hs'.counts r').1
          · exact (KVCacheManager.free_getBlocks_of_ne horder hfree hr).trans
              (hs'.getBlocks hb.partition.order r')
      | lookUp hphase hs' hpreempted hhits hexternal hrunning hn hbudget hlen =>
          exact hsteady _ (.of_prepared hb hs' rfl rfl rfl rfl rfl)
      | decline hphase hok => exact hsteady _ (.of_same rfl rfl rfl rfl rfl rfl fun _ => rfl)
      | @accept r r' hits blocks numLocal numExternal n inputs kv waiting connector loras hphase hok
          hpop hstatus hconnector =>
          have hhead := (hb.admitting r hits numLocal numExternal n inputs hphase).2.1
          have hqueued : r ∈ l.scheduler.queued :=
            List.mem_append_left _ (List.mem_of_mem_head? hhead)
          refine @Joins.truthful _ _ _ _ _ _ _ r numLocal n ?_ hs.pos hreworks hafter hs.sound
            (Loops.hashedAs hs hloops (hb.partition.known_of_waiting hqueued)) ih
          exact Loops.admits hs hloops hphase hok hpop rfl rfl rfl rfl ⟨_, rfl⟩

/-- Two requests of a batch that write one slot write the same. -/
theorem Loops.writes_unique (hs : Governed s blockSize policy) (hloops : Loops (start s) l)
    {b : BlockId} {offset : ℕ} {e e' : KVEntry}
    (hnn : (l.scheduler.kvCacheManager.blockPool.blocks b).isNull = false)
    (he : l.Writes blockSize b offset e) (he' : l.Writes blockSize b offset e') : e = e' := by
  have hb := hloops.batch hs.partition
  have hmarks := hloops.marks hs.partition hs.marked
  obtain ⟨free, horder⟩ := hb.partition.order
  obtain ⟨r, n, hfind, table, htable, i, hi, hoffset, -, -, rfl⟩ := he
  obtain ⟨r', n', hfind', table', htable', i', hi', -, -, -, rfl⟩ := he'
  obtain ⟨manager, hm, rfl⟩ := List.mem_map.mp htable
  obtain ⟨manager', hm', rfl⟩ := List.mem_map.mp htable'
  by_cases hnone : (l.scheduler.kvCacheManager.blockPool.blocks b).blockHash = none
  · obtain ⟨-, rfl, rfl⟩ := hmarks.published_of_two horder.books hm hm' hnn hi hi' hnone
    rfl
  obtain ⟨key, hkey⟩ := Option.ne_none_iff_exists'.mp hnone
  have hhash : ∀ {r : RequestId} {n : ℕ}, l.numScheduledTokens.find r = some n →
      ∀ {manager : SingleTypeKVCacheManager},
        manager ∈ l.scheduler.kvCacheManager.singleTypeManagers → ∀ {i : ℕ},
        (manager.getBlocks r)[i]? = some b →
          (l.scheduler.request r).HashedAs policy ∧
          (l.scheduler.request r).blockHashes[i]? = some key.1 := by
    intro r n hfind manager hm i hi
    have hrunning := hb.running r ((hb.keys r).mp ((Dict.mem_keys_iff ..).mpr ⟨n, hfind⟩))
    have hplaced := (hmarks.placed manager hm r i b hi key hkey).2
    have hsame := hloops.sameHashes hs r
    rw [hb.partition.requestId] at hsame
    exact ⟨hloops.hashedAs hs (hb.partition.known_of_running hrunning), hsame ▸ hplaced⟩
  obtain ⟨hhashed, hplaced⟩ := hhash hfind hm hi
  obtain ⟨hhashed', hplaced'⟩ := hhash hfind' hm' hi'
  obtain ⟨rfl, hagree⟩ := KVCacheManager.hashed_agree hs.sound hhashed hhashed' hplaced hplaced'
  have hsize := fun hasher hsome => (hs.sound hasher hsome).2
  have hreach := KVCacheManager.hashed_reach hs.pos hsize hhashed hplaced
  have hreach' := KVCacheManager.hashed_reach hs.pos hsize hhashed' hplaced'
  have hposition : i * blockSize + offset < (i + 1) * blockSize := by
    rw [Nat.succ_mul]
    omega
  calc l.entry blockSize r (i * blockSize + offset)
      = (l.scheduler.request r).kvEntry [] blockSize (i * blockSize + offset) :=
        Request.kvEntry_known (by omega)
    _ = (l.scheduler.request r').kvEntry [] blockSize (i * blockSize + offset) :=
        hagree _ hposition
    _ = l.entry blockSize r' (i * blockSize + offset) := (Request.kvEntry_known (by omega)).symm

omit [DecidableEq H] in
theorem Finishes.request_eq {output : SchedulerOutput} {s' : Scheduler H}
    (h : Finishes l output s') (r : RequestId) :
    s'.request r = match l.numScheduledTokens.find r with
      | none => l.scheduler.request r
      | some n => (l.scheduler.request r).advanced n := by
  rw [h.state]
  rfl

omit [DecidableEq H] in
theorem Finishes.kvEntry_eq {output : SchedulerOutput} {s' : Scheduler H}
    (h : Finishes l output s') (r : RequestId) (position : ℕ) :
    (s'.request r).kvEntry (output.scheduledSpecDecodeTokens.findD r []) blockSize position =
      l.entry blockSize r position := by
  rw [h.request_eq, h.spec]
  split <;> rfl

omit [DecidableEq H] in
theorem Finishes.kvCacheManager_eq {output : SchedulerOutput} {s' : Scheduler H}
    (h : Finishes l output s') : s'.kvCacheManager = l.scheduler.kvCacheManager ∧
      s'.running = l.scheduler.running := by
  rw [h.state, restoreSkippedWaiting_frame]
  exact ⟨rfl, rfl⟩

end StepState

/-! ### The device -/

namespace SchedulerOutput

variable (output : SchedulerOutput) (s : Scheduler H)

omit [DecidableEq H] in
/-- A step writes an entry into a slot: that of a position it schedules, in the block that the
table of the request has for it. -/
def Writes (b : BlockId) (offset : ℕ) (e : KVEntry) : Prop :=
  ∃ r start n, (r, start) ∈ output.sentFrom ∧ output.numScheduledTokens.find r = some n ∧
    ∃ table ∈ s.kvCacheManager.getBlocks r, ∃ i : ℕ, table[i]? = some b ∧
      offset < s.kvCacheManager.kvCacheConfig.blockSize ∧
      start ≤ i * s.kvCacheManager.kvCacheConfig.blockSize + offset ∧
      i * s.kvCacheManager.kvCacheConfig.blockSize + offset < start + n ∧
      e = (s.request r).kvEntry (output.scheduledSpecDecodeTokens.findD r [])
        s.kvCacheManager.kvCacheConfig.blockSize
        (i * s.kvCacheManager.kvCacheConfig.blockSize + offset)

omit [DecidableEq H] in
/-- The memory after a step is run, in whatever order its writes land. -/
def Executes (memory memory' : KVMemory) : Prop :=
  ∀ b offset, (∃ e, output.Writes s b offset e ∧ memory' b offset = some e) ∨
    (∀ e, ¬ output.Writes s b offset e) ∧ memory' b offset = memory b offset

omit [DecidableEq H] in
/-- The tokens that come back are the drafts that were accepted, and one more. -/
def Verifies (modelRunnerOutput : ModelRunnerOutput) : Prop :=
  ∀ r ∈ output.numScheduledTokens.keys, (generatedFor modelRunnerOutput r).dropLast <+:
    output.scheduledSpecDecodeTokens.findD r []

end SchedulerOutput

/-- The engine, and the memory of its device. -/
structure Machine (H : Type) where
  engine : Engine H
  memory : KVMemory

namespace Machine

/-- A step of the engine. What it schedules is run, and the results verify its drafts. -/
inductive Step : Machine H → Event → Machine H → Prop
  | call {s s' : Scheduler H} {event : Event} {inFlight : Option SchedulerOutput}
      {memory : KVMemory} (hstep : Scheduler.Step s event s') (hanytime : event.anytime = true) :
      Step ⟨⟨s, inFlight⟩, memory⟩ event ⟨⟨s', inFlight⟩, memory⟩
  | schedule {s s' : Scheduler H} {output : SchedulerOutput} {memory memory' : KVMemory}
      (hok : s.schedule = .ok (output, s')) (hexecutes : output.Executes s' memory memory') :
      Step ⟨⟨s, none⟩, memory⟩ (.schedule output) ⟨⟨s', some output⟩, memory'⟩
  | updateFromOutput {s s' : Scheduler H} {schedulerOutput : SchedulerOutput}
      {modelRunnerOutput : ModelRunnerOutput} {outputs : Dict ℕ (List EngineCoreOutput)}
      {memory : KVMemory} (hanswers : Answers s schedulerOutput modelRunnerOutput)
      (hverifies : schedulerOutput.Verifies modelRunnerOutput)
      (hok : s.updateFromOutput schedulerOutput modelRunnerOutput = .ok (outputs, s')) :
      Step ⟨⟨s, some schedulerOutput⟩, memory⟩
        (.updateFromOutput schedulerOutput modelRunnerOutput outputs) ⟨⟨s', none⟩, memory⟩

theorem Step.engine {x x' : Machine H} {event : Event} (hstep : Step x event x') :
    Engine.Step x.engine event x'.engine := by
  cases hstep with
  | call hstep hanytime => exact .call hstep hanytime
  | schedule hok hexecutes => exact .schedule hok
  | updateFromOutput hanswers hverifies hok => exact .updateFromOutput hanswers hok

/-- A call of `schedule` preempts nobody who is in its batch. -/
def Spares (x : Machine H) (event : Event) : Prop :=
  ∀ output, event = .schedule output → ∀ l, StepState.Loops (.start x.engine.scheduler) l →
    ¬ l.Recalls

/-- A step that spares its batch. -/
def SparingStep (x : Machine H) (event : Event) (x' : Machine H) : Prop :=
  Step x event x' ∧ Spares x event

/-- The slots read what they are taken for: those under the tables of the running requests, as
far as these are computed, the tokens and keys up to their position; and those of a cached block
what every request that has its hash stands for. -/
def Truthful (blockSize : ℕ) (policy : Option (BlockHasher H)) (x : Machine H) : Prop :=
  Faithful blockSize policy (fun b offset e => x.memory b offset = some e)
    (fun r position => (x.engine.scheduler.request r).kvEntry (x.engine.draftsFor r) blockSize
      position)
    (fun r => if r ∈ x.engine.scheduler.running then
      (x.engine.scheduler.request r).numComputedTokens else 0)
    x.engine.scheduler.kvCacheManager

variable {s s' : Scheduler H} {memory memory' : KVMemory} {blockSize : ℕ}
  {policy : Option (BlockHasher H)}

theorem writes_iff {l : StepState H} {output : SchedulerOutput} (hb : l.Batch)
    (hfinishes : StepState.Finishes l output s')
    (hsize : l.scheduler.kvCacheManager.kvCacheConfig.blockSize = blockSize) (b : BlockId)
    (offset : ℕ) (e : KVEntry) :
    output.Writes s' b offset e ↔ l.Writes blockSize b offset e := by
  obtain ⟨hkv, -⟩ := hfinishes.kvCacheManager_eq
  unfold SchedulerOutput.Writes StepState.Writes
  simp only [hfinishes.kvEntry_eq, hkv, hsize, hfinishes.scheduled,
    hfinishes.sentFrom hb.partition.requestId]
  constructor
  · rintro ⟨r, start, n, hsent, hfind, hrest⟩
    obtain ⟨r', -, heq⟩ := List.mem_map.mp hsent
    cases heq
    exact ⟨r, n, hfind, hrest⟩
  · rintro ⟨r, n, hfind, hrest⟩
    refine ⟨r, _, n, List.mem_map.mpr ⟨r, ?_, rfl⟩, hfind, hrest⟩
    have hin := (hb.keys r).mp ((Dict.mem_keys_iff ..).mpr ⟨n, hfind⟩)
    rw [StepState.batch, List.mem_append] at hin
    exact List.mem_append.mpr hin.symm

omit [DecidableEq H] in
/-- Before the loops nothing is written. -/
theorem Truthful.start (h : Truthful blockSize policy ⟨⟨s, none⟩, memory⟩) :
    (StepState.start s).Truthful memory blockSize policy := by
  have hnone : ∀ r, (StepState.start s).numScheduledTokens.find r = none := fun _ => rfl
  have hreads : (StepState.start s).Reads memory blockSize =
      fun b offset e => memory b offset = some e := by
    funext b offset e
    have hsilent : ∀ e', ¬ (StepState.start s).Writes blockSize b offset e' := by
      rintro e' ⟨r, n, hfind, -⟩
      rw [hnone] at hfind
      cases hfind
    exact propext ⟨fun hread => (hread.resolve_left (hsilent e)).2, fun hread => Or.inr
      ⟨hsilent, hread⟩⟩
  have hcovered : (StepState.start s).covered =
      fun r => if r ∈ s.running then (s.request r).numComputedTokens else 0 := by
    funext r
    unfold StepState.covered
    rw [hnone]
    rfl
  unfold StepState.Truthful
  rw [hreads, hcovered]
  exact h

/-- A step is run, and its slots read what they are taken for. -/
theorem Truthful.schedule {output : SchedulerOutput}
    (h : Truthful blockSize policy ⟨⟨s, none⟩, memory⟩)
    (hs : StepState.Governed s blockSize policy) (hok : s.schedule = .ok (output, s'))
    (hexecutes : output.Executes s' memory memory')
    (hspares : ∀ l, StepState.Loops (.start s) l → ¬ l.Recalls) :
    Truthful blockSize policy ⟨⟨s', some output⟩, memory'⟩ := by
  obtain ⟨l, hloops, -, hfinishes⟩ := Scheduler.schedule_ok hok
  have hg := hloops.granting hs.partition
  have hb := hg.batch
  have htruthful := StepState.Loops.truthful hs hloops hspares h.start
  have hsize : l.scheduler.kvCacheManager.kvCacheConfig.blockSize = blockSize :=
    hg.continues.setup.kvCacheConfig ▸ hs.size
  obtain ⟨free, horder⟩ := hb.partition.order
  obtain ⟨hkv, hrunning⟩ := hfinishes.kvCacheManager_eq
  have hentry : (fun r position => (s'.request r).kvEntry
      (Engine.draftsFor ⟨s', some output⟩ r) blockSize position) = l.entry blockSize := by
    funext r position
    exact hfinishes.kvEntry_eq r position
  have hcount : (fun r => if r ∈ s'.running then (s'.request r).numComputedTokens else 0) =
      l.covered := by
    funext r
    unfold StepState.covered
    rw [hrunning, hfinishes.request_eq]
    cases l.numScheduledTokens.find r <;> rfl
  show Faithful blockSize policy (fun b offset e => memory' b offset = some e) _ _
    s'.kvCacheManager
  rw [hentry, hcount, hkv]
  refine Faithful.reread htruthful horder.null_unhashed fun b hnn offset hoffset e hread => ?_
  have hiff := writes_iff hb hfinishes hsize b offset
  rcases hexecutes b offset with ⟨e', hwrites, hmemory⟩ | ⟨hnone, hmemory⟩
  · rw [hiff] at hwrites
    rcases hread with hwrites' | ⟨hsilent, -⟩
    · rw [hmemory, StepState.Loops.writes_unique hs hloops hnn hwrites hwrites']
    · exact absurd hwrites (hsilent e')
  · rcases hread with hwrites | ⟨-, hread⟩
    · exact absurd ((hiff e).mpr hwrites) (hnone e)
    · rw [hmemory, hread]

end Machine

end Pvllm
