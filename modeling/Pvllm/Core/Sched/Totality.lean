import Pvllm.Core.Charge
import Pvllm.Core.Sched.Budgets
import Pvllm.Core.Sched.Caps
import Pvllm.Core.Sched.Order
import Pvllm.Core.Sched.Retained

/-!
No call of the scheduler fails.

The loops can fail at an assertion, at a queue or a list that is empty, at a missing
entry, and in the manager. For plain requests within the window, and without a
connector, each of these is denied at every point of a call: what is running has
something left to compute, what is allocated for fits its tables (`Fitting`), and the
batch has its entries. The same holds of what follows the loops, and of the calls that
fold results in and end requests.
-/

namespace Pvllm

variable {H : Type} [DecidableEq H]

/-- What a call over plain requests relies on. -/
structure Scheduler.Ready (s : Scheduler H) : Prop where
  settled : s.Settled
  plain : s.AllPlain
  connector : s.connector = none
  pace : StepState.Pace s (StepState.start s)
  capacity : s.Capacity
  hashed : ∀ r ∈ s.requests, (s.request r).HashedAs s.kvCacheManager.blockHasher
  standing : ∀ r ∈ s.running, s.kvCacheManager.Standing r (s.request r).numComputedTokens
    (s.request r).numComputedTokens
  window : ∀ r ∈ s.requests, (s.request r).numTokens ≤ s.kvCacheManager.maxModelLen
  length : s.kvCacheManager.maxModelLen = s.config.maxModelLen

namespace StepState

variable {s : Scheduler H} {l l' : StepState H} {r : RequestId} {n : ℕ}

/-! ### At a point of the loops -/

/-- Without a connector nothing is found outside. -/
structure Unconnected (l : StepState H) : Prop where
  connector : l.scheduler.connector = none
  external : ∀ r hits numLocal numExternal n inputs,
    l.phase = .admitting r hits numLocal numExternal n inputs → numExternal = 0

theorem asked_none {connector connector' : Option (SimSharedStoreConnector H)}
    (h : Asked connector connector') (hnone : connector = none) : connector' = none := by
  rcases h with rfl | ⟨asked, request, n, hsome, -⟩
  · exact hnone
  · rw [hnone] at hsome
    cases hsome

theorem Outcome.unconnected (h : Outcome l l') (hl : Unconnected l) : Unconnected l' := by
  cases h with
  | rest hfinished => exact hl
  | enter hrunning =>
      refine ⟨hl.connector, fun r hits a b n inputs hnext => ?_⟩
      dsimp only at hnext
      split at hnext <;> cases hnext
  | pass hrunning hr =>
      rw [disableSpeculation_frame]
      refine ⟨hl.connector, fun r hits a b n inputs hnext => ?_⟩
      dsimp only at hnext
      rw [hrunning] at hnext
      cases hnext
  | takeUp hrunning hr hn hbudget hspec hlen =>
      rw [disableSpeculation_frame]
      exact ⟨hl.connector, fun _ _ _ _ _ _ hnext => Phase.noConfusion hnext⟩
  | commit hallocating hok =>
      refine ⟨?_, fun _ _ _ _ _ _ hnext => Phase.noConfusion hnext⟩
      rw [commitRunning_request]
      exact hl.connector
  | preempt hallocating hok hvictim hstatus hfree hbatch hinputs =>
      refine ⟨hl.connector, fun r hits a b n inputs hnext => ?_⟩
      dsimp only at hnext
      split at hnext <;> cases hnext
  | close hadmission hs =>
      refine ⟨?_, fun _ _ _ _ _ _ hnext => Phase.noConfusion hnext⟩
      rcases hs with rfl | ⟨r, hs⟩
      · exact hl.connector
      · exact asked_none hs.connector hl.connector
  | setAside hadmission hs hfree hpop =>
      exact ⟨asked_none hs.connector hl.connector, fun _ _ _ _ _ _ hnext => Phase.noConfusion hnext⟩
  | lookUp hadmission hs hpreempted hhits hexternal hrunning hn hbudget hlen =>
      refine ⟨asked_none hs.connector hl.connector, fun r hits a b n inputs hnext => ?_⟩
      obtain ⟨-, -, -, rfl, -, -⟩ := Phase.admitting.inj hnext
      rw [hexternal, matchExternal, hl.connector]
  | decline hadmitting hok => exact ⟨hl.connector, fun _ _ _ _ _ _ hnext => Phase.noConfusion hnext⟩
  | accept hadmitting hok hpop hstatus hconnector =>
      refine ⟨?_, fun _ _ _ _ _ _ hnext => Phase.noConfusion hnext⟩
      dsimp only
      rw [hconnector, hl.connector]
      split <;> rfl

/-! ### The parts that can fail -/

omit [DecidableEq H] in
theorem enterAdmission_total
    (hplain : ∀ r ∈ l.scheduler.running, (l.scheduler.request r).loraRequest = none) :
    ∃ l', l.enterAdmission = .ok l' := by
  have hnone : l.scheduler.running.filterMap (fun r =>
      (l.scheduler.request r).loraRequest.map (·.loraIntId)) = [] := by
    rw [List.filterMap_eq_nil_iff]
    intro r hr
    rw [hplain r hr]
    rfl
  unfold enterAdmission
  dsimp only
  split
  · exact ⟨_, rfl⟩
  · rw [hnone, if_neg (by simp)]
    exact ⟨_, rfl⟩

omit [DecidableEq H] in
theorem selectVictim_total (hne : s.running ≠ []) :
    ∃ victim, s.selectVictim = .ok victim := by
  unfold Scheduler.selectVictim
  split
  · split
    · rename_i hnil
      exact absurd hnil hne
    · exact ⟨_, rfl⟩
  · split
    · rename_i hnil
      exact absurd (List.getLast?_eq_none_iff.mp hnil) hne
    · exact ⟨_, rfl⟩

theorem dropVictim_total (hb : Batch l) (victim : RequestId) :
    ∃ l', l.dropVictim victim = .ok l' ∧
      l'.scheduler = { l.scheduler with running := l'.scheduler.running } ∧
      l'.scheduler.running ⊆ l.scheduler.running := by
  unfold dropVictim
  dsimp only
  split
  · exact ⟨_, rfl, rfl, List.dropLast_subset _⟩
  · split
    · rename_i hmem
      have hkey := (hb.keys victim).mpr (List.mem_append_left _ hmem)
      obtain ⟨numScheduled, hfind⟩ := (Dict.mem_keys_iff ..).mp hkey
      rw [hfind]
      exact ⟨_, rfl, rfl, List.erase_subset⟩
    · exact ⟨_, rfl, rfl, List.erase_subset⟩

theorem preemptRequest_total (hstatus : (s.request r).status = .running)
    (horder : ∃ free, s.kvCacheManager.InOrder free) : ∃ s', s.preemptRequest r = .ok s' ∧
      s'.running = s.running ∧ s'.config = s.config ∧
      ∀ r', (s'.request r').loraRequest = (s.request r').loraRequest := by
  obtain ⟨free, horder⟩ := horder
  obtain ⟨kv, free', hfree, -⟩ := KVCacheManager.free_spec horder r
  unfold Scheduler.preemptRequest
  rw [if_neg (not_not.mpr hstatus), hfree]
  refine ⟨_, rfl, rfl, rfl, fun r' => ?_⟩
  dsimp only
  by_cases hr : r' = r
  · subst hr
    rw [Function.update_self]
    rfl
  · rw [Function.update_of_ne hr]

theorem preemptFor_total (hb : Batch l) (hr : r ∈ l.scheduler.running)
    (hplain : ∀ r ∈ l.scheduler.running, (l.scheduler.request r).loraRequest = none) :
    ∃ l', l.preemptFor r = .ok l' := by
  obtain ⟨victim, hvictim⟩ := selectVictim_total (List.ne_nil_of_mem hr)
  obtain ⟨l₁, hdrop, hsame, hsub⟩ := dropVictim_total hb victim
  have hstatus := hb.partition.status victim (selectVictim_mem hvictim).1
  unfold preemptFor
  rw [hvictim]
  dsimp only
  rw [hdrop]
  dsimp only
  set l₂ := l₁.releaseEncoderReservation victim (l₁.scheduledEncoderInputs.findD victim [])
    with hl₂
  have hrequest : l₂.scheduler.request = l.scheduler.request := by
    rw [hl₂]
    unfold releaseEncoderReservation
    dsimp only
    rw [hsame]
  have hkv : l₂.scheduler.kvCacheManager = l.scheduler.kvCacheManager := by
    rw [hl₂]
    unfold releaseEncoderReservation
    dsimp only
    rw [hsame]
  obtain ⟨s₃, hpreempt, hrunning, -, hlora⟩ := @preemptRequest_total _ _ l₂.scheduler victim
    (by rw [hrequest]; exact hstatus) (by rw [hkv]; exact hb.partition.order)
  rw [hpreempt]
  dsimp only
  split
  · refine enterAdmission_total fun r' hr' => ?_
    have hmem : r' ∈ l.scheduler.running := by
      apply hsub
      exact hrunning ▸ hr'
    refine (hlora r').trans ?_
    rw [hrequest]
    exact hplain r' hmem
  · exact ⟨_, rfl⟩

/-! ### A step of the loops -/

variable (hready : s.Ready) (hloops : Loops (start s) l)

include hready hloops

theorem Loops.unconnected : Unconnected l :=
  hloops.invariant ⟨hready.connector, fun _ _ _ _ _ _ hnext => Phase.noConfusion hnext⟩
    fun _ _ hstep hl => hstep.unconnected hl

theorem Loops.plain (hr : r ∈ l.scheduler.requests) : (l.scheduler.request r).Plain := by
  have hsame : l.scheduler.requests = s.requests := (Loops.static hloops).2.1
  rw [hsame] at hr
  exact (hready.plain r hr).keeps (Loops.keeps hloops r)

theorem Loops.budgeted : l.Budgeted fun r => (s.request r).mmFeatures := by
  refine hready.capacity.loops hready.settled.partition (fun r hr => ?_) hloops
  rw [(hready.plain r hr).mmFeatures]
  exact List.Pairwise.nil

/-- The request slots are asked for is computed as far as its tables reach. -/
theorem Loops.fitting_allocating (hphase : l.phase = .allocating r n) :
    l.scheduler.kvCacheManager.Fitting (l.scheduler.request r)
      ((l.scheduler.request r).numComputedTokens + 0)
      (l.scheduler.kvCacheManager.perGroupCached none) := by
  have hb := Loops.batch hready.settled.partition hloops
  have hg := Loops.granting hready.settled.partition hloops
  have hp := Loops.pace hready.settled.partition hready.pace hloops
  have hover : l.phase.overRunning = true := by rw [hphase]; rfl
  obtain ⟨-, hout, htake, -⟩ := hb.allocating r n hphase
  have hrunning : r ∈ l.scheduler.running := List.mem_of_mem_take htake
  have hknown := hb.partition.known_of_running hrunning
  rw [hg.requests] at hknown
  -- it has not been given slots in this call
  have hnone : l.numScheduledTokens.find r = none := by
    rw [Dict.find_eq_none_iff, hb.keys, hb.batch_eq hover]
    exact hout
  have hstanding := (hg.granted r hrunning).standing hready.settled.partition.order
    (hready.hashed r) (hready.standing r)
  rw [hnone, Option.getD_none, Nat.add_zero] at hstanding
  have hsteady := hp.steady r hrunning (by rw [hb.batch_eq hover]; exact hout)
  have hwindow := hready.window r hknown
  rw [← (hg.reworks r).numTokens_eq, ← hg.continues.setup.maxModelLen] at hwindow
  rw [← hb.partition.requestId r] at hstanding
  refine KVCacheManager.fitting_running hstanding.keeps ?_
  rw [hb.partition.requestId r]
  exact le_min le_rfl (hsteady.behind.le.trans hwindow)

/-- What a lookup found for a request is fit to be adopted. -/
theorem Loops.fitting_admitting {hits : List (List BlockId)} {numLocal numExternal : ℕ}
    {inputs : List ℕ} (hphase : l.phase = .admitting r hits numLocal numExternal n inputs) :
    l.scheduler.kvCacheManager.Fitting (l.scheduler.request r)
      ((l.scheduler.request r).numComputedTokens + (numLocal + numExternal))
      (l.scheduler.kvCacheManager.perGroupCached (some hits)) := by
  have hb := Loops.batch hready.settled.partition hloops
  have hg := Loops.granting hready.settled.partition hloops
  obtain rfl := (hloops.unconnected hready).external r hits numLocal numExternal n inputs hphase
  obtain ⟨-, hhead, hhits⟩ := hb.admitting r hits numLocal 0 n inputs hphase
  have hqueued : r ∈ l.scheduler.queued := List.mem_append_left _ (List.mem_of_head? hhead)
  have hknown := hb.partition.known_of_waiting hqueued
  rw [hg.requests] at hknown
  obtain ⟨m, hbefore, hlookup⟩ := hg.found r hits numLocal 0 n inputs hphase
  obtain ⟨free, horder⟩ := hbefore.order
  obtain ⟨hsetup, hpool, hmanagers, -⟩ := KVCacheManager.getComputedBlocks_ok horder hlookup
  have hrequest : (l.scheduler.request r).HashedAs m.blockHasher := by
    rw [hbefore.setup.blockHasher]
    exact (Request.HashedAs.lasting _).reworks (hready.hashed r hknown) (hg.reworks r)
  obtain ⟨hits', k, m', hfound, -, hdvd, hshaped⟩ :=
    KVCacheManager.getComputedBlocks_shaped horder (KVCacheManager.hashes_reach hrequest)
  rw [hlookup] at hfound
  obtain ⟨⟨rfl, rfl⟩, rfl⟩ := Prod.mk.inj (Except.ok.inj hfound) |>.imp Prod.mk.inj id
  rw [← hpool, ← hmanagers, ← hsetup.kvCacheConfig] at hshaped
  rw [← hsetup.kvCacheConfig] at hdvd
  obtain ⟨free', horder'⟩ := hb.partition.order
  have hfound' : l.scheduler.kvCacheManager.FoundBlocks
      (numLocal / l.scheduler.kvCacheManager.kvCacheConfig.blockSize) hits := hshaped
  rw [hfound'.perGroupCached_eq, (hb.partition.queued r hqueued).numComputedTokens, Nat.zero_add,
    Nat.add_zero]
  refine KVCacheManager.fitting_found ?_ hhits hdvd horder'.toConfigured hfound'
  rw [hb.partition.requestId r]
  exact hb.partition.idle r (hb.partition.not_running_of_waiting hqueued)

theorem Loops.lora (hr : r ∈ l.scheduler.running) : (l.scheduler.request r).loraRequest = none := by
  have hb := Loops.batch hready.settled.partition hloops
  exact (hloops.plain hready (hb.partition.known_of_running hr)).loraRequest

theorem Loops.runningStep_total (hphase : l.phase = .running) : ∃ l', l.runningStep = .ok l' := by
  have hb := Loops.batch hready.settled.partition hloops
  have hp := Loops.pace hready.settled.partition hready.pace hloops
  have hover : l.phase.overRunning = true := by rw [hphase]; rfl
  unfold runningStep
  split
  · exact enterAdmission_total fun r hr => hloops.lora hready hr
  rename_i r hr
  split
  · exact enterAdmission_total fun r hr => hloops.lora hready hr
  have hmem := List.mem_of_getElem? hr
  have hsteady := hp.steady r hmem (by rw [hb.batch_eq hover]; exact hb.at_index hover hr)
  have hfeatures := (hloops.plain hready (hb.partition.known_of_running hmem)).mmFeatures
  -- something is left to compute, with or without the drafts
  have hbehind : ¬ ((disableSpeculation l.scheduler r).request r).numTokensWithSpec ≤
      ((disableSpeculation l.scheduler r).request r).numComputedTokens := by
    have htokens := (disableSpeculation_reworks l.scheduler r r).numTokens_eq
    have hbehind := hsteady.behind
    rw [disableSpeculation_numComputedTokens, Request.numTokensWithSpec, htokens]
    omega
  dsimp only
  rw [if_neg hbehind]
  split
  · exact ⟨_, rfl⟩
  · rw [scheduleEncoder_plain ((disableSpeculation_reworks l.scheduler r r).mmFeatures_eq.trans
      hfeatures)]
    dsimp only
    split
    · exact ⟨_, rfl⟩
    · exact ⟨_, rfl⟩

theorem Loops.allocatingStep_total (hphase : l.phase = .allocating r n) :
    ∃ l', l.allocatingStep r n = .ok l' := by
  have hb := Loops.batch hready.settled.partition hloops
  obtain ⟨hn, -, htake, -⟩ := hb.allocating r n hphase
  obtain ⟨free, horder⟩ := hb.partition.order
  have hfitting := hloops.fitting_allocating hready hphase
  obtain ⟨⟨result, kv⟩, hok⟩ : ∃ result, l.scheduler.kvCacheManager.allocateSlots
      (l.scheduler.request r) n 0 none 0 false = .ok result :=
    KVCacheManager.allocateSlots_total horder hn.ne' hfitting
  unfold allocatingStep
  rw [hok]
  cases result with
  | some blocks => exact ⟨_, rfl⟩
  | none =>
      obtain rfl := KVCacheManager.allocateSlots_none hok
      exact preemptFor_total hb (List.mem_of_mem_take htake) fun r hr => hloops.lora hready hr

/-- The tokens a plain request is to be admitted with, `numLocal` of its own found cached. -/
def askedTokens (l : StepState H) (r : RequestId) (numLocal : ℕ) : ℕ :=
  capShare l.scheduler.config.longPrefillTokenThreshold
    ((l.scheduler.request r).numTokens - numLocal)

/-- A lookup for a plain request answers: the request is to be admitted, or what it asks for
is not to be had. -/
theorem Loops.lookupStep_eq (hr : r ∈ l.scheduler.queued) :
    ∃ hits numLocal kv, l.scheduler.kvCacheManager.getComputedBlocks (l.scheduler.request r) =
        .ok ((hits, numLocal), kv) ∧ numLocal ≤ (l.scheduler.request r).numTokens - 1 ∧
      l.lookupStep l.scheduler r = .ok { l with
        scheduler := { l.scheduler with kvCacheManager := kv }
        phase := if l.scheduler.config.enableChunkedPrefill = false ∧
              l.tokenBudget < l.askedTokens r numLocal ∨
            min (l.askedTokens r numLocal) l.tokenBudget = 0 then .finished
          else .admitting r hits numLocal 0 (min (l.askedTokens r numLocal) l.tokenBudget)
            [] } := by
  have hb := Loops.batch hready.settled.partition hloops
  have hg := Loops.granting hready.settled.partition hloops
  have hknown := hb.partition.known_of_waiting hr
  have hfeatures := (hloops.plain hready hknown).mmFeatures
  rw [hg.requests] at hknown
  obtain ⟨free, horder⟩ := hb.partition.order
  have hrequest : (l.scheduler.request r).HashedAs l.scheduler.kvCacheManager.blockHasher := by
    rw [hg.continues.setup.blockHasher]
    exact (Request.HashedAs.lasting _).reworks (hready.hashed r hknown) (hg.reworks r)
  obtain ⟨hits, numLocal, kv, hlookup, hle, -⟩ :=
    KVCacheManager.getComputedBlocks_shaped horder (KVCacheManager.hashes_reach hrequest)
  refine ⟨hits, numLocal, kv, hlookup, hle, ?_⟩
  have hmatch : matchExternal { l.scheduler with kvCacheManager := kv } (l.scheduler.request r)
      numLocal = (0, { l.scheduler with kvCacheManager := kv }) := by
    unfold matchExternal
    rw [(hloops.unconnected hready).connector]
  have hencoder : ∀ n budget, Scheduler.scheduleEncoder
      { l.scheduler with kvCacheManager := kv } r n budget =
        .ok (n, [], budget, l.scheduler.encoderCacheManager) := fun n budget =>
    scheduleEncoder_plain hfeatures
  unfold lookupStep askedTokens
  rw [hlookup]
  dsimp only
  rw [hmatch]
  dsimp only
  rw [Nat.add_zero]
  split
  · rename_i hwhole
    rw [if_pos (Or.inl hwhole)]
  split
  · rename_i hzero
    rw [if_pos (Or.inr hzero)]
  rename_i hwhole hsome
  rw [hencoder, if_neg (not_or.mpr ⟨hwhole, hsome⟩)]
  dsimp only
  rw [if_neg hsome]

theorem Loops.admissionStep_total : ∃ l', l.admissionStep = .ok l' := by
  have hb := Loops.batch hready.settled.partition hloops
  unfold admissionStep
  dsimp only
  split
  · exact ⟨_, rfl⟩
  rename_i hsome
  split
  · exact ⟨_, rfl⟩
  split
  · exact ⟨_, rfl⟩
  rw [not_or] at hsome
  obtain ⟨r, rest, hitems⟩ := List.exists_cons_of_ne_nil hsome.1
  have hpeek : l.scheduler.waiting.peekRequest = .ok r := by
    unfold RequestQueue.peekRequest
    rw [hitems]
  have hr : r ∈ l.scheduler.queued := by
    refine List.mem_append_left _ ?_
    rw [hitems]
    exact List.mem_cons_self
  have hplain := hloops.plain hready (hb.partition.known_of_waiting hr)
  have hlora : l.lacksAdapterSlot (l.scheduler.request r) = false := by
    unfold lacksAdapterSlot
    rw [hplain.loraRequest]
    cases l.scheduler.config.maxLoras <;> rfl
  rw [hpeek]
  dsimp only
  rw [hlora, if_neg Bool.false_ne_true, if_neg hplain.status]
  obtain ⟨hits, numLocal, kv, -, -, hok⟩ := hloops.lookupStep_eq hready hr
  exact ⟨_, hok⟩

theorem Loops.admittingStep_total {hits : List (List BlockId)} {numLocal numExternal : ℕ}
    {inputs : List ℕ} (hphase : l.phase = .admitting r hits numLocal numExternal n inputs) :
    ∃ l', l.admittingStep r hits numLocal numExternal n inputs = .ok l' := by
  have hb := Loops.batch hready.settled.partition hloops
  obtain ⟨hn, hhead, -⟩ := hb.admitting r hits numLocal numExternal n inputs hphase
  obtain ⟨free, horder⟩ := hb.partition.order
  have hfitting := hloops.fitting_admitting hready hphase
  obtain ⟨⟨result, kv⟩, hok⟩ : ∃ result, l.scheduler.kvCacheManager.allocateSlots
      (l.scheduler.request r) n (numLocal + numExternal) (some hits) 0 false = .ok result :=
    KVCacheManager.allocateSlots_total horder hn.ne' hfitting
  unfold admittingStep
  rw [hok]
  cases result with
  | none => exact ⟨_, rfl⟩
  | some blocks =>
      obtain ⟨rest, hitems⟩ : ∃ rest, l.scheduler.waiting.items = r :: rest := by
        cases hlist : l.scheduler.waiting.items with
        | nil =>
            rw [hlist] at hhead
            cases hhead
        | cons r' rest =>
            rw [hlist, List.head?_cons, Option.some.injEq] at hhead
            exact ⟨rest, hhead ▸ rfl⟩
      have hr : r ∈ l.scheduler.queued := by
        refine List.mem_append_left _ ?_
        rw [hitems]
        exact List.mem_cons_self
      have hstatus := (hb.partition.queued r hr).status
      have hplain := (hloops.plain hready (hb.partition.known_of_waiting hr)).status
      have hpop : l.scheduler.waiting.popRequest =
          .ok (r, { l.scheduler.waiting with items := rest }) := by
        unfold RequestQueue.popRequest
        rw [hitems]
      dsimp only
      unfold commitAdmitted
      dsimp only
      rw [hpop]
      dsimp only
      rw [if_neg]
      · exact ⟨_, rfl⟩
      · rintro ⟨hnot, hnot'⟩
        rcases hstatus with heq | heq | heq
        · exact hnot heq
        · exact hplain heq
        · exact hnot' heq

/-- No step of the loops fails. -/
theorem Loops.advance_total : ∃ l', l.advance = .ok l' := by
  unfold advance
  split
  · rename_i hphase
    exact hloops.runningStep_total hready hphase
  · rename_i r n hphase
    exact hloops.allocatingStep_total hready hphase
  · exact hloops.admissionStep_total hready
  · rename_i r hits numLocal numExternal n inputs hphase
    exact hloops.admittingStep_total hready hphase
  · exact ⟨_, rfl⟩

/-! ### After the loops -/

omit hready hloops in
omit [DecidableEq H] in
theorem updateAfterSchedule_total {s : Scheduler H} {scheduled : List (RequestId × ℕ)}
    (h : ∀ r ∈ scheduled.map Prod.fst, r ∈ s.requests) :
    ∃ s', updateAfterSchedule s scheduled = .ok s' := by
  induction scheduled generalizing s with
  | nil => exact ⟨_, rfl⟩
  | cons entry rest ih =>
      obtain ⟨r, n⟩ := entry
      rw [List.map_cons, List.forall_mem_cons] at h
      unfold updateAfterSchedule
      rw [if_neg (not_not.mpr h.1)]
      exact ih h.2

/-- What follows the loops does not fail. -/
theorem Loops.finish_total : ∃ result, l.finish = .ok result := by
  have hb := Loops.batch hready.settled.partition hloops
  have hbudgeted := hloops.budgeted hready
  have hkeys : ∀ r ∈ l.numScheduledTokens.keys, r ∈ l.scheduler.requests := fun r hr =>
    hb.partition.known_of_running (hb.running r ((hb.keys r).mp hr))
  -- whoever is in the batch has its blocks and its tokens noted
  have hnew : ∀ s' : Scheduler H, ∃ data,
      StepState.makeNewRequestData { l with scheduler := s' } = .ok data := by
    intro s'
    cases hdata : StepState.makeNewRequestData { l with scheduler := s' } with
    | ok data => exact ⟨data, rfl⟩
    | error e =>
        obtain ⟨r, hr, herror⟩ := mapM_error hdata
        have hkey := (hb.blocks r).mpr (List.mem_append_right _ hr)
        obtain ⟨blocks, hfind⟩ := (Dict.mem_keys_iff ..).mp hkey
        dsimp only at herror
        rw [hfind] at herror
        cases herror
  have hcached : ∀ s' : Scheduler H, ∃ data,
      StepState.makeCachedRequestData { l with scheduler := s' } = .ok data := by
    intro s'
    unfold makeCachedRequestData
    dsimp only
    split
    · rename_i e hentries
      obtain ⟨r, hr, herror⟩ := mapM_error hentries
      have hmem : r ∈ l.batch := List.mem_append_left _ hr
      obtain ⟨n, hn⟩ := (Dict.mem_keys_iff ..).mp ((hb.keys r).mpr hmem)
      obtain ⟨blocks, hblocks⟩ := (Dict.mem_keys_iff ..).mp ((hb.blocks r).mpr hmem)
      rw [hn, hblocks] at herror
      cases herror
    · exact ⟨_, rfl⟩
  have hrows : ∀ s' : Scheduler H, s'.requests = l.scheduler.requests →
      ∃ rows, StepState.structuredOutputRows { l with scheduler := s' } = .ok rows := by
    intro s' hsame
    unfold structuredOutputRows
    dsimp only
    rw [if_neg]
    · exact ⟨_, rfl⟩
    · simp only [Bool.not_eq_true, List.any_eq_false, decide_eq_true_eq, not_not]
      intro r hr
      rw [hsame]
      exact hkeys r hr
  unfold finish
  dsimp only
  have htokens := hbudgeted.tokens
  have hsum : l.numScheduledTokens.total id = (l.numScheduledTokens.items.map (·.2)).sum := rfl
  rw [if_neg (by omega), if_neg (Nat.not_lt.mpr hbudgeted.seats), restoreSkippedWaiting_frame]
  obtain ⟨new, hnew⟩ := hnew { l.scheduler with
    waiting := l.scheduler.restoreSkippedWaiting.waiting
    skippedWaiting := l.scheduler.restoreSkippedWaiting.skippedWaiting }
  obtain ⟨cached, hcached⟩ := hcached { l.scheduler with
    waiting := l.scheduler.restoreSkippedWaiting.waiting
    skippedWaiting := l.scheduler.restoreSkippedWaiting.skippedWaiting }
  obtain ⟨rows, hrows⟩ := hrows { l.scheduler with
    waiting := l.scheduler.restoreSkippedWaiting.waiting
    skippedWaiting := l.scheduler.restoreSkippedWaiting.skippedWaiting } rfl
  rw [hnew]
  dsimp only
  rw [hcached]
  dsimp only
  rw [hrows]
  dsimp only
  obtain ⟨s', hafter⟩ := @updateAfterSchedule_total _ { l.scheduler with
    waiting := l.scheduler.restoreSkippedWaiting.waiting
    skippedWaiting := l.scheduler.restoreSkippedWaiting.skippedWaiting
    encoderCacheManager := l.scheduler.encoderCacheManager.getFreedMmHashes.2
    connector := l.scheduler.connector.map (·.buildConnectorMeta.2)
    stepIndex := l.scheduler.stepIndex + 1 } l.numScheduledTokens.items hkeys
  rw [hafter]
  exact ⟨_, rfl⟩

end StepState

/-! ### The other calls -/

/-- A request that does not pool has parameters to sample with. -/
def Request.Samples (request : Request H) : Prop :=
  request.usePooling = false → request.samplingParams.isSome = true

omit [DecidableEq H] in
theorem Request.Samples.keeps {request request' : Request H} (h : request.Samples)
    (hkeeps : request.Keeps request') : request'.Samples := by
  unfold Samples
  rw [hkeeps.eq]
  exact h

omit [DecidableEq H] in
theorem checkStop_total {request : Request H} {maxModelLen : ℕ}
    (hparams : request.samplingParams.isSome = true) (houtput : request.outputTokenIds ≠ []) :
    ∃ result, checkStop request maxModelLen = .ok result := by
  obtain ⟨params, hparams⟩ := Option.isSome_iff_exists.mp hparams
  unfold checkStop
  rw [hparams, List.getLast?_eq_some_getLast houtput]
  dsimp only
  split
  · exact ⟨_, rfl⟩
  split
  · exact ⟨_, rfl⟩
  split
  · exact ⟨_, rfl⟩
  split
  · exact ⟨_, rfl⟩
  · exact ⟨_, rfl⟩

namespace Scheduler

variable {s s' : Scheduler H} {r : RequestId}

omit [DecidableEq H] in
theorem updateRequestWithOutput_total {maxModelLen : ℕ} {request : Request H}
    {tokenIds : List TokenId} (hparams : request.samplingParams.isSome = true) :
    ∃ result, updateRequestWithOutput maxModelLen request tokenIds = .ok result := by
  induction tokenIds generalizing request with
  | nil => exact ⟨_, rfl⟩
  | cons tokenId tokenIds ih =>
      have hframe : (request.appendOutputTokenIds tokenId).samplingParams =
          request.samplingParams := by
        rw [Request.appendOutputTokenIds, Request.updateBlockHashes_frame]
      have hsome : (request.appendOutputTokenIds tokenId).outputTokenIds ≠ [] := by
        rw [Request.appendOutputTokenIds, Request.updateBlockHashes_frame]
        simp
      obtain ⟨⟨stopped, request'⟩, hstop⟩ : ∃ result,
          checkStop (request.appendOutputTokenIds tokenId) maxModelLen = .ok result :=
        checkStop_total (hframe ▸ hparams) hsome
      unfold updateRequestWithOutput
      rw [hstop]
      cases stopped with
      | true => exact ⟨_, rfl⟩
      | false =>
          obtain ⟨status, stopReason, heq, hsame, -⟩ := checkStop_ok hstop
          obtain ⟨rfl, rfl⟩ := hsame rfl
          rw [Request.ended_self] at heq
          subst heq
          obtain ⟨⟨kept, stopped, request''⟩, hrest⟩ := ih (hframe ▸ hparams)
          dsimp only
          rw [hrest]
          exact ⟨_, rfl⟩

theorem freeRequest_total (hfinished : (s.request r).isFinished = true)
    (hfree : ∃ kv, s.kvCacheManager.free r = .ok kv) : ∃ s', s.freeRequest r = .ok s' := by
  obtain ⟨kv, hfree⟩ := hfree
  unfold freeRequest
  dsimp only
  rw [hfinished, if_neg Bool.noConfusion, hfree]
  exact ⟨_, rfl⟩

end Scheduler

namespace UpdateState

variable {u : UpdateState H} {r : RequestId} {rest : List RequestId}
  (schedulerOutput : SchedulerOutput) (modelRunnerOutput : ModelRunnerOutput)

omit [DecidableEq H] in
theorem applyOutput_total {s : Scheduler H} {generated : List TokenId}
    {poolingOutput : Option PoolingOutput} (hsamples : (s.request r).Samples) :
    ∃ result, applyOutput s r generated poolingOutput = .ok result := by
  unfold applyOutput
  dsimp only
  split
  · split
    · exact ⟨_, rfl⟩
    · exact ⟨_, rfl⟩
  · rename_i hpooling
    obtain ⟨⟨kept, stopped, request⟩, hok⟩ : ∃ result, Scheduler.updateRequestWithOutput
        s.config.maxModelLen (s.request r) generated = .ok result :=
      Scheduler.updateRequestWithOutput_total (hsamples (by simpa using hpooling))
    rw [hok]
    exact ⟨_, rfl⟩

theorem updateOne_total (horder : ∃ free, u.scheduler.kvCacheManager.InOrder free)
    (hsamples : (u.scheduler.request r).Samples) :
    ∃ u', u.updateOne schedulerOutput modelRunnerOutput r = .ok u' := by
  obtain ⟨free, horder⟩ := horder
  obtain ⟨kv, free', hfree, -⟩ := KVCacheManager.free_spec horder r
  unfold updateOne
  split
  · exact ⟨_, rfl⟩
  dsimp only
  obtain ⟨drafts, accepted, hroll⟩ := rollBack_eq u r
    (schedulerOutput.scheduledSpecDecodeTokens.findD r []).length
    ((Scheduler.atIndex modelRunnerOutput r modelRunnerOutput.sampledTokenIds).getD []).length
  rw [hroll]
  set s : Scheduler H := { u.scheduler with
    request := Function.update u.scheduler.request r
      ((u.scheduler.request r).withNumComputedTokens _)
    numDraftTokensTotal := drafts
    numAcceptedTokensTotal := accepted } with hs
  have hrolled : (s.request r).Samples := by
    rw [hs]
    dsimp only
    rw [Function.update_self]
    exact hsamples
  obtain ⟨⟨kept, stopped, vector, request⟩, happly⟩ := applyOutput_total hrolled
  rw [happly]
  obtain ⟨hfolds, -⟩ := applyOutput_ok happly
  cases stopped with
  | false => exact ⟨_, rfl⟩
  | true =>
      obtain ⟨s', hrelease⟩ :
          ∃ s', (s.modifyRequest r fun _ => request).freeRequest r = .ok s' := by
        refine Scheduler.freeRequest_total ?_ ⟨kv, hfree⟩
        dsimp only [Scheduler.modifyRequest]
        rw [Function.update_self]
        exact hfolds.finished rfl
      dsimp only
      rw [if_pos rfl, hrelease]
      exact ⟨_, rfl⟩

theorem updateAll_total (h : Scheduler.UpdateSettled u rest)
    (hsamples : ∀ r ∈ rest, (u.scheduler.request r).Samples) :
    ∃ u', updateAll schedulerOutput modelRunnerOutput u rest = .ok u' := by
  induction rest generalizing u with
  | nil => exact ⟨_, rfl⟩
  | cons r rest ih =>
      obtain ⟨u', hone⟩ := updateOne_total schedulerOutput modelRunnerOutput h.partition.order
        (hsamples r List.mem_cons_self)
      have hstep := updateOne_outcome hone
      obtain ⟨u'', hall⟩ := ih (h.step hstep) fun r' hr' =>
        (hsamples r' (List.mem_cons_of_mem _ hr')).keeps (hstep.keeps r')
      unfold updateAll
      rw [hone]
      exact ⟨u'', hall⟩

end UpdateState

namespace Scheduler

variable {s s' : Scheduler H} {r : RequestId}

theorem shedAll_total {l : List RequestId} (horder : ∃ free, s.kvCacheManager.InOrder free) :
    ∃ s', s.shedAll l = .ok s' := by
  induction l generalizing s with
  | nil => exact ⟨_, rfl⟩
  | cons r rest ih =>
      obtain ⟨free, horder⟩ := horder
      obtain ⟨m', free', hshed, horder', -⟩ :=
        KVCacheManager.removeSkippedBlocks_spec horder (s.request r)
      unfold shedAll
      rw [hshed]
      dsimp only
      apply ih
      split
      · exact ⟨free', horder'⟩
      · exact ⟨free', horder'⟩

theorem Settled.updateFromOutput_total (h : s.Settled)
    (hsamples : ∀ r ∈ s.running, (s.request r).Samples)
    (schedulerOutput : SchedulerOutput) (modelRunnerOutput : ModelRunnerOutput) :
    ∃ result, s.updateFromOutput schedulerOutput modelRunnerOutput = .ok result := by
  have hstart : UpdateSettled ⟨s, .empty, []⟩ s.running := ⟨h.partition, h.skipped⟩
  obtain ⟨u, hall⟩ := UpdateState.updateAll_total schedulerOutput modelRunnerOutput hstart hsamples
  have hsettled : UpdateSettled u [] := UpdateState.updateAll_invariant hall hstart
    fun _ _ _ _ hstep hs => hs.step hstep
  obtain ⟨s₁, hshed⟩ : ∃ s₁, u.scheduler.shedAll u.stillRunning = .ok s₁ :=
    shedAll_total hsettled.partition.order
  unfold Scheduler.updateFromOutput
  rw [hall]
  dsimp only
  rw [hshed]
  exact ⟨_, rfl⟩

theorem Settled.finishOne_total (h : s.Settled) {finishedStatus : RequestStatus}
    (hfinished : finishedStatus.isFinished = true) (r : RequestId) :
    ∃ s', s.finishOne finishedStatus r = .ok s' := by
  obtain ⟨free, horder⟩ := h.partition.order
  obtain ⟨kv, free', hfree, -⟩ := KVCacheManager.free_spec horder r
  have hrelease : ∀ s₁ : Scheduler H, s₁.kvCacheManager = s.kvCacheManager →
      ∃ s', (s₁.modifyRequest r (·.withStatus finishedStatus)).freeRequest r = .ok s' := by
    intro s₁ hkv
    refine freeRequest_total ?_ ⟨kv, ?_⟩
    · dsimp only [modifyRequest]
      rw [Function.update_self]
      exact hfinished
    · exact hkv ▸ hfree
  unfold Scheduler.finishOne
  split
  · exact ⟨_, rfl⟩
  rename_i hhere
  rw [not_or, not_not] at hhere
  by_cases hstatus : (s.request r).status = .running
  · dsimp only
    rw [if_pos hstatus, if_pos ((h.partition.status_iff).mp hstatus)]
    exact hrelease _ rfl
  · have hwaiting : r ∈ s.waiting.items := by
      have hmem := h.partition.perm.mem_iff.mp hhere.1
      rw [h.queued_eq] at hmem
      exact (List.mem_append.mp hmem).resolve_left fun hrunning =>
        hstatus (h.partition.status r hrunning)
    obtain ⟨waiting, hremove⟩ := RequestQueue.removeRequest_exists hwaiting
    dsimp only
    rw [if_neg hstatus, hremove]
    exact hrelease _ rfl

theorem Settled.finishRequests_total (h : s.Settled) {finishedStatus : RequestStatus}
    (hfinished : finishedStatus.isFinished = true) (requestIds : List RequestId) :
    ∃ s', s.finishRequests requestIds finishedStatus = .ok s' := by
  unfold Scheduler.finishRequests
  rw [if_pos hfinished]
  induction requestIds generalizing s with
  | nil => exact ⟨_, rfl⟩
  | cons r rest ih =>
      obtain ⟨s₁, hone⟩ := h.finishOne_total hfinished r
      unfold finishAll
      rw [hone]
      exact ih (h.finishOne hfinished hone)

/-- A call finds its way through. -/
theorem Ready.schedule_exists (h : s.Ready) : ∃ result, s.schedule = .ok result := by
  rcases schedule_total s with ⟨l, hloops, -, hfinish⟩ | ⟨l, e, hloops, herror, -⟩
  · rw [hfinish]
    exact hloops.finish_total h
  · obtain ⟨l', hok⟩ := hloops.advance_total h
    rw [herror] at hok
    cases hok

/-! ### Over a run -/

/-- Where there is no connector there will be none. -/
theorem Step.unconnected {event : Event} (hstep : Step s event s') (h : s.connector = none) :
    s'.connector = none := by
  cases hstep with
  | addRequest hrequest hfresh =>
      rw [addRequest_eq]
      exact h
  | finishRequests hok =>
      obtain ⟨-, hall⟩ := finishRequests_ok hok
      refine finishAll_invariant (P := fun s => s.connector = none) hall h
        fun s₁ s₂ r _ hone hs => ?_
      rcases finishOne_ok hone with ⟨-, rfl⟩ | ⟨-, _, _, _, _, _, -, -, hconnector, rfl⟩
      · exact hs
      · dsimp only
        rw [hconnector, hs]
        rfl
  | schedule hok =>
      obtain ⟨l, hloops, -, hfinishes⟩ := schedule_ok hok
      have hl : l.Unconnected :=
        hloops.invariant ⟨h, fun _ _ _ _ _ _ hnext => Phase.noConfusion hnext⟩
          fun _ _ hstep hl => hstep.unconnected hl
      rw [hfinishes.connector, hl.connector]
      rfl
  | updateFromOutput hok =>
      obtain ⟨u, s₁, hall, hshed, -, rfl⟩ := updateFromOutput_ok hok
      have hu : u.scheduler.connector = none := by
        refine UpdateState.updateAll_invariant (P := fun u _ => u.scheduler.connector = none)
          hall h fun u u' r rest hstep hu => ?_
        cases hstep with
        | skip hscheduled => exact hu
        | goOn hscheduled hfolds hkept hpooled houtputs => exact hu
        | stop hscheduled hfolds hkept houtput hfree hconnector =>
            dsimp only
            rw [hconnector, hu]
            rfl
      obtain ⟨-, heq⟩ := shedAll_ok (P := fun _ => True) hshed trivial fun _ _ _ _ _ _ => trivial
      rw [heq]
      exact hu
  | resetPrefixCache => exact h
  | grammar hcompiling => exact h
  | sharedStore hconnector =>
      rw [h] at hconnector
      cases hconnector

theorem init_maxModelLen {config : SchedulerConfig} {kvCacheConfig : KVCacheConfig}
    {enableCaching : Bool} {hashFn : HashInput H → H} {seed : ℕ}
    {connector : Option (SimSharedStoreConnector H)}
    (h : init config kvCacheConfig enableCaching hashFn seed connector = .ok s) :
    s.kvCacheManager.maxModelLen = config.maxModelLen := by
  unfold init at h
  split at h
  · cases h
  rename_i kv hkv
  split at h
  · cases h
  obtain rfl := Except.ok.inj h
  exact (KVCacheManager.init_inOrder hkv).2.2.1

/-- Runs of plain requests stay within the caps on what runs. -/
theorem run_capacity {events : List Event} (hrun : Run Step s events s') (hsettled : s.Settled)
    (hstart : s.requests = []) (hpolicied : s.Policied) (hplain : PlainEvents events)
    (h : s.Capacity) : s'.Capacity := by
  induction hrun with
  | nil => exact h
  | @snoc events s₁ s₂ event hrun hstep ih =>
      have hplain₁ : PlainEvents events := fun args hmem =>
        hplain args (List.mem_append_left _ hmem)
      have hsettled₁ := run_settled hrun hsettled
      have hconfig := (hstep.policied (run_policied hrun hpolicied).1).2
      refine hstep.capacity hsettled₁ hconfig (fun r hr => ?_) (ih hplain₁)
      rw [(run_plain hrun hstart hplain₁ r hr).mmFeatures]
      exact List.Pairwise.nil

end Scheduler

/-- Only plain requests are added, with prompts and outputs that fit the window and bounds
in order. -/
structure Tame (maxModelLen : ℕ) (events : List Event) : Prop where
  plain : PlainEvents events
  fits : ∀ args, Event.addRequest args ∈ events → args.Fits maxModelLen ∧ args.Bounded

/-- Text requests for some output, prompt and output within the window. -/
theorem Tame.of_text {maxModelLen : ℕ} {events : List Event}
    (h : ∀ args, Event.addRequest args ∈ events → ∃ requestId prompt maxTokens,
      args = .text requestId prompt maxTokens ∧ prompt ≠ [] ∧ 1 ≤ maxTokens ∧
        prompt.length + maxTokens ≤ maxModelLen) : Tame maxModelLen events where
  plain args hmem := by
    obtain ⟨requestId, prompt, maxTokens, rfl, -, -, -⟩ := h args hmem
    exact ⟨rfl, rfl, rfl⟩
  fits args hmem := by
    obtain ⟨requestId, prompt, maxTokens, rfl, hprompt, hmax, hlen⟩ := h args hmem
    refine ⟨⟨hprompt, fun hpooling => Bool.noConfusion hpooling, fun _ => ?_⟩, ?_⟩
    · exact ⟨_, maxTokens, rfl, rfl, hmax, hlen⟩
    · intro params maxTokens hparams hmax
      obtain rfl := Option.some.inj hparams
      exact Nat.zero_le _

/-- Events that add nothing are tame. -/
theorem Tame.append {maxModelLen : ℕ} {events events' : List Event} (h : Tame maxModelLen events)
    (hadded : ∀ event ∈ events', event.added = none) : Tame maxModelLen (events ++ events') := by
  have hold : ∀ args, Event.addRequest args ∈ events ++ events' →
      Event.addRequest args ∈ events := by
    intro args hmem
    rcases List.mem_append.mp hmem with hmem | hmem
    · exact hmem
    · cases hadded _ hmem
  exact ⟨fun args hmem => h.plain args (hold args hmem), fun args hmem =>
    h.fits args (hold args hmem)⟩

/-- What is tame has a tame beginning. -/
theorem Tame.left {maxModelLen : ℕ} {events events' : List Event}
    (h : Tame maxModelLen (events ++ events')) : Tame maxModelLen events where
  plain args hmem := h.plain args (List.mem_append_left _ hmem)
  fits args hmem := h.fits args (List.mem_append_left _ hmem)

namespace Engine

variable {config : SchedulerConfig} {kvCacheConfig : KVCacheConfig} {enableCaching : Bool}
  {hashFn : HashInput H → H} {seed : ℕ} {s₀ : Scheduler H} {e : Engine H} {events : List Event}

/-- Every known request of a tame run stands within its bounds. -/
theorem run_capsFor (hinit : Scheduler.init config kvCacheConfig enableCaching hashFn seed none =
      .ok s₀) (hrun : Run Step ⟨s₀, none⟩ events e) (htame : Tame config.maxModelLen events) :
    ∀ r ∈ e.scheduler.requests, Scheduler.CapsFor e.scheduler r := by
  intro r hr
  obtain ⟨hsettled, hstart, -⟩ := Scheduler.init_settled hinit
  obtain ⟨hpolicied, hconfig⟩ := Scheduler.init_policied hinit
  have hrun' := run_scheduler hrun
  obtain ⟨args, hmem, hid, -⟩ := Scheduler.run_asked hrun' hstart r hr
  refine Scheduler.run_caps hrun' hsettled hpolicied (fun args hmem _ => ?_) ⟨args, hmem, hid⟩
  rw [hconfig]
  exact htame.fits args hmem

/-- Between steps of a tame run a call has what it relies on. -/
theorem run_ready (hinit : Scheduler.init config kvCacheConfig enableCaching hashFn seed none =
      .ok s₀) (hrun : Run Step ⟨s₀, none⟩ events e) (htame : Tame config.maxModelLen events)
    (hnone : e.inFlight = none) : e.scheduler.Ready := by
  obtain ⟨hsettled, hstart, -⟩ := Scheduler.init_settled hinit
  obtain ⟨hpolicied, hconfig⟩ := Scheduler.init_policied hinit
  have hrun' := run_scheduler hrun
  have hcaps := run_capsFor hinit hrun htame
  have hpaced := run_paced hrun (init_paced hinit)
  have hretaining := run_retaining hinit hrun
  have hcontinues := Scheduler.run_continues hrun' hsettled
  obtain ⟨hhasher, hhashed⟩ := Scheduler.run_hashedAs hrun' hsettled hstart
  have hplain := Scheduler.run_plain hrun' hstart htame.plain
  obtain ⟨s, inFlight⟩ := e
  obtain rfl : inFlight = none := hnone
  have hlength := Scheduler.init_maxModelLen hinit
  refine ⟨hpaced.settled, hplain, ?_, hpaced.start, ?_, ?_, fun r hr => ?_, fun r hr => ?_, ?_⟩
  · exact hrun'.invariant (P := fun _ s => s.connector = none) (Scheduler.init_connector hinit)
      fun _ _ _ _ _ h hstep => hstep.unconnected h
  · exact Scheduler.run_capacity hrun' hsettled hstart hpolicied htame.plain
      (Scheduler.init_capacity hinit)
  · rw [hhasher]
    exact hhashed
  · exact hretaining.standing r hr
  · have hconfig' := (Scheduler.run_policied hrun' hpolicied).2
    have hfits := (hcaps r hr).fits.numTokens_le (hcaps r hr).output
    rw [hconfig', hconfig, ← hlength, ← hcontinues.setup.maxModelLen] at hfits
    exact hfits
  · rw [hcontinues.setup.maxModelLen, hlength, ← hconfig]
    exact congrArg _ (Scheduler.run_policied hrun' hpolicied).2.symm

/-- No call fails, whatever comes next. -/
structure Unfailing (e : Engine H) : Prop where
  schedule : e.inFlight = none → ∃ result, e.scheduler.schedule = .ok result
  updateFromOutput : ∀ schedulerOutput modelRunnerOutput, ∃ result,
    e.scheduler.updateFromOutput schedulerOutput modelRunnerOutput = .ok result
  finishRequests : ∀ requestIds finishedStatus, finishedStatus.isFinished = true →
    ∃ s', e.scheduler.finishRequests requestIds finishedStatus = .ok s'

/-- In every run of plain requests that fit the window, over whatever groups and under
either policy, no call fails. -/
theorem run_unfailing (hinit : Scheduler.init config kvCacheConfig enableCaching hashFn seed none =
      .ok s₀) (hrun : Run Step ⟨s₀, none⟩ events e) (htame : Tame config.maxModelLen events) :
    e.Unfailing := by
  obtain ⟨hsettled, hstart, -⟩ := Scheduler.init_settled hinit
  have hsettled' := Scheduler.run_settled (run_scheduler hrun) hsettled
  refine ⟨fun hnone => (run_ready hinit hrun htame hnone).schedule_exists, ?_, ?_⟩
  · refine hsettled'.updateFromOutput_total fun r hr hpooling => ?_
    have hknown := hsettled'.partition.known_of_running hr
    obtain ⟨args, -, -, hasked⟩ := Scheduler.run_asked (run_scheduler hrun) hstart r hknown
    rw [hasked.samplingParams, ← Option.not_isNone, hasked.exclusive, ← hasked.usePooling, hpooling]
    rfl
  · exact fun requestIds finishedStatus hfinished =>
      hsettled'.finishRequests_total hfinished requestIds

theorem run_unfailing_window : ∃ e : Engine Digest, e.scheduler.running = [1] ∧
    e.inFlight = none ∧ e.Unfailing := by
  obtain ⟨⟨s₀, request, output, s₁, outputs, s₂⟩, hrun, hcheck⟩ :=
    exists_of_okAnd (x := windowRun [1, 2, 3, 4, 5, 6, 7])
      (p := fun (_, _, output, s₁, _, s₂) =>
        decide (Answers s₁ output (answerOne 1 [7] [])) && decide (s₂.running = [1]))
      (by decide +kernel)
  rw [Bool.and_eq_true, decide_eq_true_eq, decide_eq_true_eq] at hcheck
  obtain ⟨hinit, hsteps⟩ := windowRun_reaches hrun hcheck.1
  refine ⟨⟨s₂, none⟩, hcheck.2, rfl, run_unfailing hinit hsteps (Tame.of_text fun args hmem => ?_)⟩
  obtain rfl : args = .text 1 [1, 2, 3, 4, 5, 6, 7] 8 := by simpa using hmem
  exact ⟨1, _, 8, rfl, List.cons_ne_nil _ _, by decide, by decide⟩

end Engine

end Pvllm
