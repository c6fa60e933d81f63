import Pvllm.KVTransfer.Publication
import Pvllm.Core.Sched.Loads
import Pvllm.Core.Sched.Survivors

/-!
What a step puts in the shared store.

A call of `schedule` only asks. A request that leaves, ended from outside or by its
last result, has its first blocks written as it goes; what is new in the store after a
step is of such a request.
-/

namespace Pvllm

variable {H : Type} [DecidableEq H]

/-- The key is in the store of the connector. -/
def InStore (connector : Option (SimSharedStoreConnector H)) (key : StoreKey H) : Prop :=
  ∃ asked, connector = some asked ∧ key ∈ asked.store.resident

omit [DecidableEq H] in
theorem inStore_congr {connector connector' : Option (SimSharedStoreConnector H)}
    (h : connector'.map (·.store.resident) = connector.map (·.store.resident)) (key : StoreKey H) :
    InStore connector' key ↔ InStore connector key := by
  have hkey : ∀ connector : Option (SimSharedStoreConnector H), InStore connector key ↔
      ∃ resident, connector.map (·.store.resident) = some resident ∧ key ∈ resident := by
    intro connector
    constructor
    · rintro ⟨asked, rfl, hmem⟩
      exact ⟨_, rfl, hmem⟩
    · rintro ⟨resident, heq, hmem⟩
      obtain ⟨asked, rfl, rfl⟩ := Option.map_eq_some_iff.mp heq
      exact ⟨asked, rfl, hmem⟩
  rw [hkey, hkey, h]

/-! ### A call asks only -/

namespace StepState

variable {l l' : StepState H}

theorem Asked.resident {connector connector' : Option (SimSharedStoreConnector H)}
    (h : Asked connector connector') :
    connector'.map (·.store.resident) = connector.map (·.store.resident) := by
  rcases h with rfl | ⟨asked, request, n, rfl, rfl⟩
  · rfl
  · obtain ⟨lookups, hits, heq⟩ := asked.getNumNewMatchedTokens_frame request n
    rw [Option.map_some, Option.map_some, heq]

theorem Outcome.resident (h : Outcome l l') :
    l'.scheduler.connector.map (·.store.resident) =
      l.scheduler.connector.map (·.store.resident) := by
  cases h with
  | rest hphase => rfl
  | enter hphase => rfl
  | pass hphase hr => rw [disableSpeculation_frame]
  | takeUp hphase hr hn hbudget hspec hlen => rw [disableSpeculation_frame]
  | commit hphase hok => rw [commitRunning_request]
  | preempt hphase hok hvictim hstatus hfree hbatch hinputs => rfl
  | close hphase hs =>
      rcases hs with rfl | ⟨r, hs⟩
      · rfl
      · exact hs.connector.resident
  | setAside hphase hs hfree hpop => exact hs.connector.resident
  | lookUp hphase hs hpreempted hhits hexternal hrunning hn hbudget hlen =>
      exact hs.connector.resident
  | decline hphase hok => rfl
  | @accept r r' hits blocks numLocal numExternal n inputs kv waiting connector loras hphase hok
      hpop hstatus hconnector =>
      subst hconnector
      dsimp only
      split
      · rfl
      · rw [Option.map_map]
        congr 1
        funext asked
        obtain ⟨loads, heq⟩ := asked.updateStateAfterAlloc_frame (l.scheduler.request r')
          (kv.getBlocks r') numExternal
        show (asked.updateStateAfterAlloc ..).store.resident = asked.store.resident
        rw [heq]

theorem Loops.resident (hloops : Loops l l') :
    l'.scheduler.connector.map (·.store.resident) =
      l.scheduler.connector.map (·.store.resident) :=
  hloops.invariant (P := fun l' => l'.scheduler.connector.map (·.store.resident) =
    l.scheduler.connector.map (·.store.resident)) rfl fun _ _ hstep h => hstep.resident.trans h

end StepState

namespace Scheduler

variable {s s₁ s₂ s' : Scheduler H}

/-- A block of a request that the step writes as the request leaves. -/
def Puts (s s' : Scheduler H) (r : RequestId) (i : ℕ) : Prop :=
  r ∈ s.requests ∧ r ∉ s'.requests ∧ ∃ connector, s'.connector = some connector ∧
    i < connector.writtenBlocks (s'.request r)

/-- What is in the store at the end was there before, or is the key of a block put. -/
def Published (s s' : Scheduler H) : Prop :=
  ∀ key, InStore s'.connector key → InStore s.connector key ∨
    ∃ r i connector, Puts s s' r i ∧ s'.connector = some connector ∧
      connector.keyOf (s'.request r) i = some key

omit [DecidableEq H] in
/-- A step within a call that leaves the store and the requests that have left alone. -/
theorem Published.keep (h : Published s s₁) (hconnector : s₂.connector = s₁.connector)
    (hrequests : s₂.requests = s₁.requests)
    (hgone : ∀ r, r ∉ s₁.requests → s₂.request r = s₁.request r) : Published s s₂ := by
  intro key hkey
  rw [hconnector] at hkey
  refine (h key hkey).imp_right ?_
  rintro ⟨r, i, connector, ⟨hknown, hleft, hwritten⟩, hsome, hkeyOf⟩
  refine ⟨r, i, connector, ⟨hknown, hrequests ▸ hleft, ?_⟩, hconnector ▸ hsome, ?_⟩
  · rwa [hconnector, hgone r hleft]
  · rwa [hgone r hleft]

/-- A request that leaves puts in nothing but its own. -/
theorem Published.release (h : Published s s₁) {r : RequestId} {request : Request H}
    (hknown : r ∈ s.requests) (hr : r ∈ s₁.requests) (hnodup : s₁.requests.Nodup)
    (hconnector : s₂.connector = s₁.connector.map (·.requestFinished request))
    (hrequests : s₂.requests = s₁.requests.erase r)
    (htable : s₂.request = Function.update s₁.request r request) : Published s s₂ := by
  rintro key ⟨asked₂, hasked₂, hkey⟩
  rw [hconnector, Option.map_eq_some_iff] at hasked₂
  obtain ⟨asked₁, hasked₁, rfl⟩ := hasked₂
  rw [hasked₁, Option.map_some] at hconnector
  obtain ⟨store, hframe⟩ := asked₁.requestFinished_frame request
  have hsetup : (asked₁.requestFinished request).setup = asked₁.setup := by rw [hframe]; rfl
  rcases SimSharedStoreConnector.mem_requestFinished hkey with hold | ⟨i, hi, hkeyOf⟩
  · -- the requests that left before are none of this one's business
    refine (h key ⟨asked₁, hasked₁, hold⟩).imp_right ?_
    rintro ⟨r', i, connector, ⟨hknown', hleft, connector', hsome', hwritten⟩, hsome, hkeyOf⟩
    obtain rfl := Option.some.inj (hasked₁.symm.trans hsome)
    obtain rfl := Option.some.inj (hasked₁.symm.trans hsome')
    have hne : r' ≠ r := fun heq => hleft (heq ▸ hr)
    have hsame : s₂.request r' = s₁.request r' := by rw [htable, Function.update_of_ne hne]
    obtain ⟨hblocks, hkeys⟩ := SimSharedStoreConnector.writtenBlocks_congr
      hsetup (Eq.refl (s₁.request r').numComputedTokens) (Eq.refl (s₁.request r').blockHashes)
    refine ⟨r', i, _, ⟨hknown', ?_, _, hconnector, ?_⟩, hconnector, ?_⟩
    · rw [hrequests]
      exact fun hin => hleft (List.mem_of_mem_erase hin)
    · rwa [hsame, hblocks]
    · rw [hsame, hkeys, hkeyOf]
  · have hself : s₂.request r = request := by rw [htable, Function.update_self]
    obtain ⟨hblocks, hkeys⟩ := SimSharedStoreConnector.writtenBlocks_congr
      hsetup (Eq.refl request.numComputedTokens) (Eq.refl request.blockHashes)
    refine Or.inr ⟨r, i, _, ⟨hknown, ?_, _, hconnector, ?_⟩, hconnector, ?_⟩
    · rw [hrequests]
      exact hnodup.not_mem_erase
    · rwa [hself, hblocks]
    · rw [hself, hkeys, hkeyOf]

/-- Whom a call of `finish_requests` ends, it ends as they were. -/
theorem finishRequests_published {requestIds : List RequestId} {finishedStatus : RequestStatus}
    (h : s.Settled) (hok : s.finishRequests requestIds finishedStatus = .ok s') :
    Published s s' ∧ ∀ r ∈ s.requests, r ∉ s'.requests →
      r ∈ requestIds ∧ s'.request r = (s.request r).withStatus finishedStatus := by
  obtain ⟨hfinished, hall⟩ := finishRequests_ok hok
  have hend := finishAll_invariant (P := fun s₁ => s₁.Settled ∧ Published s s₁ ∧
      (∀ r ∈ s₁.requests, r ∈ s.requests ∧ s₁.request r = s.request r) ∧
      ∀ r ∈ s.requests, r ∉ s₁.requests →
        r ∈ requestIds ∧ s₁.request r = (s.request r).withStatus finishedStatus)
    hall ⟨h, fun _ hkey => Or.inl hkey, fun r hr => ⟨hr, rfl⟩, fun r hr hnot => absurd hr hnot⟩ ?_
  · exact ⟨hend.2.1, hend.2.2.2⟩
  rintro s₁ s₂ r hr hone ⟨hsettled, hpublished, hstay, hleft⟩
  have hsettled₂ := hsettled.finishOne hfinished hone
  rcases finishOne_ok hone with ⟨-, rfl⟩ | ⟨hknown, _, _, _, _, _, -, -, hconnector, rfl⟩
  · exact ⟨hsettled, hpublished, hstay, hleft⟩
  have hnodup := hsettled.partition.nodup
  refine ⟨hsettled₂, hpublished.release (hstay r hknown).1 hknown hnodup hconnector rfl rfl,
    fun r' hr' => ?_, fun r' hr' hnot => ?_⟩
  · have hne : r' ≠ r := fun heq => hnodup.not_mem_erase (heq ▸ hr')
    show _ ∧ Function.update s₁.request r _ r' = _
    rw [Function.update_of_ne hne]
    exact hstay r' (List.mem_of_mem_erase hr')
  · show _ ∧ Function.update s₁.request r _ r' = _
    by_cases heq : r' = r
    · rw [heq, Function.update_self, (hstay r hknown).2]
      exact ⟨hr, rfl⟩
    · rw [Function.update_of_ne heq]
      exact hleft r' hr' fun hin => hnot ((List.mem_erase_of_ne heq).mpr hin)

theorem updateFromOutput_published {schedulerOutput : SchedulerOutput}
    {modelRunnerOutput : ModelRunnerOutput} {outputs : Dict ℕ (List EngineCoreOutput)}
    (h : s.Settled)
    (hok : s.updateFromOutput schedulerOutput modelRunnerOutput = .ok (outputs, s')) :
    Published s s' := by
  obtain ⟨u, s₁, hall, hshed, -, rfl⟩ := updateFromOutput_ok hok
  obtain ⟨-, hframe⟩ := shedAll_ok (P := fun _ => True) hshed trivial fun _ _ _ _ _ _ => trivial
  have hu := UpdateState.updateAll_invariant (P := fun u rest => UpdateSettled u rest ∧
      Published s u.scheduler ∧ ∀ r ∈ u.scheduler.requests, r ∈ s.requests) hall
    ⟨⟨h.partition, h.skipped⟩, fun _ hkey => Or.inl hkey, fun _ hr => hr⟩ ?_
  · obtain ⟨hsettled, hpublished, -⟩ := hu
    rw [hframe]
    refine hpublished.keep rfl rfl fun r hgone => ?_
    have hnot : r ∉ u.stillRunning := fun hr =>
      hgone (hsettled.partition.known_of_running (List.mem_append_left _ hr))
    show draftedTable modelRunnerOutput u.stillRunning u.scheduler.request r = _
    rw [draftedTable, if_neg hnot]
  rintro u u' r rest hone ⟨hsettled, hpublished, hstay⟩
  have hsettled' := hsettled.step hone
  have hknown : r ∈ u.scheduler.requests := hsettled.partition.known_of_running
    (List.mem_append_right _ List.mem_cons_self)
  have hother : ∀ request : Request H, ∀ r', r' ∉ u.scheduler.requests →
      Function.update u.scheduler.request r request r' = u.scheduler.request r' := by
    intro request r' hr'
    have hne : r' ≠ r := fun heq => hr' (heq ▸ hknown)
    rw [Function.update_of_ne hne]
  cases hone with
  | skip hscheduled => exact ⟨hsettled', hpublished, hstay⟩
  | goOn hscheduled hfolds hkept hpooled houtputs =>
      exact ⟨hsettled', hpublished.keep rfl rfl (hother _), hstay⟩
  | stop hscheduled hfolds hkept houtput hfree hconnector =>
      refine ⟨hsettled', ?_, fun r' hr' => hstay r' (List.mem_of_mem_erase hr')⟩
      exact hpublished.release (hstay r hknown) hknown hsettled.partition.nodup hconnector rfl rfl

/-- What is new in the store after a step of the scheduler is of a request that left
in it. -/
theorem Step.published {event : Event} (hstep : Step s event s') (h : s.Settled)
    (hours : event ≠ .sharedStore) : Published s s' := by
  cases hstep with
  | addRequest hrequest hfresh =>
      rw [addRequest_eq]
      exact fun _ hkey => Or.inl hkey
  | finishRequests hok => exact (finishRequests_published h hok).1
  | schedule hok =>
      obtain ⟨l, hloops, -, hfinishes⟩ := schedule_ok hok
      intro key hkey
      refine Or.inl ((inStore_congr ?_ key).mp hkey)
      rw [hfinishes.connector, Option.map_map]
      exact hloops.resident
  | updateFromOutput hok => exact updateFromOutput_published h hok
  | resetPrefixCache => exact fun _ hkey => Or.inl hkey
  | grammar hcompiling => exact fun _ hkey => Or.inl hkey
  | sharedStore hconnector => exact absurd rfl hours

/-- Only the calls that end requests let any go. -/
theorem Step.stays {event : Event} (hstep : Step s event s')
    (hfinish : ∀ requestIds finishedStatus, event ≠ .finishRequests requestIds finishedStatus)
    (hupdate : ∀ schedulerOutput modelRunnerOutput outputs,
      event ≠ .updateFromOutput schedulerOutput modelRunnerOutput outputs) :
    ∀ r ∈ s.requests, r ∈ s'.requests := by
  cases hstep with
  | addRequest hrequest hfresh =>
      rw [addRequest_eq]
      intro r hr
      show r ∈ EncoderCacheManager.insertNew s.requests _
      unfold EncoderCacheManager.insertNew
      split
      · exact hr
      · exact List.mem_append_left _ hr
  | finishRequests hok => exact absurd rfl (hfinish _ _)
  | schedule hok =>
      obtain ⟨l, hloops, -, hfinishes⟩ := schedule_ok hok
      rw [hfinishes.state, StepState.restoreSkippedWaiting_frame]
      exact fun r hr => hloops.static.2.1.symm ▸ hr
  | updateFromOutput hok => exact absurd rfl (hupdate _ _ _)
  | resetPrefixCache => exact fun _ hr => hr
  | grammar hcompiling => exact fun _ hr => hr
  | sharedStore hconnector => exact fun _ hr => hr

end Scheduler

end Pvllm
