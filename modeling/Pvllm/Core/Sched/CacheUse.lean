import Pvllm.Core.EncoderAccounts
import Pvllm.Core.Sched.Holders

/-!
The calls of the scheduler on the encoder cache.

Whatever the scheduler does is a sequence of calls on the cache, so that what holds of all
sequences holds of those it makes. It may free an input while the request holds another one
with the same hash, and then the accounts are out of order.
-/

namespace Pvllm

/-- One cache becomes another through calls alone. -/
def Called (features : RequestId → List MultiModalFeatureSpec)
    (cache cache' : EncoderCacheManager) : Prop :=
  ∃ calls, Run CacheUse.Step ⟨features, cache⟩ calls ⟨features, cache'⟩

variable {features : RequestId → List MultiModalFeatureSpec}
  {cache cache' cache'' : EncoderCacheManager}

namespace Called

theorem refl (cache : EncoderCacheManager) : Called features cache cache := ⟨[], .nil⟩

theorem trans (h : Called features cache cache') (h' : Called features cache' cache'') :
    Called features cache cache'' := by
  obtain ⟨calls, hrun⟩ := h
  obtain ⟨calls', hrun'⟩ := h'
  exact ⟨calls ++ calls', hrun.append hrun'⟩

theorem step {call : CacheCall} (hstep : CacheUse.Step ⟨features, cache⟩ call ⟨features, cache'⟩) :
    Called features cache cache' :=
  ⟨_, Run.nil.snoc hstep⟩

/-- Inputs given back one after another. -/
theorem freeInputs {r : RequestId} {entries : List (ℕ × MultiModalFeatureSpec)}
    (hentries : ∀ entry ∈ entries, (features r)[entry.1]? = some entry.2) :
    Called features cache (cache.freeInputs r entries) := by
  induction entries generalizing cache with
  | nil => exact .refl cache
  | cons entry entries ih =>
      obtain ⟨hfirst, hrest⟩ := List.forall_mem_cons.mp hentries
      exact (Called.step (.freeEncoderInput hfirst)).trans (ih hrest)

end Called

variable {H : Type} [DecidableEq H]

/-! ### The loops of `schedule` -/

namespace Scheduler

omit [DecidableEq H] in
theorem scheduleEncoderLoop_called {request : Request H} {n maxTokens budget budget' n' : ℕ}
    {items : List (ℕ × MultiModalFeatureSpec)} {scheduled ids : List ℕ}
    (hitems : ∀ item ∈ items, (features request.requestId)[item.1]? = some item.2)
    (h : scheduleEncoderLoop request n maxTokens items scheduled budget cache =
      .ok (n', ids, budget', cache')) : Called features cache cache' := by
  induction items generalizing scheduled budget cache with
  | nil =>
      simp only [scheduleEncoderLoop, Except.ok.injEq, Prod.mk.injEq] at h
      obtain ⟨-, -, -, rfl⟩ := h
      exact .refl cache
  | cons item items ih =>
      obtain ⟨i, feature⟩ := item
      obtain ⟨hfeature, hitems⟩ := List.forall_mem_cons.mp hitems
      simp only [scheduleEncoderLoop] at h
      split at h
      · exact ih hitems h
      split at h
      · exact ih hitems h
      -- the lookup of `has_cache`, and its count
      have hlookup : Called features cache (cache.recordLookup (cache.hasCache feature)) :=
        (Called.step (.hasCache hfeature)).trans (.step .recordLookup)
      refine hlookup.trans ?_
      split at h
      · exact (Called.step (.allocate hfeature)).trans (ih hitems h)
      split at h
      · cases h
      split at h
      · simp only [Except.ok.injEq, Prod.mk.injEq] at h
        obtain ⟨-, -, -, rfl⟩ := h
        exact .refl _
      split at h
      · cases h
      · rename_i hcan
        simp only [Except.ok.injEq, Prod.mk.injEq] at h
        obtain ⟨-, -, -, rfl⟩ := h
        exact .step (.canAllocate hfeature hcan)
      · rename_i hcan
        exact (Called.step (.canAllocate hfeature hcan)).trans
          ((Called.step (.allocate hfeature)).trans (ih hitems h))

omit [DecidableEq H] in
theorem scheduleEncoder_called {s : Scheduler H} {r : RequestId} {n n' budget budget' : ℕ}
    {ids : List ℕ} (hid : (s.request r).requestId = r)
    (hfeatures : (s.request r).mmFeatures = features r)
    (h : s.scheduleEncoder r n budget = .ok (n', ids, budget', cache')) :
    Called features s.encoderCacheManager cache' := by
  unfold scheduleEncoder at h
  dsimp only at h
  split at h
  · simp only [Except.ok.injEq, Prod.mk.injEq] at h
    obtain ⟨-, -, -, rfl⟩ := h
    exact .refl _
  · refine scheduleEncoderLoop_called (fun item hitem => ?_) h
    rw [hid, ← hfeatures]
    exact mem_itemsOf.mp hitem

end Scheduler

namespace StepState

variable {s : Scheduler H} {l l' : StepState H}

omit [DecidableEq H] in
theorem release_called (l : StepState H) (r : RequestId) (ids : List ℕ)
    (hfeatures : (l.scheduler.request r).mmFeatures = features r) :
    Called features l.scheduler.encoderCacheManager
      (l.releaseEncoderReservation r ids).encoderPart.cache := by
  refine Called.freeInputs fun entry hentry => ?_
  rw [← hfeatures]
  exact (EncoderCacheManager.mem_entriesOf.mp hentry).2

theorem Encodes.called (h : Encodes l l') (hb : Batch l)
    (hfeatures : ∀ r, (l.scheduler.request r).mmFeatures = features r) :
    Called features l.scheduler.encoderCacheManager l'.scheduler.encoderCacheManager := by
  have hid := hb.partition.requestId
  cases h with
  | still hpart hbefore hafter hrunning =>
      simp only [encoderPart, EncoderPart.mk.injEq] at hpart
      rw [hpart.1]
      exact .refl _
  | @reserveRunning r n n' ids hphase hr hn hok hnext hrunning =>
      have hkeeps := (disableSpeculation_keeps l.scheduler r r).encoder
      have hcalled := Scheduler.scheduleEncoder_called (hkeeps.1.trans (hid r))
        (hkeeps.2.trans (hfeatures r)) hok
      rwa [disableSpeculation_frame] at hcalled
  | @reserveWaiting s r n n' ids hphase hs hcache hn hok hinputs hrequest hnext hrunning =>
      have hkeeps := (hs.keeps r).encoder
      have hcalled := Scheduler.scheduleEncoder_called (hkeeps.1.trans (hid r))
        (hkeeps.2.trans (hfeatures r)) hok
      rwa [hcache] at hcalled
  | @release r victim n kv hphase hdeclined hvictim hpart hnext hrunning =>
      have hcache := congrArg EncoderPart.cache hpart
      change l'.scheduler.encoderCacheManager = _ at hcache
      rw [hcache]
      exact release_called l victim _ (hfeatures victim)
  | place hphase hcache hbudget hinputs hnext hrunning =>
      rw [hcache]
      exact .refl _
  | @decline r hits numLocal numExternal n ids kv hphase hdeclined hpart hnext hrunning =>
      have hcache := congrArg EncoderPart.cache hpart
      change l'.scheduler.encoderCacheManager = _ at hcache
      rw [hcache]
      exact release_called l r _ (hfeatures r)

theorem Loops.called (hloops : Loops (start s) l) (hpart : s.Partitioned) :
    Called (fun r => (s.request r).mmFeatures) s.encoderCacheManager
      l.scheduler.encoderCacheManager := by
  refine hloops.encoding_invariant (P := fun l => Called (fun r => (s.request r).mmFeatures)
    s.encoderCacheManager l.scheduler.encoderCacheManager) hpart (.refl _)
    fun l l' hreach hb hout henc hl => hl.trans (henc.called hb fun r => ?_)
  exact (Loops.keeps hreach r).encoder.2

end StepState

/-! ### Giving back -/

/-- A request that ends. -/
theorem Called.release {H : Type} {request : Request H}
    (hfeatures : request.mmFeatures = features request.requestId) :
    Called features cache (if request.mmFeatures = [] then cache else cache.free request) := by
  split
  · exact .refl cache
  · exact .step (.free hfeatures)

namespace Scheduler

variable {s s' : Scheduler H} {r : RequestId}

theorem finishOne_called {finishedStatus : RequestStatus} (hid : ∀ r, (s.request r).requestId = r)
    (hfeatures : ∀ r, (s.request r).mmFeatures = features r)
    (h : s.finishOne finishedStatus r = .ok s') :
    Called features s.encoderCacheManager s'.encoderCacheManager := by
  rcases finishOne_cache h with rfl | hcache
  · exact .refl _
  · rw [hcache]
    have hitems : ((s.request r).withStatus finishedStatus).mmFeatures =
        features ((s.request r).withStatus finishedStatus).requestId :=
      (hfeatures r).trans (congrArg features (hid r).symm)
    exact Called.release hitems

omit [DecidableEq H] in
theorem shedAll_called {l : List RequestId} (hfeatures : ∀ r, (s.request r).mmFeatures = features r)
    (h : s.shedAll l = .ok s') :
    Called features s.encoderCacheManager s'.encoderCacheManager := by
  induction l generalizing s with
  | nil =>
      obtain rfl := Except.ok.inj h
      exact .refl _
  | cons r rest ih =>
      unfold shedAll at h
      split at h
      · cases h
      rename_i kv hkv
      dsimp only at h
      split at h
      · exact ih (s := { s with kvCacheManager := kv }) hfeatures h
      · obtain ⟨entries, hentries, hcache⟩ :=
          freeEncoderInputs_cache { s with kvCacheManager := kv } r
        have hrest := ih (s := Scheduler.freeEncoderInputs { s with kvCacheManager := kv } r)
          hfeatures h
        rw [hcache] at hrest
        refine (Called.freeInputs fun entry hentry => ?_).trans hrest
        rw [← hfeatures]
        exact hentries entry hentry

theorem finishRequests_called {finishedStatus : RequestStatus} {requestIds : List RequestId}
    (hsettled : s.Settled) (hok : s.finishRequests requestIds finishedStatus = .ok s') :
    Called (fun r => (s.request r).mmFeatures) s.encoderCacheManager s'.encoderCacheManager := by
  obtain ⟨hfinished, hall⟩ := finishRequests_ok hok
  refine (finishAll_invariant (P := fun s' => s'.Settled ∧
    (∀ r, (s.request r).Keeps (s'.request r)) ∧
      Called (fun r => (s.request r).mmFeatures) s.encoderCacheManager s'.encoderCacheManager)
    hall ⟨hsettled, fun r => .refl _, .refl _⟩ ?_).2.2
  rintro s₁ s₂ r - hone ⟨hs, hkeeps, hcalled⟩
  refine ⟨hs.finishOne hfinished hone,
    fun r => (hkeeps r).trans (finishOne_keeps hfinished hone r), hcalled.trans ?_⟩
  exact finishOne_called hs.partition.requestId (fun r => (hkeeps r).encoder.2) hone

theorem updateFromOutput_called {schedulerOutput : SchedulerOutput}
    {modelRunnerOutput : ModelRunnerOutput} {outputs : Dict ℕ (List EngineCoreOutput)}
    (hid : ∀ r, (s.request r).requestId = r)
    (hok : s.updateFromOutput schedulerOutput modelRunnerOutput = .ok (outputs, s')) :
    Called (fun r => (s.request r).mmFeatures) s.encoderCacheManager s'.encoderCacheManager := by
  obtain ⟨u, s₁, hall, hshed, -, rfl⟩ := updateFromOutput_ok hok
  have hu := UpdateState.updateAll_induct (P := fun u _ =>
    (∀ r, (s.request r).Keeps (u.scheduler.request r)) ∧
      Called (fun r => (s.request r).mmFeatures) s.encoderCacheManager
        u.scheduler.encoderCacheManager)
    hall ⟨fun r => .refl _, .refl _⟩ ?_
  · show Called _ _ s₁.encoderCacheManager
    exact hu.2.trans (shedAll_called (fun r => (hu.1 r).encoder.2) hshed)
  · rintro u u' r rest hone ⟨hkeeps, hcalled⟩
    refine ⟨fun r' => (hkeeps r').trans ((UpdateState.updateOne_outcome hone).keeps r'), ?_⟩
    obtain ⟨hsame, hfeatures⟩ := (hkeeps r).encoder
    rcases UpdateState.updateOne_cache hone with
      ⟨-, -, hcache⟩ | ⟨-, -, request, hid', hfeatures', hcache⟩
    · rw [hcache]
      exact hcalled
    · rw [hcache]
      refine hcalled.trans (Called.release ?_)
      rw [hfeatures', hfeatures, hid', hsame, hid]

/-! ### Every call -/

def cacheUse (s : Scheduler H) : CacheUse :=
  ⟨fun r => (s.request r).mmFeatures, s.encoderCacheManager⟩

/-- What a step does to the cache is a sequence of calls. -/
theorem Step.calls {event : Event} (hstep : Step s event s') (hsettled : s.Settled)
    (howned : s.Owned) : ∃ calls, Run CacheUse.Step s.cacheUse calls s'.cacheUse := by
  have hsame : (∀ r, event.added ≠ some r) →
      Called (fun r => (s.request r).mmFeatures) s.encoderCacheManager s'.encoderCacheManager →
      ∃ calls, Run CacheUse.Step s.cacheUse calls s'.cacheUse := by
    rintro hnone ⟨calls, hrun⟩
    refine ⟨calls, ?_⟩
    have hfeatures : (fun r => (s'.request r).mmFeatures) = fun r => (s.request r).mmFeatures := by
      funext r
      exact (hstep.keeps (r := r) (hnone r)).encoder.2
    rw [cacheUse, cacheUse, hfeatures]
    exact hrun
  cases hstep with
  | @addRequest args request hrequest hfresh =>
      obtain ⟨hid, -⟩ := Request.init_ok hrequest
      have hnone : s.encoderCacheManager.getCachedInputIds request.requestId = [] := by
        by_contra hsome
        exact hfresh (hid ▸ howned.known _ hsome)
      refine ⟨[.request request.requestId request.mmFeatures], Run.nil.snoc ?_⟩
      rw [addRequest_eq]
      have hfeatures : (fun r => (Function.update s.request request.requestId
          (s.stored request) r).mmFeatures) = Function.update (fun r => (s.request r).mmFeatures)
            request.requestId request.mmFeatures := by
        funext r
        by_cases heq : r = request.requestId
        · subst heq
          rw [Function.update_self, Function.update_self, stored_frame]
        · rw [Function.update_of_ne heq, Function.update_of_ne heq]
      unfold cacheUse
      dsimp only
      rw [hfeatures]
      exact .request hnone
  | finishRequests hok =>
      exact hsame (fun _ heq => (by cases heq)) (finishRequests_called hsettled hok)
  | schedule hok =>
      refine hsame (fun _ heq => (by cases heq)) ?_
      obtain ⟨l, hloops, -, -, -, hcache, -, -⟩ := schedule_encoder hok
      rw [hcache]
      exact (hloops.called hsettled.partition).trans (.step .getFreedMmHashes)
  | updateFromOutput hok =>
      exact hsame (fun _ heq => (by cases heq))
        (updateFromOutput_called hsettled.partition.requestId hok)
  | resetPrefixCache => exact hsame (fun _ heq => (by cases heq)) (.refl _)
  | grammar hcompiling => exact hsame (fun _ heq => (by cases heq)) (.refl _)
  | sharedStore hconnector => exact hsame (fun _ heq => (by cases heq)) (.refl _)

/-- So is what a run does to it. -/
theorem run_calls {events : List Event} (hrun : Run Step s events s') (hsettled : s.Settled)
    (howned : s.Owned) : ∃ calls, Run CacheUse.Step s.cacheUse calls s'.cacheUse := by
  suffices h : s'.Settled ∧ s'.Owned ∧ ∃ calls, Run CacheUse.Step s.cacheUse calls s'.cacheUse from
    h.2.2
  refine hrun.invariant (P := fun _ s' => s'.Settled ∧ s'.Owned ∧
    ∃ calls, Run CacheUse.Step s.cacheUse calls s'.cacheUse) ⟨hsettled, howned, [], .nil⟩ ?_
  rintro _ s₁ event s₂ - ⟨hsettled, howned, calls, hcalls⟩ hstep
  obtain ⟨calls', hcalls'⟩ := hstep.calls hsettled howned
  exact ⟨hstep.settled hsettled, hstep.owned hsettled howned, _, hcalls.append hcalls'⟩

/-- One image twice in a prompt that is computed in chunks. -/
def twiceArgs (requestId : RequestId) : RequestArgs :=
  { RequestArgs.text requestId [3, 4, 5, 6, 7, 8] 8 with
    mmFeatures := [⟨"a", 0, 2, 2⟩, ⟨"a", 3, 2, 2⟩] }

/-- The first chunk ends inside the second copy. -/
def twiceRun : Except PyError (Request Digest × SchedulerOutput × Scheduler Digest ×
    Scheduler Digest) := do
  let s₀ ← init chunkConfig (shortKVConfig 4) true Digest.hash 0 none
  let request ← Request.init (twiceArgs 1)
  let (output, s₁) ← (s₀.addRequest request).schedule
  let (_, s₂) ← s₁.updateFromOutput output (Engine.answerAll [(1, [], [])])
  return (request, output, s₁, s₂)

/-- The second copy is held, and the entry is queued for eviction. -/
theorem twiceRun_queued : ∃ (s₀ s : Scheduler Digest) (events : List Event),
    init chunkConfig (shortKVConfig 4) true Digest.hash 0 none = .ok s₀ ∧ Run Step s₀ events s ∧
      1 ∈ s.running ∧ s.encoderCacheManager.getCachedInputIds 1 = [1] ∧
      s.encoderCacheManager.freeable = ["a"] ∧ ¬ s.cacheUse.Accounts := by
  obtain ⟨⟨request, output, s₁, s⟩, hrun, hcheck⟩ :=
    exists_of_okAnd (x := twiceRun) (p := fun (_, _, _, s) =>
      decide (1 ∈ s.running ∧ s.encoderCacheManager.getCachedInputIds 1 = [1] ∧
        s.encoderCacheManager.freeable = ["a"] ∧
        (s.request 1).mmFeatures = [⟨"a", 0, 2, 2⟩, ⟨"a", 3, 2, 2⟩] ∧
        s.encoderCacheManager.cached.findD "a" [] = [])) (by decide +kernel)
  obtain ⟨hrunning, hheld, hqueued, hfeatures, hnone⟩ := of_decide_eq_true hcheck
  unfold twiceRun at hrun
  obtain ⟨s₀, hinit, hrun⟩ := except_bind_iff.mp hrun
  obtain ⟨_, hrequest, hrun⟩ := except_bind_iff.mp hrun
  obtain ⟨⟨_, _⟩, hone, hrun⟩ := except_bind_iff.mp hrun
  obtain ⟨⟨_, _⟩, hback, hrun⟩ := except_bind_iff.mp hrun
  cases hrun
  obtain ⟨-, hempty, -⟩ := init_settled hinit
  have hfresh : 1 ∉ s₀.requests := by
    rw [hempty]
    exact List.not_mem_nil
  have hsteps := ((Run.nil.snoc (Step.addRequest hrequest hfresh)).snoc (Step.schedule hone)).snoc
    (Step.updateFromOutput hback)
  refine ⟨s₀, s, _, hinit, hsteps, hrunning, hheld, hqueued, fun haccounts => ?_⟩
  obtain ⟨feature, hfeature, hmem⟩ := haccounts.referenced 1 1 (by
    show 1 ∈ s.encoderCacheManager.getCachedInputIds 1
    rw [hheld]
    exact List.mem_singleton.mpr rfl)
  change (s.request 1).mmFeatures[1]? = some feature at hfeature
  rw [hfeatures] at hfeature
  obtain rfl := Option.some.inj hfeature
  rw [show s.cacheUse.manager = s.encoderCacheManager from rfl, hnone] at hmem
  exact List.not_mem_nil hmem

end Scheduler

end Pvllm
