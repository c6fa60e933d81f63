import Pvllm.Core.EncoderReferences
import Pvllm.Core.Sched.Encoding
import Pvllm.Core.Sched.Identity
import Pvllm.Core.Sched.Budgets

/-!
Who references what in the encoder cache, over a run.

`Reserves` lists what `_schedule_encoder` does item by item, and `Step.gives` says
that every other call only gives references back. `Owned` holds over every run: the
tables of the cache are in order, and only known requests hold anything.
-/

namespace Pvllm

variable {H : Type} [DecidableEq H]

/-- The placeholders of an item meet a span of tokens. -/
def MultiModalFeatureSpec.Meets (feature : MultiModalFeatureSpec) (start stop : ℕ) : Prop :=
  feature.position < stop ∧ start < feature.position + feature.length

instance (feature : MultiModalFeatureSpec) (start stop : ℕ) :
    Decidable (feature.Meets start stop) :=
  inferInstanceAs (Decidable (_ ∧ _))

theorem MultiModalFeatureSpec.meets_iff {feature : MultiModalFeatureSpec} {start stop : ℕ} :
    feature.Meets start stop ↔
      ¬ (stop ≤ feature.position ∨ feature.position + feature.length ≤ start) := by
  unfold Meets
  omega

/-! ### Reserving -/

/-- What `_schedule_encoder` does with the items from one on: the tokens it grants,
the inputs to encode, and the cache it leaves. -/
inductive Reserves (request : Request H) (numNewTokens : ℕ) :
    List (ℕ × MultiModalFeatureSpec) → List ℕ → EncoderCacheManager →
    ℕ → List ℕ → EncoderCacheManager → Prop
  | done {scheduled : List ℕ} {cache : EncoderCacheManager} :
      Reserves request numNewTokens [] scheduled cache numNewTokens scheduled cache
  /-- The span does not meet the item, or the request holds it. -/
  | pass {i n' : ℕ} {feature : MultiModalFeatureSpec} {items : List (ℕ × MultiModalFeatureSpec)}
      {scheduled ids : List ℕ} {cache cache' : EncoderCacheManager}
      (hpass : ¬ feature.Meets request.numComputedTokens
          (request.numComputedTokens + numNewTokens) ∨
        i ∈ cache.getCachedInputIds request.requestId)
      (hrest : Reserves request numNewTokens items scheduled cache n' ids cache') :
      Reserves request numNewTokens ((i, feature) :: items) scheduled cache n' ids cache'
  /-- The item is resident. -/
  | hit {i n' : ℕ} {feature : MultiModalFeatureSpec} {items : List (ℕ × MultiModalFeatureSpec)}
      {scheduled ids : List ℕ} {cache cache' : EncoderCacheManager}
      (hmeets : feature.Meets request.numComputedTokens (request.numComputedTokens + numNewTokens))
      (hresident : cache.hasCache feature = true)
      (hrest : Reserves request numNewTokens items scheduled
        ((cache.recordLookup true).allocate request.requestId i feature) n' ids cache') :
      Reserves request numNewTokens ((i, feature) :: items) scheduled cache n' ids cache'
  /-- The item is to be encoded. -/
  | encode {i n' : ℕ} {feature : MultiModalFeatureSpec}
      {items : List (ℕ × MultiModalFeatureSpec)} {scheduled ids : List ℕ} {evicted : List String}
      {cache cache₁ cache' : EncoderCacheManager}
      (hmeets : feature.Meets request.numComputedTokens (request.numComputedTokens + numNewTokens))
      (hmissing : cache.hasCache feature = false) (hevicts : cache.Evicts cache₁ evicted)
      (hrest : Reserves request numNewTokens items (scheduled ++ [i])
        (cache₁.allocate request.requestId i feature) n' ids cache') :
      Reserves request numNewTokens ((i, feature) :: items) scheduled cache n' ids cache'
  /-- There is no room for the item, whatever is evicted: the span ends before it. -/
  | trim {i : ℕ} {feature : MultiModalFeatureSpec} {items : List (ℕ × MultiModalFeatureSpec)}
      {scheduled : List ℕ} {evicted : List String} {cache cache' : EncoderCacheManager}
      (hmeets : feature.Meets request.numComputedTokens (request.numComputedTokens + numNewTokens))
      (hmissing : cache.hasCache feature = false) (hevicts : cache.Evicts cache' evicted)
      (hnone : ∀ features, cache.Sound features → evicted = []) :
      Reserves request numNewTokens ((i, feature) :: items) scheduled cache
        (feature.position - request.numComputedTokens) scheduled cache'

def itemsOf (features : List MultiModalFeatureSpec) : List (ℕ × MultiModalFeatureSpec) :=
  features.mapIdx fun i feature => (i, feature)

theorem mem_itemsOf {features : List MultiModalFeatureSpec} {item : ℕ × MultiModalFeatureSpec} :
    item ∈ itemsOf features ↔ features[item.1]? = some item.2 := by
  obtain ⟨i, feature⟩ := item
  rw [itemsOf, List.mem_mapIdx, List.getElem?_eq_some_iff]
  constructor
  · rintro ⟨j, hj, heq⟩
    obtain ⟨rfl, rfl⟩ := Prod.mk.inj heq
    exact ⟨hj, rfl⟩
  · rintro ⟨hi, heq⟩
    exact ⟨i, hi, Prod.ext rfl heq⟩

theorem itemsOf_map_snd (features : List MultiModalFeatureSpec) :
    (itemsOf features).map (·.2) = features := by
  simp [itemsOf, List.mapIdx_eq_zipIdx_map, Function.comp_def]

namespace Scheduler

variable {request : Request H} {n maxTokens budget budget' n' : ℕ}
  {items : List (ℕ × MultiModalFeatureSpec)} {scheduled ids : List ℕ}
  {cache cache' : EncoderCacheManager}

omit [DecidableEq H] in
theorem scheduleEncoderLoop_reserves
    (h : scheduleEncoderLoop request n maxTokens items scheduled budget cache =
      .ok (n', ids, budget', cache')) :
    Reserves request n items scheduled cache n' ids cache' := by
  induction items generalizing scheduled budget cache with
  | nil =>
      simp only [scheduleEncoderLoop, Except.ok.injEq, Prod.mk.injEq] at h
      obtain ⟨rfl, rfl, -, rfl⟩ := h
      exact .done
  | cons item items ih =>
      obtain ⟨i, feature⟩ := item
      simp only [scheduleEncoderLoop] at h
      split at h
      · rename_i hout
        exact .pass (Or.inl fun hmeets => MultiModalFeatureSpec.meets_iff.mp hmeets hout) (ih h)
      rename_i htouches
      have hmeets := MultiModalFeatureSpec.meets_iff.mpr htouches
      split at h
      · rename_i hheld
        exact .pass (Or.inr hheld) (ih h)
      split at h
      · rename_i hresident
        rw [hresident] at h
        exact .hit hmeets hresident (ih h)
      rename_i hmissing
      have hnone : cache.hasCache feature = false := by simpa using hmissing
      rw [hnone] at h
      split at h
      · cases h
      split at h
      · simp only [Except.ok.injEq, Prod.mk.injEq] at h
        obtain ⟨rfl, rfl, -, rfl⟩ := h
        exact .trim hmeets hnone (.recordLookup cache false) fun _ _ => rfl
      split at h
      · cases h
      · rename_i hcan
        obtain ⟨evicted, hevicts, hfull⟩ := EncoderCacheManager.canAllocate_ok hcan
        simp only [Except.ok.injEq, Prod.mk.injEq] at h
        obtain ⟨rfl, rfl, -, rfl⟩ := h
        exact .trim hmeets hnone hevicts.of_recordLookup fun features hsound =>
          hfull rfl features (EncoderCacheManager.recordLookup_sound hsound false)
      · rename_i hcan
        obtain ⟨evicted, hevicts, -⟩ := EncoderCacheManager.canAllocate_ok hcan
        exact .encode hmeets hnone hevicts.of_recordLookup (ih h)

omit [DecidableEq H] in
theorem scheduleEncoder_reserves {s : Scheduler H} {r : RequestId}
    (h : s.scheduleEncoder r n budget = .ok (n', ids, budget', cache')) :
    Reserves (s.request r) n (itemsOf (s.request r).mmFeatures) [] s.encoderCacheManager n' ids
      cache' := by
  unfold scheduleEncoder at h
  dsimp only at h
  split at h
  · rename_i hnil
    simp only [Except.ok.injEq, Prod.mk.injEq] at h
    obtain ⟨rfl, rfl, -, rfl⟩ := h
    rw [hnil]
    exact .done
  · exact scheduleEncoderLoop_reserves h

end Scheduler

namespace Reserves

variable {features : RequestId → List MultiModalFeatureSpec} {request : Request H} {n n' : ℕ}
  {items : List (ℕ × MultiModalFeatureSpec)} {scheduled ids : List ℕ}
  {cache cache' : EncoderCacheManager}

omit [DecidableEq H] in
theorem sound (h : Reserves request n items scheduled cache n' ids cache')
    (hitems : ∀ item ∈ items, (features request.requestId)[item.1]? = some item.2)
    (hsound : cache.Sound features) : cache'.Sound features := by
  induction h with
  | done => exact hsound
  | pass hpass hrest ih => exact ih (List.forall_mem_cons.mp hitems).2 hsound
  | hit hmeets hresident hrest ih =>
      obtain ⟨hfirst, hitems⟩ := List.forall_mem_cons.mp hitems
      exact ih hitems ((EncoderCacheManager.recordLookup_sound hsound true).allocate hfirst)
  | encode hmeets hmissing hevicts hrest ih =>
      obtain ⟨hfirst, hitems⟩ := List.forall_mem_cons.mp hitems
      exact ih hitems ((hevicts.sound hsound).allocate hfirst)
  | trim hmeets hmissing hevicts => exact hevicts.sound hsound

omit [DecidableEq H] in
/-- Only the request itself takes references, and it gives none back. -/
theorem held (h : Reserves request n items scheduled cache n' ids cache') (r : RequestId) :
    (r ≠ request.requestId → cache'.getCachedInputIds r = cache.getCachedInputIds r) ∧
      ∀ i ∈ cache.getCachedInputIds r, i ∈ cache'.getCachedInputIds r := by
  induction h with
  | done => exact ⟨fun _ => rfl, fun _ hi => hi⟩
  | pass hpass hrest ih => exact ih
  | @hit i n' feature items scheduled ids cache cache' hmeets hresident hrest ih =>
      rw [EncoderCacheManager.getCachedInputIds_allocate] at ih
      refine ⟨fun hne => ?_, fun j hj => ih.2 j ?_⟩
      · rw [ih.1 hne, if_neg hne]
        rfl
      · split
        · rename_i heq
          exact EncoderCacheManager.mem_insertNew.mpr (Or.inl (heq ▸ hj))
        · exact hj
  | @encode i n' feature items scheduled ids evicted cache cache₁ cache' hmeets hmissing hevicts
      hrest ih =>
      rw [EncoderCacheManager.getCachedInputIds_allocate, hevicts.getCachedInputIds,
        hevicts.getCachedInputIds] at ih
      refine ⟨fun hne => ?_, fun j hj => ih.2 j ?_⟩
      · rw [ih.1 hne, if_neg hne]
      · split
        · rename_i heq
          exact EncoderCacheManager.mem_insertNew.mpr (Or.inl (heq ▸ hj))
        · exact hj
  | trim hmeets hmissing hevicts =>
      rw [hevicts.getCachedInputIds]
      exact ⟨fun _ => rfl, fun _ hi => hi⟩

omit [DecidableEq H] in
/-- Where all items lie ahead, something is granted. -/
theorem pos_of_ahead (h : Reserves request n items scheduled cache n' ids cache') (hn : 0 < n)
    (hahead : ∀ item ∈ items, request.numComputedTokens < item.2.position) : 0 < n' := by
  induction h with
  | done => exact hn
  | pass hpass hrest ih => exact ih (List.forall_mem_cons.mp hahead).2
  | hit hmeets hresident hrest ih => exact ih (List.forall_mem_cons.mp hahead).2
  | encode hmeets hmissing hevicts hrest ih => exact ih (List.forall_mem_cons.mp hahead).2
  | trim hmeets hmissing hevicts => exact Nat.sub_pos_of_lt (hahead _ List.mem_cons_self)

omit [DecidableEq H] in
/-- A request with its items in order that is trimmed to nothing took nothing: the
item it stops at begins where it stands, and those before that are behind it. -/
theorem held_of_zero (h : Reserves request n items scheduled cache n' ids cache') (hn : 0 < n)
    (horder : InOrder (items.map (·.2))) (hzero : n' = 0) :
    cache'.getCachedInputIds request.requestId = cache.getCachedInputIds request.requestId := by
  have hahead : ∀ {feature : MultiModalFeatureSpec} {items : List (ℕ × MultiModalFeatureSpec)},
      feature.Meets request.numComputedTokens (request.numComputedTokens + n) →
      (∀ other ∈ items.map (·.2), feature.position + feature.length ≤ other.position) →
      ∀ item ∈ items, request.numComputedTokens < item.2.position := by
    intro feature items hmeets hafter item hitem
    have hbefore := hafter _ (List.mem_map_of_mem hitem)
    unfold MultiModalFeatureSpec.Meets at hmeets
    omega
  induction h with
  | done => omega
  | pass hpass hrest ih => exact ih (List.pairwise_cons.mp horder).2 hzero
  | hit hmeets hresident hrest ih =>
      have hpos := hrest.pos_of_ahead hn (hahead hmeets (List.pairwise_cons.mp horder).1)
      omega
  | encode hmeets hmissing hevicts hrest ih =>
      have hpos := hrest.pos_of_ahead hn (hahead hmeets (List.pairwise_cons.mp horder).1)
      omega
  | trim hmeets hmissing hevicts => exact hevicts.getCachedInputIds _

end Reserves

/-! ### The loops of `schedule` -/

omit [DecidableEq H] in
theorem Request.Keeps.encoder {request request' : Request H} (h : request.Keeps request') :
    request'.requestId = request.requestId ∧ request'.mmFeatures = request.mmFeatures := by
  rw [h.eq]
  exact ⟨rfl, rfl⟩

namespace StepState

variable {features : RequestId → List MultiModalFeatureSpec} {s : Scheduler H} {l l' : StepState H}

omit [DecidableEq H] in
theorem releaseEncoderReservation_cache (l : StepState H) (r : RequestId) (ids : List ℕ) :
    (l.releaseEncoderReservation r ids).scheduler.encoderCacheManager =
      l.scheduler.encoderCacheManager.freeInputs r
        (EncoderCacheManager.entriesOf (l.scheduler.request r).mmFeatures ids) := rfl

variable (features) in
omit [DecidableEq H] in
/-- Reserving for a request keeps the tables in order, and changes what it holds only. -/
theorem scheduleEncoder_sound {s : Scheduler H} {r : RequestId} {n n' budget budget' : ℕ}
    {ids : List ℕ} {cache' : EncoderCacheManager} (hid : (s.request r).requestId = r)
    (hfeatures : (s.request r).mmFeatures = features r)
    (h : s.scheduleEncoder r n budget = .ok (n', ids, budget', cache'))
    (hsound : s.encoderCacheManager.Sound features) :
    cache'.Sound features ∧ ∀ r', r' ≠ r →
      cache'.getCachedInputIds r' = s.encoderCacheManager.getCachedInputIds r' := by
  have hreserves := Scheduler.scheduleEncoder_reserves h
  refine ⟨hreserves.sound (fun item hitem => ?_) hsound, fun r' hne => ?_⟩
  · rw [hid, ← hfeatures]
    exact mem_itemsOf.mp hitem
  · exact (hreserves.held r').1 (by rwa [hid])

/-- Within a call: the tables are in order, and only known requests hold anything. -/
structure Owned (features : RequestId → List MultiModalFeatureSpec) (l : StepState H) : Prop where
  sound : l.scheduler.encoderCacheManager.Sound features
  known : ∀ r, l.scheduler.encoderCacheManager.getCachedInputIds r ≠ [] →
    r ∈ l.scheduler.requests

omit [DecidableEq H] in
/-- What gives references back keeps it. -/
theorem Owned.gives (hl : l.Owned features)
    (hgives : l.scheduler.encoderCacheManager.Gives features l'.scheduler.encoderCacheManager)
    (hrequests : l'.scheduler.requests = l.scheduler.requests) : l'.Owned features := by
  refine ⟨hgives.sound hl.sound, fun r hr => ?_⟩
  obtain ⟨i, hi⟩ := List.exists_mem_of_ne_nil _ hr
  rw [hrequests]
  exact hl.known r (List.ne_nil_of_mem (hgives.held r i hi))

omit [DecidableEq H] in
theorem release_gives (l : StepState H) (r : RequestId) (ids : List ℕ)
    (hfeatures : (l.scheduler.request r).mmFeatures = features r) :
    l.scheduler.encoderCacheManager.Gives features
      (l.releaseEncoderReservation r ids).encoderPart.cache := by
  refine EncoderCacheManager.freeInputs_gives fun entry hentry => ?_
  rw [← hfeatures]
  exact (EncoderCacheManager.mem_entriesOf.mp hentry).2

/-- Every step keeps it. -/
theorem Encodes.owned (h : Encodes l l') (hout : Outcome l l') (hb : Batch l)
    (hfeatures : ∀ r, (l.scheduler.request r).mmFeatures = features r)
    (hl : l.Owned features) : l'.Owned features := by
  have hid := hb.partition.requestId
  have hrequests := hout.static.2.1
  -- reserving is for a known request
  have hreserve : ∀ {s : Scheduler H} {r n n' budget budget' ids},
      (∀ r, (l.scheduler.request r).Keeps (s.request r)) →
      s.encoderCacheManager = l.scheduler.encoderCacheManager → r ∈ l.scheduler.requests →
      s.scheduleEncoder r n budget =
        .ok (n', ids, budget', l'.scheduler.encoderCacheManager) → l'.Owned features := by
    intro s r n n' budget budget' ids hkeeps hcache hr hok
    obtain ⟨hsame, hsame'⟩ := (hkeeps r).encoder
    obtain ⟨hsound, hothers⟩ := scheduleEncoder_sound features
      (hsame.trans (hid r)) (hsame'.trans (hfeatures r)) hok (by rw [hcache]; exact hl.sound)
    refine ⟨hsound, fun r' hr' => ?_⟩
    rw [hrequests]
    by_cases heq : r' = r
    · exact heq ▸ hr
    · rw [hothers r' heq, hcache] at hr'
      exact hl.known r' hr'
  cases h with
  | still hpart hbefore hafter hrunning =>
      simp only [encoderPart, EncoderPart.mk.injEq] at hpart
      exact hl.gives (by rw [hpart.1]; exact .refl _) hrequests
  | @reserveRunning r n n' ids hphase hr hn hok hnext hrunning =>
      refine hreserve (disableSpeculation_keeps l.scheduler r) ?_ ?_ hok
      · rw [disableSpeculation_frame]
      · exact hb.partition.known_of_running (List.mem_of_getElem? hr)
  | @reserveWaiting s r n n' ids hphase hs hcache hn hok hinputs hrequest hnext hrunning =>
      refine hreserve hs.keeps hcache ?_ hok
      exact hb.partition.known_of_waiting (List.mem_append_left _ (List.mem_of_head? hs.head))
  | @release r victim n kv hphase hdeclined hvictim hpart hnext hrunning =>
      have hcache := congrArg EncoderPart.cache hpart
      change l'.scheduler.encoderCacheManager = _ at hcache
      exact hl.gives (by rw [hcache]; exact release_gives l victim _ (hfeatures victim)) hrequests
  | place hphase hcache hbudget hinputs hnext hrunning =>
      exact hl.gives (by rw [hcache]; exact .refl _) hrequests
  | @decline r hits numLocal numExternal n ids kv hphase hdeclined hpart hnext hrunning =>
      have hcache := congrArg EncoderPart.cache hpart
      change l'.scheduler.encoderCacheManager = _ at hcache
      exact hl.gives (by rw [hcache]; exact release_gives l r _ (hfeatures r)) hrequests

theorem Loops.owned (hloops : Loops (start s) l) (hpart : s.Partitioned)
    (hstart : (start s).Owned fun r => (s.request r).mmFeatures) :
    l.Owned fun r => (s.request r).mmFeatures := by
  refine hloops.encoding_invariant hpart hstart fun l l' hreach hb hout henc hl => ?_
  refine henc.owned hout hb (fun r => ?_) hl
  exact (Loops.keeps hreach r).encoder.2

end StepState

/-! ### Giving back -/

namespace Scheduler

variable {features : RequestId → List MultiModalFeatureSpec} {s s' : Scheduler H} {r : RequestId}

omit [DecidableEq H] in
theorem modifyRequest_self (s : Scheduler H) (r : RequestId) (f : Request H → Request H) :
    (s.modifyRequest r f).request r = f (s.request r) := Function.update_self ..

theorem freeRequest_cache (h : s.freeRequest r = .ok s') : s'.encoderCacheManager =
    if (s.request r).mmFeatures = [] then s.encoderCacheManager
    else s.encoderCacheManager.free (s.request r) := by
  unfold freeRequest at h
  dsimp only at h
  split at h
  · cases h
  split at h
  · cases h
  obtain rfl := Except.ok.inj h
  rfl

/-- Ending a request from outside releases it, or does nothing. -/
theorem finishOne_cache {finishedStatus : RequestStatus}
    (h : s.finishOne finishedStatus r = .ok s') :
    s' = s ∨ s'.encoderCacheManager =
      if (s.request r).mmFeatures = [] then s.encoderCacheManager
      else s.encoderCacheManager.free ((s.request r).withStatus finishedStatus) := by
  unfold finishOne at h
  split at h
  · exact Or.inl (Except.ok.inj h).symm
  dsimp only at h
  split at h
  · cases h
  rename_i s₁ hremoved
  have hs₁ : s₁.request = s.request ∧ s₁.encoderCacheManager = s.encoderCacheManager := by
    split at hremoved
    · split at hremoved
      · obtain rfl := Except.ok.inj hremoved
        exact ⟨rfl, rfl⟩
      · cases hremoved
    · split at hremoved
      · cases hremoved
      obtain rfl := Except.ok.inj hremoved
      exact ⟨rfl, rfl⟩
  have hself : (s₁.modifyRequest r (·.withStatus finishedStatus)).request r =
      (s.request r).withStatus finishedStatus := by
    rw [modifyRequest_self, hs₁.1]
  have hcache : (s₁.modifyRequest r (·.withStatus finishedStatus)).encoderCacheManager =
      s.encoderCacheManager := hs₁.2
  have hfreed := freeRequest_cache h
  rw [hself, hcache] at hfreed
  exact Or.inr hfreed

variable (features) in
theorem finishOne_gives {finishedStatus : RequestStatus}
    (hid : ∀ r, (s.request r).requestId = r)
    (hfeatures : ∀ r, (s.request r).mmFeatures = features r)
    (h : s.finishOne finishedStatus r = .ok s') :
    s.encoderCacheManager.Gives features s'.encoderCacheManager ∧
      (s.encoderCacheManager.Sound features → ∀ r',
        s'.encoderCacheManager.getCachedInputIds r' ≠ [] →
          (r' ∈ s.running → r' ∈ s'.running) ∧ (r' ∈ s.requests → r' ∈ s'.requests)) := by
  have hkept : ∀ r', r' ≠ r →
      (r' ∈ s.running → r' ∈ s'.running) ∧ (r' ∈ s.requests → r' ∈ s'.requests) := by
    intro r' hne
    rcases finishOne_ok h with ⟨-, rfl⟩ | ⟨-, running, waiting, kv, connector, cache,
      hplace, -, -, rfl⟩
    · exact ⟨id, id⟩
    · refine ⟨fun hr' => ?_, (List.mem_erase_of_ne hne).mpr⟩
      rcases hplace with ⟨-, -, rfl, -⟩ | ⟨-, rfl, -⟩
      · exact (List.mem_erase_of_ne hne).mpr hr'
      · exact hr'
  rcases finishOne_cache h with rfl | hcache
  · exact ⟨.refl _, fun _ _ _ => ⟨id, id⟩⟩
  · have hgives := EncoderCacheManager.free_gives features s.encoderCacheManager
      (show ((s.request r).withStatus finishedStatus).mmFeatures =
        features ((s.request r).withStatus finishedStatus).requestId from
          (hfeatures r).trans (congrArg features (hid r).symm))
    rw [hcache]
    refine ⟨hgives.1, fun hsound r' hr' => hkept r' ?_⟩
    rintro rfl
    apply hr'
    have hnone := hgives.2 hsound
    rwa [show ((s.request r').withStatus finishedStatus).requestId = r' from hid r'] at hnone

omit [DecidableEq H] in
/-- Dropping what is fully computed gives some inputs back. -/
theorem freeEncoderInputs_cache (s : Scheduler H) (r : RequestId) :
    ∃ entries, (∀ entry ∈ entries, (s.request r).mmFeatures[entry.1]? = some entry.2) ∧
      (s.freeEncoderInputs r).encoderCacheManager = s.encoderCacheManager.freeInputs r entries := by
  refine ⟨(EncoderCacheManager.entriesOf (s.request r).mmFeatures
    (s.encoderCacheManager.getCachedInputIds r)).filter fun entry =>
      entry.2.position + entry.2.length ≤ (s.request r).numComputedTokens,
    fun entry hentry => (EncoderCacheManager.mem_entriesOf.mp (List.mem_filter.mp hentry).1).2, ?_⟩
  unfold freeEncoderInputs EncoderCacheManager.freeInputs EncoderCacheManager.entriesOf
  dsimp only
  rw [List.foldl_filter, List.foldl_filterMap]
  congr 1
  funext cache inputId
  cases (s.request r).mmFeatures[inputId]? with
  | none => rfl
  | some feature => simp only [Option.map_some, decide_eq_true_eq]

omit [DecidableEq H] in
theorem freeEncoderInputs_gives (s : Scheduler H) (r : RequestId)
    (hfeatures : (s.request r).mmFeatures = features r) :
    s.encoderCacheManager.Gives features (s.freeEncoderInputs r).encoderCacheManager := by
  obtain ⟨entries, hentries, hcache⟩ := s.freeEncoderInputs_cache r
  rw [hcache]
  refine EncoderCacheManager.freeInputs_gives fun entry hentry => ?_
  rw [← hfeatures]
  exact hentries entry hentry

omit [DecidableEq H] in
theorem shedAll_gives {l : List RequestId} (hfeatures : ∀ r, (s.request r).mmFeatures = features r)
    (h : s.shedAll l = .ok s') :
    s.encoderCacheManager.Gives features s'.encoderCacheManager := by
  induction l generalizing s with
  | nil =>
      obtain rfl := Except.ok.inj h
      exact .refl _
  | cons r rest ih =>
      unfold shedAll at h
      split at h
      · cases h
      rename_i kv hkv
      dsimp only at h
      split at h
      · exact ih (s := { s with kvCacheManager := kv }) hfeatures h
      · exact (freeEncoderInputs_gives { s with kvCacheManager := kv } r (hfeatures r)).trans
          (ih (s := Scheduler.freeEncoderInputs { s with kvCacheManager := kv } r) hfeatures h)

end Scheduler

namespace UpdateState

variable {features : RequestId → List MultiModalFeatureSpec} {u u' : UpdateState H}
  {schedulerOutput : SchedulerOutput} {modelRunnerOutput : ModelRunnerOutput} {r : RequestId}

/-- Folding a result in: the request goes on with what it holds, or it is released. -/
theorem updateOne_cache (h : u.updateOne schedulerOutput modelRunnerOutput r = .ok u') :
    (u'.stillRunning = u.stillRunning ++ [r] ∧ u'.scheduler.requests = u.scheduler.requests ∧
        u'.scheduler.encoderCacheManager = u.scheduler.encoderCacheManager) ∨
      (u'.stillRunning = u.stillRunning ∧
        u'.scheduler.requests = u.scheduler.requests.erase r ∧
        ∃ request : Request H, request.requestId = (u.scheduler.request r).requestId ∧
          request.mmFeatures = (u.scheduler.request r).mmFeatures ∧
          u'.scheduler.encoderCacheManager =
            if request.mmFeatures = [] then u.scheduler.encoderCacheManager
            else u.scheduler.encoderCacheManager.free request) := by
  unfold updateOne at h
  split at h
  · obtain rfl := Except.ok.inj h
    exact Or.inl ⟨rfl, rfl, rfl⟩
  dsimp only at h
  obtain ⟨drafts, accepted, hroll⟩ := rollBack_eq u r
    (schedulerOutput.scheduledSpecDecodeTokens.findD r []).length
    (generatedFor modelRunnerOutput r).length
  unfold generatedFor at hroll
  rw [hroll] at h
  split at h
  · cases h
  rename_i kept stopped vector request happly
  obtain ⟨hfolds, -⟩ := applyOutput_ok happly
  simp only [Function.update_self] at hfolds
  obtain ⟨hid', hfeatures'⟩ := hfolds.keeps.encoder
  split at h
  · split at h
    · cases h
    rename_i s₁ hfree
    obtain rfl := Except.ok.inj h
    have hcache := Scheduler.freeRequest_cache hfree
    rw [Scheduler.modifyRequest_self] at hcache
    obtain ⟨-, kv, connector, cache, -, -, rfl⟩ := Scheduler.freeRequest_ok hfree
    exact Or.inr ⟨rfl, rfl, _, hid', hfeatures', hcache⟩
  · obtain rfl := Except.ok.inj h
    exact Or.inl ⟨rfl, rfl, rfl⟩

variable (features) in
theorem updateOne_gives (hid : (u.scheduler.request r).requestId = r)
    (hfeatures : (u.scheduler.request r).mmFeatures = features r)
    (h : u.updateOne schedulerOutput modelRunnerOutput r = .ok u') :
    u.scheduler.encoderCacheManager.Gives features u'.scheduler.encoderCacheManager ∧
      (u'.stillRunning = u.stillRunning ++ [r] ∧ u'.scheduler.requests = u.scheduler.requests ∨
        u'.stillRunning = u.stillRunning ∧
        u'.scheduler.requests = u.scheduler.requests.erase r ∧
        (u.scheduler.encoderCacheManager.Sound features →
          u'.scheduler.encoderCacheManager.getCachedInputIds r = [])) := by
  rcases updateOne_cache h with
    ⟨hstill, hsame, hcache⟩ | ⟨hstill, herase, request, hid', hfeatures', hcache⟩
  · rw [hcache]
    exact ⟨.refl _, Or.inl ⟨hstill, hsame⟩⟩
  · have hgives := EncoderCacheManager.free_gives features u.scheduler.encoderCacheManager
      (show request.mmFeatures = features request.requestId
        by rw [hfeatures', hfeatures, hid', hid])
    rw [hid', hid] at hgives
    rw [hcache]
    exact ⟨hgives.1, Or.inr ⟨hstill, herase, hgives.2⟩⟩

end UpdateState

/-! ### Every call -/

namespace Scheduler

variable {s s' : Scheduler H}

/-- A call that gives references back: who still holds something is kept. -/
structure GivesBack (s s' : Scheduler H) : Prop where
  gives : s.encoderCacheManager.Gives (fun r => (s.request r).mmFeatures) s'.encoderCacheManager
  kept : ∀ r, s'.encoderCacheManager.getCachedInputIds r ≠ [] →
    (r ∈ s.running → r ∈ s'.running) ∧ (r ∈ s.requests → r ∈ s'.requests)

theorem finishRequests_givesBack {finishedStatus : RequestStatus} {requestIds : List RequestId}
    (hsettled : s.Settled)
    (hsound : s.encoderCacheManager.Sound fun r => (s.request r).mmFeatures)
    (hok : s.finishRequests requestIds finishedStatus = .ok s') : GivesBack s s' := by
  obtain ⟨hfinished, hall⟩ := finishRequests_ok hok
  refine (finishAll_invariant (P := fun s' => s'.Settled ∧
    (∀ r, (s.request r).Keeps (s'.request r)) ∧ GivesBack s s') hall
    ⟨hsettled, fun r => .refl _, .refl _, fun r _ => ⟨id, id⟩⟩ ?_).2.2
  rintro s₁ s₂ r - hone ⟨hs, hkeeps, hback⟩
  obtain ⟨hgives, hkept⟩ := finishOne_gives (fun r => (s.request r).mmFeatures)
    hs.partition.requestId (fun r => (hkeeps r).encoder.2) hone
  refine ⟨hs.finishOne hfinished hone,
    fun r => (hkeeps r).trans (finishOne_keeps hfinished hone r), hback.gives.trans hgives,
    fun r' hr' => ?_⟩
  obtain ⟨hrunning', hrequests'⟩ := hkept (hback.gives.sound hsound) r' hr'
  obtain ⟨i, hi⟩ := List.exists_mem_of_ne_nil _ hr'
  obtain ⟨hrunning, hrequests⟩ := hback.kept r' (List.ne_nil_of_mem (hgives.held r' i hi))
  exact ⟨fun h => hrunning' (hrunning h), fun h => hrequests' (hrequests h)⟩

theorem updateFromOutput_givesBack {schedulerOutput : SchedulerOutput}
    {modelRunnerOutput : ModelRunnerOutput} {outputs : Dict ℕ (List EngineCoreOutput)}
    (hid : ∀ r, (s.request r).requestId = r)
    (hsound : s.encoderCacheManager.Sound fun r => (s.request r).mmFeatures)
    (hok : s.updateFromOutput schedulerOutput modelRunnerOutput = .ok (outputs, s')) :
    GivesBack s s' := by
  obtain ⟨u, s₁, hall, hshed, -, rfl⟩ := updateFromOutput_ok hok
  obtain ⟨-, hframe⟩ := shedAll_ok (P := fun _ => True) hshed trivial fun _ _ _ _ _ _ => trivial
  have hu := UpdateState.updateAll_induct (P := fun u rest =>
    (∀ r, (s.request r).Keeps (u.scheduler.request r)) ∧
      s.encoderCacheManager.Gives (fun r => (s.request r).mmFeatures)
        u.scheduler.encoderCacheManager ∧
      ∀ r, u.scheduler.encoderCacheManager.getCachedInputIds r ≠ [] →
        (r ∈ s.running → r ∈ u.stillRunning ++ rest) ∧
        (r ∈ s.requests → r ∈ u.scheduler.requests))
    hall ⟨fun r => .refl _, .refl _, fun r _ => ⟨id, id⟩⟩ ?_
  · obtain ⟨hkeeps, hgives, hkept⟩ := hu
    have hgives' := shedAll_gives (fun r => (hkeeps r).encoder.2) hshed
    refine ⟨hgives.trans hgives', fun r hr => ?_⟩
    obtain ⟨i, hi⟩ := List.exists_mem_of_ne_nil _ hr
    have hboth := hkept r (List.ne_nil_of_mem (hgives'.held r i hi))
    rw [List.append_nil] at hboth
    rw [hframe]
    exact hboth
  · rintro u u' r rest hone ⟨hkeeps, hgives, hkept⟩
    obtain ⟨hsame, hfeatures⟩ := (hkeeps r).encoder
    obtain ⟨hgives', hcases⟩ := UpdateState.updateOne_gives
      (fun r => (s.request r).mmFeatures) (hsame.trans (hid r)) hfeatures hone
    refine ⟨fun r' => (hkeeps r').trans ((UpdateState.updateOne_outcome hone).keeps r'),
      hgives.trans hgives', fun r' hr' => ?_⟩
    obtain ⟨i, hi⟩ := List.exists_mem_of_ne_nil _ hr'
    obtain ⟨hrunning, hrequests⟩ := hkept r' (List.ne_nil_of_mem (hgives'.held r' i hi))
    rcases hcases with ⟨hstill, hsame'⟩ | ⟨hstill, herase, hnone⟩
    · rw [hstill, hsame', List.append_assoc]
      exact ⟨hrunning, hrequests⟩
    · have hne : r' ≠ r := fun heq => hr' (heq ▸ hnone (hgives.sound hsound))
      rw [hstill, herase]
      refine ⟨fun h => ?_, fun h => (List.mem_erase_of_ne hne).mpr (hrequests h)⟩
      simpa [hne] using hrunning h

/-- Every call but `schedule` gives references back at most. -/
theorem Step.givesBack {event : Event} (hstep : Step s event s') (hsettled : s.Settled)
    (hsound : s.encoderCacheManager.Sound fun r => (s.request r).mmFeatures) :
    (∃ output, event = .schedule output) ∨ GivesBack s s' := by
  cases hstep with
  | addRequest hrequest hfresh =>
      rw [addRequest_eq]
      exact Or.inr ⟨.refl _, fun r _ =>
        ⟨id, fun hr => EncoderCacheManager.mem_insertNew.mpr (Or.inl hr)⟩⟩
  | finishRequests hok => exact Or.inr (finishRequests_givesBack hsettled hsound hok)
  | schedule hok => exact Or.inl ⟨_, rfl⟩
  | updateFromOutput hok =>
      exact Or.inr (updateFromOutput_givesBack hsettled.partition.requestId hsound hok)
  | resetPrefixCache => exact Or.inr ⟨.refl _, fun _ _ => ⟨id, id⟩⟩
  | grammar hcompiling => exact Or.inr ⟨.refl _, fun _ _ => ⟨id, id⟩⟩
  | sharedStore hconnector => exact Or.inr ⟨.refl _, fun _ _ => ⟨id, id⟩⟩

/-- Between calls: the tables are in order, and only known requests hold anything. -/
structure Owned (s : Scheduler H) : Prop where
  sound : s.encoderCacheManager.Sound fun r => (s.request r).mmFeatures
  known : ∀ r, s.encoderCacheManager.getCachedInputIds r ≠ [] → r ∈ s.requests

omit [DecidableEq H] in
theorem init_owned {config : SchedulerConfig} {kvCacheConfig : KVCacheConfig}
    {enableCaching : Bool} {hashFn : HashInput H → H} {seed : ℕ}
    {connector : Option (SimSharedStoreConnector H)}
    (h : init config kvCacheConfig enableCaching hashFn seed connector = .ok s) :
    s.Owned ∧ (∀ r, s.encoderCacheManager.getCachedInputIds r = []) ∧
      s.encoderCacheManager.cached = .empty ∧ s.encoderCacheManager.freed = [] := by
  unfold init at h
  split at h
  · cases h
  split at h
  · cases h
  rename_i cache hcache
  obtain rfl := Except.ok.inj h
  obtain ⟨hsound, hheld, hcached, hfreed⟩ := EncoderCacheManager.init_sound hcache
  have hnone : ∀ r, cache.getCachedInputIds r = [] := fun r => by
    rw [EncoderCacheManager.getCachedInputIds, hheld]
    rfl
  exact ⟨⟨hsound, fun r hr => absurd (hnone r) hr⟩, hnone, hcached, hfreed⟩

/-- A call of `schedule`, seen from the encoder cache: its loops, and the hand-over
of what was evicted. -/
theorem schedule_encoder {output : SchedulerOutput} (h : s.schedule = .ok (output, s')) :
    ∃ l, StepState.Loops (StepState.start s) l ∧ l.phase = .finished ∧
      StepState.Finishes l output s' ∧
      output.freeEncoderMmHashes = l.scheduler.encoderCacheManager.freed ∧
      s'.encoderCacheManager = { l.scheduler.encoderCacheManager with freed := [] } ∧
      s'.running = l.scheduler.running ∧ s'.requests = l.scheduler.requests := by
  obtain ⟨l, hloops, hfinished, hfinish⟩ := schedule_finish h
  obtain ⟨hfreed, hcache⟩ := StepState.finish_freed hfinish
  have hfinishes := StepState.finish_ok hfinish
  refine ⟨l, hloops, hfinished, hfinishes, hfreed, hcache, ?_, ?_⟩
  · rw [hfinishes.state, StepState.restoreSkippedWaiting_frame]
  · rw [hfinishes.state, StepState.restoreSkippedWaiting_frame]

/-- A step keeps the features of the known requests. -/
theorem Step.features {event : Event} (hstep : Step s event s') {r : RequestId}
    (hr : r ∈ s.requests) : (s'.request r).mmFeatures = (s.request r).mmFeatures := by
  refine (hstep.keeps (r := r) fun hadded => ?_).encoder.2
  cases hstep with
  | addRequest hrequest hfresh =>
      obtain rfl := Option.some.inj hadded
      exact hfresh hr
  | _ => cases hadded

/-- Images stay in prompt order, where those of a request that is added are. -/
theorem Step.inOrder {event : Event} (hstep : Step s event s')
    (h : ∀ r ∈ s.requests, InOrder (s.request r).mmFeatures)
    (hadded : ∀ args, event = .addRequest args → InOrder args.mmFeatures) :
    ∀ r ∈ s'.requests, InOrder (s'.request r).mmFeatures := by
  intro r hr
  by_cases hold : r ∈ s.requests
  · rw [hstep.features hold]
    exact h r hold
  · obtain ⟨args, hevent, -, hasked⟩ := hstep.asked ((hstep.known hr).resolve_left hold)
    rw [hasked.mmFeatures]
    exact hadded args hevent

/-- Every step keeps it. -/
theorem Step.owned {event : Event} (hstep : Step s event s') (hsettled : s.Settled)
    (h : s.Owned) : s'.Owned := by
  have hcongr : ∀ {cache : EncoderCacheManager},
      cache.Sound (fun r => (s.request r).mmFeatures) →
      (∀ r, cache.getCachedInputIds r ≠ [] → r ∈ s.requests) →
      cache.Sound fun r => (s'.request r).mmFeatures :=
    fun hsound hknown => hsound.congr fun r hr => hstep.features (hknown r hr)
  rcases hstep.givesBack hsettled h.sound with ⟨output, rfl⟩ | hback
  · cases hstep with
    | schedule hok =>
        obtain ⟨l, hloops, -, -, -, hcache, -, hrequests⟩ := schedule_encoder hok
        have hl := hloops.owned hsettled.partition ⟨h.sound, h.known⟩
        have hsame := (StepState.Loops.static hloops).2.1
        have hsound : s'.encoderCacheManager.Sound fun r => (s.request r).mmFeatures := by
          rw [hcache]
          exact EncoderCacheManager.getFreedMmHashes_sound hl.sound
        have hknown : ∀ r, s'.encoderCacheManager.getCachedInputIds r ≠ [] →
            r ∈ l.scheduler.requests := by
          rw [hcache]
          exact hl.known
        exact ⟨hcongr hsound fun r hr => hsame ▸ hknown r hr, fun r hr => hrequests ▸ hknown r hr⟩
  · have hknown : ∀ r, s'.encoderCacheManager.getCachedInputIds r ≠ [] → r ∈ s.requests := by
      intro r hr
      obtain ⟨i, hi⟩ := List.exists_mem_of_ne_nil _ hr
      exact h.known r (List.ne_nil_of_mem (hback.gives.held r i hi))
    exact ⟨hcongr (hback.gives.sound h.sound) hknown,
      fun r hr => (hback.kept r hr).2 (hknown r hr)⟩

end Scheduler

end Pvllm
