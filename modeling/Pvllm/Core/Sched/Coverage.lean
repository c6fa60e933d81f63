import Pvllm.Core.Sched.References
import Pvllm.Core.Sched.Order
import Pvllm.Core.Sched.Progress

/-!
Whether the encoder inputs of a request cover the span it is sent.

The images of a request are picked from a span that begins where the request
stands. For a running request that is the span that is sent. A request that is
admitted stands at zero, and is sent a span that begins after its hits: `skips`
tells the points of the loops where an image lies in the one and not in the other.
What a step was to encode and then does not, `drops` tells. Where the loops come to
no such point, every span that is sent is covered.
-/

namespace Pvllm

variable {H : Type} [DecidableEq H]

/-! ### What was encoded -/

namespace EncoderCacheManager

variable {features : RequestId → List MultiModalFeatureSpec} {known known' : String → Prop}
  {manager manager' : EncoderCacheManager} {r : RequestId} {i : ℕ}
  {feature : MultiModalFeatureSpec}

/-- Everything resident or held has a hash of some kind. -/
structure Within (features : RequestId → List MultiModalFeatureSpec) (known : String → Prop)
    (manager : EncoderCacheManager) : Prop where
  resident : ∀ mmHash, (manager.cached.find mmHash).isSome → known mmHash
  held : ∀ r, ∀ i ∈ manager.getCachedInputIds r, ∀ feature, (features r)[i]? = some feature →
    known feature.identifier

theorem Within.mono (h : Within features known manager)
    (hknown : ∀ mmHash, known mmHash → known' mmHash) : Within features known' manager :=
  ⟨fun mmHash hsome => hknown mmHash (h.resident mmHash hsome),
    fun r i hi feature hfeature => hknown _ (h.held r i hi feature hfeature)⟩

theorem Within.congr {features' : RequestId → List MultiModalFeatureSpec}
    (h : Within features known manager)
    (heq : ∀ r, manager.getCachedInputIds r ≠ [] → features' r = features r) :
    Within features' known manager :=
  ⟨h.resident, fun r i hi => by
    rw [heq r (List.ne_nil_of_mem hi)]
    exact h.held r i hi⟩

theorem Within.gives (h : Within features known manager)
    (hgives : manager.Gives features manager') : Within features known manager' :=
  ⟨fun mmHash hsome => h.resident mmHash (hgives.resident mmHash ▸ hsome),
    fun r i hi => h.held r i (hgives.held r i hi)⟩

theorem Within.evicts {evicted : List String} (h : Within features known manager)
    (hevicts : manager.Evicts manager' evicted) : Within features known manager' := by
  refine ⟨fun mmHash hsome => h.resident mmHash ?_, fun r => ?_⟩
  · rw [hevicts.cached] at hsome
    split at hsome
    · cases hsome
    · exact hsome
  · rw [hevicts.getCachedInputIds]
    exact h.held r

theorem Within.allocate (h : Within features known manager)
    (hfeature : (features r)[i]? = some feature) (hknown : known feature.identifier) :
    Within features known (manager.allocate r i feature) := by
  refine ⟨fun mmHash hsome => ?_, fun r' j hj feature' hfeature' => ?_⟩
  · rw [find_allocate] at hsome
    split at hsome
    · rename_i heq
      exact heq ▸ hknown
    · exact h.resident mmHash hsome
  · rw [getCachedInputIds_allocate] at hj
    split at hj
    · rename_i heq
      subst heq
      rcases mem_insertNew.mp hj with hj | rfl
      · exact h.held r' j hj feature' hfeature'
      · rw [hfeature] at hfeature'
        exact Option.some.inj hfeature' ▸ hknown
    · exact h.held r' j hj feature' hfeature'

end EncoderCacheManager

def hashesOf (features : List MultiModalFeatureSpec) (ids : List ℕ) : List String :=
  ids.filterMap fun i => (features[i]?).map (·.identifier)

theorem mem_hashesOf {features : List MultiModalFeatureSpec} {ids : List ℕ} {mmHash : String} :
    mmHash ∈ hashesOf features ids ↔
      ∃ i ∈ ids, ∃ feature, features[i]? = some feature ∧ feature.identifier = mmHash := by
  simp [hashesOf, List.mem_filterMap, Option.map_eq_some_iff]

namespace Reserves

variable {features : RequestId → List MultiModalFeatureSpec} {request : Request H} {n n' : ℕ}
  {items : List (ℕ × MultiModalFeatureSpec)} {scheduled ids : List ℕ}
  {cache cache' : EncoderCacheManager}

omit [DecidableEq H] in
theorem le (h : Reserves request n items scheduled cache n' ids cache') : n' ≤ n := by
  induction h with
  | done => exact le_rfl
  | pass hpass hrest ih => exact ih
  | hit hmeets hresident hrest ih => exact ih
  | encode hmeets hmissing hevicts hrest ih => exact ih
  | trim hmeets hmissing hevicts =>
      have hbegins := hmeets.1
      omega

omit [DecidableEq H] in
theorem scheduled_subset (h : Reserves request n items scheduled cache n' ids cache') :
    ∀ i ∈ scheduled, i ∈ ids := by
  induction h with
  | done => exact fun i hi => hi
  | pass hpass hrest ih => exact ih
  | hit hmeets hresident hrest ih => exact ih
  | encode hmeets hmissing hevicts hrest ih => exact fun i hi => ih i (List.mem_append_left _ hi)
  | trim hmeets hmissing hevicts => exact fun i hi => hi

omit [DecidableEq H] in
/-- The images that meet the span that is granted are held. -/
theorem covers (h : Reserves request n items scheduled cache n' ids cache') (hn : 0 < n')
    (horder : InOrder (items.map (·.2))) : ∀ item ∈ items,
      item.2.Meets request.numComputedTokens (request.numComputedTokens + n') →
        item.1 ∈ cache'.getCachedInputIds request.requestId := by
  induction h with
  | done => exact fun item hitem => absurd hitem List.not_mem_nil
  | @pass i n' feature items scheduled ids cache cache' hpass hrest ih =>
      refine List.forall_mem_cons.mpr ⟨fun hmeets => ?_, ih hn (List.pairwise_cons.mp horder).2⟩
      rcases hpass with hout | hheld
      · have hle := hrest.le
        refine absurd ?_ hout
        unfold MultiModalFeatureSpec.Meets at hmeets ⊢
        dsimp only at hmeets
        omega
      · exact (hrest.held _).2 _ hheld
  | hit hmeets hresident hrest ih =>
      refine List.forall_mem_cons.mpr ⟨fun _ => ?_, ih hn (List.pairwise_cons.mp horder).2⟩
      refine (hrest.held _).2 _ ?_
      rw [EncoderCacheManager.getCachedInputIds_allocate, if_pos rfl]
      exact EncoderCacheManager.mem_insertNew.mpr (Or.inr rfl)
  | encode hmeets hmissing hevicts hrest ih =>
      refine List.forall_mem_cons.mpr ⟨fun _ => ?_, ih hn (List.pairwise_cons.mp horder).2⟩
      refine (hrest.held _).2 _ ?_
      rw [EncoderCacheManager.getCachedInputIds_allocate, if_pos rfl]
      exact EncoderCacheManager.mem_insertNew.mpr (Or.inr rfl)
  | @trim i feature items scheduled evicted cache cache' hmeets hmissing hevicts =>
      -- the span ends where the item begins, and the others come after it
      have hafter := (List.pairwise_cons.mp horder).1
      unfold MultiModalFeatureSpec.Meets
      refine List.forall_mem_cons.mpr ⟨fun hnow => ?_, fun item hitem hnow => ?_⟩
      · dsimp only at hnow
        omega
      · have hlater := hafter _ (List.mem_map_of_mem hitem)
        dsimp only at hlater
        omega

omit [DecidableEq H] in
/-- What is to be encoded is known, if what was resident or held was. -/
theorem within {known : String → Prop}
    (h : Reserves request n items scheduled cache n' ids cache')
    (hitems : ∀ item ∈ items, (features request.requestId)[item.1]? = some item.2)
    (hids : ∀ mmHash ∈ hashesOf (features request.requestId) ids, known mmHash)
    (hcache : cache.Within features known) : cache'.Within features known := by
  induction h with
  | done => exact hcache
  | pass hpass hrest ih => exact ih (List.forall_mem_cons.mp hitems).2 hids hcache
  | hit hmeets hresident hrest ih =>
      obtain ⟨hfirst, hitems⟩ := List.forall_mem_cons.mp hitems
      refine ih hitems hids (EncoderCacheManager.Within.allocate ?_ hfirst ?_)
      · exact ⟨hcache.resident, hcache.held⟩
      · exact hcache.resident _ hresident
  | encode hmeets hmissing hevicts hrest ih =>
      obtain ⟨hfirst, hitems⟩ := List.forall_mem_cons.mp hitems
      refine ih hitems hids ((hcache.evicts hevicts).allocate hfirst (hids _ ?_))
      exact mem_hashesOf.mpr ⟨_, hrest.scheduled_subset _ (List.mem_append_right _
        (List.mem_singleton_self _)), _, hfirst, rfl⟩
  | trim hmeets hmissing hevicts => exact hcache.evicts hevicts

end Reserves

/-! ### Spans -/

namespace StepState

variable {features : RequestId → List MultiModalFeatureSpec} {s : Scheduler H} {l l' : StepState H}

/-- A request comes into the batch from the point before its allocation, and its
count is set there or stays. -/
theorem Outcome.spans (h : Outcome l l') (hb : Batch l) {r : RequestId} {n : ℕ}
    (hfind : l'.numScheduledTokens.find r = some n) :
    (l.numScheduledTokens.find r = some n ∨ l.phase = .allocating r n) ∧
        (l'.scheduler.request r).numComputedTokens = (l.scheduler.request r).numComputedTokens ∨
      ∃ hits numLocal numExternal ids blocks kv,
        l.phase = .admitting r hits numLocal numExternal n ids ∧
        l.scheduler.kvCacheManager.allocateSlots (l.scheduler.request r) n
          (numLocal + numExternal) (some hits) 0 false = .ok (some blocks, kv) ∧
        (l'.scheduler.request r).numComputedTokens = numLocal + numExternal := by
  cases h with
  | rest hphase => exact Or.inl ⟨Or.inl hfind, rfl⟩
  | enter hphase => exact Or.inl ⟨Or.inl hfind, rfl⟩
  | pass hphase hr => exact Or.inl ⟨Or.inl hfind, disableSpeculation_numComputedTokens ..⟩
  | takeUp hphase hr hn hbudget hspec hlen =>
      exact Or.inl ⟨Or.inl hfind, disableSpeculation_numComputedTokens ..⟩
  | @commit r' n' blocks kv hphase hok =>
      -- the request that is committed is the one that asked for its slots
      refine Or.inl ⟨?_, ?_⟩
      · change (l.numScheduledTokens.store r' n').find r = some n at hfind
        rw [Dict.find_store] at hfind
        split at hfind
        · rename_i heq
          subst heq
          exact Or.inr (Option.some.inj hfind ▸ hphase)
        · exact Or.inl hfind
      · rw [commitRunning_request]
        show (Function.update l.scheduler.request r' _ r).numComputedTokens = _
        by_cases heq : r = r'
        · subst heq
          rw [Function.update_self]
          rfl
        · rw [Function.update_of_ne heq]
  | @preempt r' victim n' kv inBatch blocks scheduled inputs cache encoderBudget tokenBudget
      reqIndex loras hphase hok hvictim hstatus hfree hbatch hinputs =>
      have hdrops := hb.drops hphase hvictim hbatch
      have hne : r ≠ victim :=
        ((hdrops.keys r).mp ((Dict.mem_keys_iff _ r).mpr ⟨n, hfind⟩)).1
      refine Or.inl ⟨Or.inl ((hdrops.find r hne).symm.trans hfind), ?_⟩
      show (Function.update l.scheduler.request victim _ r).numComputedTokens = _
      rw [Function.update_of_ne hne]
  | close hphase hs =>
      rcases hs with rfl | ⟨r', hs⟩
      · exact Or.inl ⟨Or.inl hfind, rfl⟩
      · exact Or.inl ⟨Or.inl hfind, (hs.counts r).1⟩
  | setAside hphase hs hfree hpop => exact Or.inl ⟨Or.inl hfind, (hs.counts r).1⟩
  | lookUp hphase hs hpreempted hhits hexternal hrunning hn hbudget hlen =>
      exact Or.inl ⟨Or.inl hfind, (hs.counts r).1⟩
  | decline hphase hok => exact Or.inl ⟨Or.inl hfind, rfl⟩
  | @accept r₁ r' hits blocks numLocal numExternal n' ids kv waiting connector loras hphase hok hpop
      hstatus hconnector =>
      obtain rfl : r' = r₁ := RequestQueue.head_of_pop (hb.admitting _ _ _ _ _ _ hphase).2.1 hpop
      change (l.numScheduledTokens.store r' n').find r = some n at hfind
      rw [Dict.find_store] at hfind
      split at hfind
      · rename_i heq
        subst heq
        obtain rfl := Option.some.inj hfind
        refine Or.inr ⟨hits, numLocal, numExternal, ids, blocks, kv, hphase, hok, ?_⟩
        show (Function.update l.scheduler.request r _ r).numComputedTokens = _
        rw [Function.update_self]
        rfl
      · rename_i hne
        refine Or.inl ⟨Or.inl hfind, ?_⟩
        show (Function.update l.scheduler.request r' _ r).numComputedTokens = _
        rw [Function.update_of_ne hne]

/-- The count of the request being served stays. -/
theorem Outcome.serving (h : Outcome l l') {r : RequestId} {n : ℕ}
    (hnext : l'.phase = .allocating r n) :
    (l'.scheduler.request r).numComputedTokens = (l.scheduler.request r).numComputedTokens := by
  cases h with
  | rest hphase => rfl
  | enter hphase =>
      dsimp only at hnext
      split at hnext <;> cases hnext
  | pass hphase hr => exact disableSpeculation_numComputedTokens ..
  | takeUp hphase hr hn hbudget hspec hlen => exact disableSpeculation_numComputedTokens ..
  | commit hphase hok => cases hnext
  | @preempt r' victim n' kv inBatch blocks scheduled inputs cache encoderBudget tokenBudget
      reqIndex loras hphase hok hvictim hstatus hfree hbatch hinputs =>
      dsimp only at hnext
      split at hnext
      · cases hnext
      · rename_i hne
        cases hnext
        show (Function.update l.scheduler.request victim _ r).numComputedTokens = _
        rw [Function.update_of_ne (Ne.symm hne)]
  | close hphase hs => cases hnext
  | setAside hphase hs hfree hpop => cases hnext
  | lookUp hphase hs hpreempted hhits hexternal hrunning hn hbudget hlen => cases hnext
  | decline hphase hok => cases hnext
  | accept hphase hok hpop hstatus hconnector => cases hnext

/-! ### What goes wrong -/

/-- A request is admitted with an image in the span it is sent that is not in the
span, from zero, its images were picked from. -/
def skips (l : StepState H) : Bool :=
  match l.phase with
  | .admitting r hits numLocal numExternal n _ =>
    match l.scheduler.kvCacheManager.allocateSlots (l.scheduler.request r) n
      (numLocal + numExternal) (some hits) 0 false with
    | .ok (some _, _) => (l.scheduler.request r).mmFeatures.any fun feature =>
        decide (feature.Meets (numLocal + numExternal) (numLocal + numExternal + n) ∧
          ¬ feature.Meets 0 n)
    | _ => false
  | _ => false

/-- A victim, or a request without slots, had inputs that were to be encoded. -/
def drops (l : StepState H) : Bool :=
  match l.phase with
  | .allocating r n =>
    match l.scheduler.kvCacheManager.allocateSlots (l.scheduler.request r) n 0 none 0 false,
      l.scheduler.selectVictim with
    | .ok (none, _), .ok victim => decide (l.scheduledEncoderInputs.findD victim [] ≠ [])
    | _, _ => false
  | .admitting r hits numLocal numExternal n ids =>
    match l.scheduler.kvCacheManager.allocateSlots (l.scheduler.request r) n
      (numLocal + numExternal) (some hits) 0 false with
    | .ok (none, _) => decide (ids ≠ [])
    | _ => false
  | _ => false

omit [DecidableEq H] in
theorem encoderPart_release_nil {r : RequestId} {ids : List ℕ} (hids : ids = [])
    (hpart : l'.encoderPart = (l.releaseEncoderReservation r ids).encoderPart) :
    l'.scheduler.encoderCacheManager = l.scheduler.encoderCacheManager ∧
      l'.scheduledEncoderInputs = l.scheduledEncoderInputs.delete r := by
  rw [hids, releaseEncoderReservation_nil] at hpart
  exact ⟨congrArg EncoderPart.cache hpart, congrArg EncoderPart.inputs hpart⟩

/-- Where nothing is dropped, what is held stays so for the call. -/
theorem Encodes.held_mono (h : Encodes l l') (hnot : l.drops = false) (r : RequestId) :
    ∀ i ∈ l.scheduler.encoderCacheManager.getCachedInputIds r,
      i ∈ l'.scheduler.encoderCacheManager.getCachedInputIds r := by
  cases h with
  | still hpart =>
      rw [show l'.scheduler.encoderCacheManager = l.scheduler.encoderCacheManager from
        congrArg EncoderPart.cache hpart]
      exact fun i hi => hi
  | reserveRunning hphase hr hn hok =>
      have hheld := ((Scheduler.scheduleEncoder_reserves hok).held r).2
      rw [disableSpeculation_frame] at hheld
      exact hheld
  | reserveWaiting hphase hs hcache hn hok =>
      have hheld := ((Scheduler.scheduleEncoder_reserves hok).held r).2
      rw [hcache] at hheld
      exact hheld
  | release hphase hdeclined hvictim hpart =>
      simp only [drops, hphase, hdeclined, hvictim, decide_eq_false_iff_not, not_not] at hnot
      rw [(encoderPart_release_nil hnot hpart).1]
      exact fun i hi => hi
  | place hphase hcache =>
      rw [hcache]
      exact fun i hi => hi
  | decline hphase hdeclined hpart =>
      simp only [drops, hphase, hdeclined, decide_eq_false_iff_not, not_not] at hnot
      rw [(encoderPart_release_nil hnot hpart).1]
      exact fun i hi => hi

/-! ### Every span is covered -/

/-- The request holds its images that meet a span. -/
def HoldsSpan (features : RequestId → List MultiModalFeatureSpec) (l : StepState H)
    (r : RequestId) (start stop : ℕ) : Prop :=
  ∀ i feature, (features r)[i]? = some feature → feature.Meets start stop →
    i ∈ l.scheduler.encoderCacheManager.getCachedInputIds r

/-- The requests in the batch hold the images of their spans, and so does the one
that may come into it. -/
structure Covered (features : RequestId → List MultiModalFeatureSpec) (l : StepState H) : Prop where
  batch : ∀ r n, l.numScheduledTokens.find r = some n →
    l.HoldsSpan features r (l.scheduler.request r).numComputedTokens
      ((l.scheduler.request r).numComputedTokens + n)
  allocating : ∀ r n, l.phase = .allocating r n →
    l.HoldsSpan features r (l.scheduler.request r).numComputedTokens
      ((l.scheduler.request r).numComputedTokens + n)
  admitting : ∀ r hits numLocal numExternal n ids,
    l.phase = .admitting r hits numLocal numExternal n ids → l.HoldsSpan features r 0 n

variable (features) in
omit [DecidableEq H] in
theorem scheduleEncoder_holdsSpan {s : Scheduler H} {r : RequestId} {n n' budget budget' : ℕ}
    {ids : List ℕ} (hid : (s.request r).requestId = r)
    (hfeatures : (s.request r).mmFeatures = features r) (horder : InOrder (features r))
    (hpos : n' ≠ 0) (h : s.scheduleEncoder r n budget =
      .ok (n', ids, budget', l.scheduler.encoderCacheManager)) :
    l.HoldsSpan features r (s.request r).numComputedTokens
      ((s.request r).numComputedTokens + n') := by
  intro i feature hfeature hmeets
  have hcovers := (Scheduler.scheduleEncoder_reserves h).covers (Nat.pos_of_ne_zero hpos) (by
    rw [itemsOf_map_snd, hfeatures]
    exact horder) (i, feature) (by
    rw [mem_itemsOf, hfeatures]
    exact hfeature) hmeets
  rwa [hid] at hcovers

/-- Every step keeps the spans covered, unless it skips an image or drops one. -/
theorem Encodes.covered (h : Encodes l l') (hout : Outcome l l') (hb : Batch l)
    (hfeatures : ∀ r, (l.scheduler.request r).mmFeatures = features r)
    (horder : ∀ r ∈ l.scheduler.requests, InOrder (features r)) (hskips : l.skips = false)
    (hdrops : l.drops = false) (hl : l.Covered features) : l'.Covered features := by
  have hid := hb.partition.requestId
  have hmono : ∀ {r start stop}, l.HoldsSpan features r start stop →
      l'.HoldsSpan features r start stop := fun hspan i feature hfeature hmeets =>
    h.held_mono hdrops _ i (hspan i feature hfeature hmeets)
  refine ⟨fun r n hfind => ?_, fun r n hnext => ?_, fun r hits a b n ids hnext => ?_⟩
  · rcases hout.spans hb hfind with ⟨hbefore | hphase, hcount⟩ |
      ⟨hits, numLocal, numExternal, ids, blocks, kv, hphase, hok, hcount⟩
    · rw [hcount]
      exact hmono (hl.batch r n hbefore)
    · rw [hcount]
      exact hmono (hl.allocating r n hphase)
    · -- an admission begins behind its hits, where nothing is skipped
      rw [hcount]
      intro i feature hfeature hmeets
      simp only [skips, hphase, hok, List.any_eq_false, decide_eq_true_eq, not_and,
        not_not] at hskips
      have hmem : feature ∈ (l.scheduler.request r).mmFeatures := by
        rw [hfeatures]
        exact List.mem_of_getElem? hfeature
      exact hmono (hl.admitting r _ _ _ _ _ hphase) i feature hfeature (hskips feature hmem hmeets)
  · -- a running request that asks for its slots
    rw [hout.serving hnext]
    cases h with
    | still hpart hbefore hafter hrunning hidle => exact absurd hnext (hidle r n)
    | @reserveRunning r' n₀ n' ids' hphase hr hn hok hnext' hrunning =>
        rcases hnext' with ⟨-, -, hphase'⟩ | ⟨hpos, -, hphase'⟩
        · rw [hnext] at hphase'
          cases hphase'
        rw [hnext] at hphase'
        cases hphase'
        have hkeeps := (disableSpeculation_keeps l.scheduler r r).encoder
        have hspan := scheduleEncoder_holdsSpan features (hkeeps.1.trans (hid r))
          (hkeeps.2.trans (hfeatures r))
          (horder r (hb.partition.known_of_running (List.mem_of_getElem? hr))) hpos hok
        rwa [disableSpeculation_numComputedTokens] at hspan
    | reserveWaiting hphase hs hcache hn hok hinputs hrequest hnext' hrunning =>
        rcases hnext' with ⟨-, hphase'⟩ | ⟨-, hits, a, b, hphase'⟩
        · rw [hnext] at hphase'
          cases hphase'
        · rw [hnext] at hphase'
          cases hphase'
    | release hphase hdeclined hvictim hpart hnext' hrunning =>
        rw [hnext] at hnext'
        split at hnext'
        · cases hnext'
        · cases hnext'
          exact hmono (hl.allocating r n hphase)
    | place hphase hcache hbudget hinputs hnext' hrunning =>
        rw [hnext] at hnext'
        cases hnext'
    | decline hphase hdeclined hpart hnext' hrunning =>
        rw [hnext] at hnext'
        cases hnext'
  · -- a waiting one, of which nothing is computed
    cases h with
    | still hpart hbefore hafter hrunning hidle =>
        rw [hnext] at hafter
        cases hafter
    | reserveRunning hphase hr hn hok hnext' hrunning =>
        rcases hnext' with ⟨-, -, hphase'⟩ | ⟨-, -, hphase'⟩
        · rw [hnext] at hphase'
          cases hphase'
        · rw [hnext] at hphase'
          cases hphase'
    | @reserveWaiting s r' n₀ n' ids' hphase hs hcache hn hok hinputs hrequest hnext' hrunning =>
        rcases hnext' with ⟨-, hphase'⟩ | ⟨hpos, hits', a', b', hphase'⟩
        · rw [hnext] at hphase'
          cases hphase'
        rw [hnext] at hphase'
        cases hphase'
        have hqueued : r ∈ l.scheduler.queued :=
          List.mem_append_left _ (List.mem_of_head? hs.head)
        have hkeeps := (hs.keeps r).encoder
        have hspan := scheduleEncoder_holdsSpan features (hkeeps.1.trans (hid r))
          (hkeeps.2.trans (hfeatures r)) (horder r (hb.partition.known_of_waiting hqueued)) hpos hok
        rwa [(hs.counts r).1, (hb.partition.queued r hqueued).numComputedTokens,
          Nat.zero_add] at hspan
    | release hphase hdeclined hvictim hpart hnext' hrunning =>
        rw [hnext] at hnext'
        split at hnext' <;> cases hnext'
    | place hphase hcache hbudget hinputs hnext' hrunning =>
        rw [hnext] at hnext'
        cases hnext'
    | decline hphase hdeclined hpart hnext' hrunning =>
        rw [hnext] at hnext'
        cases hnext'

/-! ### What is held is encoded -/

/-- The hashes of what is to be encoded in the step, so far. -/
def EncodesNow (features : RequestId → List MultiModalFeatureSpec) (l : StepState H)
    (mmHash : String) : Prop :=
  (∃ r, mmHash ∈ hashesOf (features r) (l.scheduledEncoderInputs.findD r [])) ∨
    ∃ r ids, l.phase.pending = some (r, ids) ∧ mmHash ∈ hashesOf (features r) ids

/-- Where nothing is dropped, what is to be encoded stays so for the call. -/
theorem Encodes.encodesNow_mono (h : Encodes l l') (hb : Batch l) (hnot : l.drops = false)
    {mmHash : String} (hnow : l.EncodesNow features mmHash) : l'.EncodesNow features mmHash := by
  -- what was placed stays where the entries are kept, but for one that had none
  have hplaced : ∀ {r}, l.scheduledEncoderInputs.findD r [] = [] →
      (∀ r', r' ≠ r →
        l'.scheduledEncoderInputs.findD r' [] = l.scheduledEncoderInputs.findD r' []) →
      (∃ r, mmHash ∈ hashesOf (features r) (l.scheduledEncoderInputs.findD r [])) →
        l'.EncodesNow features mmHash := by
    rintro r hnone hkept ⟨r', hmem⟩
    by_cases heq : r' = r
    · rw [heq, hnone] at hmem
      exact absurd hmem List.not_mem_nil
    · exact Or.inl ⟨r', by rwa [hkept r' heq]⟩
  have hpending : ∀ {r ids}, l.phase.pending = some (r, ids) → r ∈ l.scheduler.queued ∧
      l.scheduledEncoderInputs.findD r [] = [] := by
    intro r ids hsome
    unfold Phase.pending at hsome
    split at hsome
    · rename_i r' hits a b n ids' hphase
      cases hsome
      have hqueued : r ∈ l.scheduler.queued :=
        List.mem_append_left _ (List.mem_of_head? (hb.admitting _ _ _ _ _ _ hphase).2.1)
      exact ⟨hqueued, Dict.findD_of_not_mem
        (hb.no_inputs_of_queued (by rw [hphase]; rfl) hqueued) _⟩
    · cases hsome
  cases h with
  | still hpart hbefore hafter =>
      rcases hnow with ⟨r, hmem⟩ | ⟨r, ids, hsome, -⟩
      · exact Or.inl ⟨r, by
          rwa [show l'.scheduledEncoderInputs = l.scheduledEncoderInputs from
            congrArg EncoderPart.inputs hpart]⟩
      · rw [hbefore] at hsome
        cases hsome
  | @reserveRunning r n n' ids hphase hr hn hok hnext hrunning =>
      rcases hnow with hmem | ⟨r', ids', hsome, -⟩
      · have hfresh : l.scheduledEncoderInputs.findD r [] = [] := by
          refine Dict.findD_of_not_mem (fun hkey => ?_) _
          have hover : l.phase.overRunning = true := by rw [hphase]; rfl
          have hin := hb.not_allocating (Or.inr hphase) hkey
          rw [hb.batch_eq hover] at hin
          exact hb.at_index hover hr hin
        refine hplaced hfresh (fun r' hne => ?_) hmem
        rcases hnext with ⟨-, hinputs, -⟩ | ⟨-, hinputs, -⟩
        · rw [hinputs]
        · rw [hinputs]
          split
          · rfl
          · rw [Dict.findD_store, if_neg hne]
      · rw [hphase] at hsome
        cases hsome
  | reserveWaiting hphase hs hcache hn hok hinputs hrequest hnext hrunning =>
      rcases hnow with ⟨r', hmem⟩ | ⟨r', ids', hsome, -⟩
      · exact Or.inl ⟨r', by rwa [hinputs]⟩
      · rw [hphase] at hsome
        cases hsome
  | @release r victim n kv hphase hdeclined hvictim hpart hnext hrunning =>
      simp only [drops, hphase, hdeclined, hvictim, decide_eq_false_iff_not, not_not] at hnot
      rcases hnow with hmem | ⟨r', ids', hsome, -⟩
      · refine hplaced hnot (fun r' hne => ?_) hmem
        rw [(encoderPart_release_nil hnot hpart).2, Dict.findD_delete, if_neg hne]
      · rw [hphase] at hsome
        cases hsome
  | @place r hits a b n ids hphase hcache hbudget hinputs hnext hrunning =>
      have hhere : l.phase.pending = some (r, ids) := by rw [hphase]; rfl
      rcases hnow with hmem | ⟨r', ids', hsome, hmem⟩
      · refine hplaced (hpending hhere).2 (fun r' hne => ?_) hmem
        rw [hinputs]
        split
        · rfl
        · rw [Dict.findD_store, if_neg hne]
      · rw [hhere] at hsome
        cases hsome
        have hids : ids ≠ [] := by
          rintro rfl
          exact List.not_mem_nil hmem
        refine Or.inl ⟨r, ?_⟩
        rw [hinputs, if_neg hids, Dict.findD_store, if_pos rfl]
        exact hmem
  | @decline r hits a b n ids kv hphase hdeclined hpart hnext hrunning =>
      simp only [drops, hphase, hdeclined, decide_eq_false_iff_not, not_not] at hnot
      have hhere : l.phase.pending = some (r, ids) := by rw [hphase]; rfl
      rcases hnow with hmem | ⟨r', ids', hsome, hmem⟩
      · refine hplaced (hpending hhere).2 (fun r' hne => ?_) hmem
        rw [(encoderPart_release_nil hnot hpart).2, Dict.findD_delete, if_neg hne]
      · rw [hhere] at hsome
        cases hsome
        rw [hnot] at hmem
        exact absurd hmem List.not_mem_nil

/-- Unless a step drops something, it leaves the cache alone, or reserves for a request
what is then to be encoded. -/
theorem Encodes.cache_moves (h : Encodes l l') (hb : Batch l)
    (hfeatures : ∀ r, (l.scheduler.request r).mmFeatures = features r)
    (horder : ∀ r ∈ l.scheduler.requests, InOrder (features r)) (hnot : l.drops = false) :
    l'.scheduler.encoderCacheManager = l.scheduler.encoderCacheManager ∨
      ∃ (request : Request H) (n n' : ℕ) (ids : List ℕ),
        Reserves request n (itemsOf request.mmFeatures) [] l.scheduler.encoderCacheManager n' ids
          l'.scheduler.encoderCacheManager ∧
        (∀ item ∈ itemsOf request.mmFeatures,
          (features request.requestId)[item.1]? = some item.2) ∧
        ∀ mmHash ∈ hashesOf (features request.requestId) ids, l'.EncodesNow features mmHash := by
  have hid := hb.partition.requestId
  -- what is reserved is among the inputs of the step, or pending
  have hreserve : ∀ {s : Scheduler H} {r n n' budget budget' ids}, 0 < n →
      (∀ r, (l.scheduler.request r).Keeps (s.request r)) →
      s.encoderCacheManager = l.scheduler.encoderCacheManager → r ∈ l.scheduler.requests →
      s.scheduleEncoder r n budget =
        .ok (n', ids, budget', l'.scheduler.encoderCacheManager) →
      (n' ≠ 0 → ids ≠ [] → l'.scheduledEncoderInputs.findD r [] = ids ∨
        l'.phase.pending = some (r, ids)) →
      ∃ (request : Request H) (n n' : ℕ) (ids : List ℕ),
        Reserves request n (itemsOf request.mmFeatures) [] l.scheduler.encoderCacheManager n' ids
          l'.scheduler.encoderCacheManager ∧
        (∀ item ∈ itemsOf request.mmFeatures,
          (features request.requestId)[item.1]? = some item.2) ∧
        ∀ mmHash ∈ hashesOf (features request.requestId) ids, l'.EncodesNow features mmHash := by
    intro s r n n' budget budget' ids hn hkeeps hcache hr hok hnext
    obtain ⟨hsame, hsame'⟩ := (hkeeps r).encoder
    have hsame' := hsame'.trans (hfeatures r)
    have hreserves := Scheduler.scheduleEncoder_reserves hok
    rw [hcache] at hreserves
    refine ⟨s.request r, n, n', ids, hreserves, fun item hitem => ?_, fun mmHash hmem => ?_⟩
    · rw [hsame, hid, ← hsame']
      exact mem_itemsOf.mp hitem
    · rw [hsame, hid] at hmem
      have hids : ids ≠ [] := by
        rintro rfl
        exact List.not_mem_nil hmem
      have hpos : n' ≠ 0 := by
        rintro rfl
        exact hids (Scheduler.scheduleEncoder_zero hn (by rw [hsame']; exact horder r hr) hok)
      rcases hnext hpos hids with hplaced | hpending
      · exact Or.inl ⟨r, by rwa [hplaced]⟩
      · exact Or.inr ⟨r, ids, hpending, hmem⟩
  cases h with
  | still hpart => exact Or.inl (congrArg EncoderPart.cache hpart)
  | @reserveRunning r n n' ids hphase hr hn hok hnext hrunning =>
      refine Or.inr (hreserve hn (disableSpeculation_keeps l.scheduler r) ?_
        (hb.partition.known_of_running (List.mem_of_getElem? hr)) hok fun hpos hids => Or.inl ?_)
      · rw [disableSpeculation_frame]
      · rcases hnext with ⟨hzero, -⟩ | ⟨-, hinputs, -⟩
        · exact absurd hzero hpos
        · rw [hinputs, if_neg hids, Dict.findD_store, if_pos rfl]
  | @reserveWaiting s r n n' ids hphase hs hcache hn hok hinputs hrequest hnext hrunning =>
      refine Or.inr (hreserve hn hs.keeps hcache (hb.partition.known_of_waiting
        (List.mem_append_left _ (List.mem_of_head? hs.head))) hok fun hpos hids => Or.inr ?_)
      rcases hnext with ⟨hzero, -⟩ | ⟨-, hits, a, b, hphase'⟩
      · exact absurd hzero hpos
      · rw [hphase']
        rfl
  | release hphase hdeclined hvictim hpart =>
      simp only [drops, hphase, hdeclined, hvictim, decide_eq_false_iff_not, not_not] at hnot
      exact Or.inl (encoderPart_release_nil hnot hpart).1
  | place hphase hcache => exact Or.inl hcache
  | decline hphase hdeclined hpart =>
      simp only [drops, hphase, hdeclined, decide_eq_false_iff_not, not_not] at hnot
      exact Or.inl (encoderPart_release_nil hnot hpart).1

/-- Every step keeps what is resident or held within what was encoded before and is
to be encoded now, unless it drops something. -/
theorem Encodes.within {encoded : List String} (h : Encodes l l') (hb : Batch l)
    (hfeatures : ∀ r, (l.scheduler.request r).mmFeatures = features r)
    (horder : ∀ r ∈ l.scheduler.requests, InOrder (features r)) (hnot : l.drops = false)
    (hl : l.scheduler.encoderCacheManager.Within features
      fun mmHash => mmHash ∈ encoded ∨ l.EncodesNow features mmHash) :
    l'.scheduler.encoderCacheManager.Within features
      fun mmHash => mmHash ∈ encoded ∨ l'.EncodesNow features mmHash := by
  have hmono := hl.mono fun mmHash hknown =>
    hknown.imp_right fun hnow => h.encodesNow_mono hb hnot hnow
  rcases h.cache_moves hb hfeatures horder hnot with hsame | ⟨_, _, _, ids, hreserves, hitems, hnow⟩
  · rwa [hsame]
  · exact hreserves.within hitems (fun mmHash hmem => Or.inr (hnow mmHash hmem)) hmono

end StepState

/-! ### Every call -/

def SchedulerOutput.sentFrom (output : SchedulerOutput) : List (RequestId × ℕ) :=
  (output.scheduledNewReqs.map fun new => (new.reqId, new.numComputedTokens)) ++
    output.scheduledCachedReqs.reqIds.zip output.scheduledCachedReqs.numComputedTokens

/-- An item meets the span a request is sent. -/
def SchedulerOutput.SpanMeets (output : SchedulerOutput) (r : RequestId)
    (feature : MultiModalFeatureSpec) : Prop :=
  ∃ n start, output.numScheduledTokens.find r = some n ∧ (r, start) ∈ output.sentFrom ∧
    feature.Meets start (start + n)

omit [DecidableEq H] in
/-- Each request is sent the count it has when the output is built. -/
theorem StepState.Finishes.sentFrom {l : StepState H} {output : SchedulerOutput}
    {s' : Scheduler H} (h : Finishes l output s')
    (hid : ∀ r, (l.scheduler.request r).requestId = r) :
    output.sentFrom =
      (l.scheduledNewReqs ++ l.scheduledResumedReqs ++ l.scheduledRunningReqs).map fun r =>
        (r, (l.scheduler.request r).numComputedTokens) := by
  have hnew := makeNewRequestData_map (fun new => (new.reqId, new.numComputedTokens))
    (fun r => (r, (l.scheduler.request r).numComputedTokens))
    (fun r blocks => Prod.ext (hid r) rfl) h.newReqs
  have hcached := h.cachedReqs
  unfold makeCachedRequestData at hcached
  dsimp only at hcached
  split at hcached
  · cases hcached
  have hdata := (Except.ok.inj hcached).symm
  have hrunning : l.scheduledRunningReqs.zip (l.scheduledRunningReqs.map fun r =>
      (l.scheduler.request r).numComputedTokens) =
      l.scheduledRunningReqs.map fun r => (r, (l.scheduler.request r).numComputedTokens) := by
    rw [← List.zip_map', List.map_id']
  rw [SchedulerOutput.sentFrom, hnew, hdata, hrunning]
  exact List.map_append.symm

namespace Scheduler

variable {s s' : Scheduler H}

def encodedIn (s : Scheduler H) (output : SchedulerOutput) : List String :=
  output.scheduledEncoderInputs.items.flatMap fun entry =>
    hashesOf (s.request entry.1).mmFeatures entry.2

omit [DecidableEq H] in
/-- What was to be encoded at the end of the loops is in the decision. -/
theorem encodesNow_encodedIn {output : SchedulerOutput} {l : StepState H} {mmHash : String}
    (hfinished : l.phase = .finished) (hfinishes : StepState.Finishes l output s')
    (hnow : l.EncodesNow (fun r => (s.request r).mmFeatures) mmHash) :
    mmHash ∈ s.encodedIn output := by
  rcases hnow with ⟨r, hmem⟩ | ⟨r, ids, hpending, -⟩
  · cases hfind : l.scheduledEncoderInputs.find r with
    | none =>
        rw [Dict.findD, hfind] at hmem
        exact absurd hmem List.not_mem_nil
    | some ids =>
        rw [Dict.findD, hfind] at hmem
        rw [encodedIn, hfinishes.encoder]
        exact List.mem_flatMap.mpr ⟨(r, ids), (Dict.find_eq_some_iff ..).mp hfind, hmem⟩
  · rw [hfinished] at hpending
    cases hpending

/-- Every request of a step is sent a span, and its images that meet the span are
held, and encoded: in the step, or before. -/
structure Covers (encoded : List String) (s : Scheduler H) (output : SchedulerOutput)
    (s' : Scheduler H) : Prop where
  sent : ∀ r ∈ output.numScheduledTokens.keys, ∃ start, (r, start) ∈ output.sentFrom
  held : ∀ (r : RequestId) (i : ℕ) (feature : MultiModalFeatureSpec),
    (s.request r).mmFeatures[i]? = some feature → output.SpanMeets r feature →
      i ∈ s'.encoderCacheManager.getCachedInputIds r
  encoded : ∀ (r : RequestId) (i : ℕ) (feature : MultiModalFeatureSpec),
    (s.request r).mmFeatures[i]? = some feature → output.SpanMeets r feature →
      feature.identifier ∈ s.encodedIn output ∨ feature.identifier ∈ encoded

/-- Nothing is skipped and nothing is dropped in a call. -/
def Careful (s : Scheduler H) : Prop :=
  ∀ l, StepState.Loops (StepState.start s) l → l.skips = false ∧ l.drops = false

/-- In a call without a slip the spans are covered, and what is resident or held
after it is encoded. -/
theorem schedule_covers {encoded : List String} {output : SchedulerOutput} (hpart : s.Partitioned)
    (horder : ∀ r ∈ s.requests, InOrder (s.request r).mmFeatures)
    (hwithin : s.encoderCacheManager.Within (fun r => (s.request r).mmFeatures) (· ∈ encoded))
    (hcareful : s.Careful) (hok : s.schedule = .ok (output, s')) :
    s.Covers encoded output s' ∧
      s'.encoderCacheManager.Within (fun r => (s.request r).mmFeatures)
        (· ∈ encoded ++ s.encodedIn output) := by
  set features := fun r => (s.request r).mmFeatures with hfeatures
  obtain ⟨l, hloops, hfinished, hfinishes, -, hcache, -, -⟩ := schedule_encoder hok
  have hb := hloops.batch hpart
  have hl : l.Covered features ∧ l.scheduler.encoderCacheManager.Within features
      fun mmHash => mmHash ∈ encoded ∨ l.EncodesNow features mmHash := by
    refine hloops.encoding_invariant (P := fun l => l.Covered features ∧
      l.scheduler.encoderCacheManager.Within features
        fun mmHash => mmHash ∈ encoded ∨ l.EncodesNow features mmHash) hpart
      ⟨⟨fun r n h => (by cases h), fun r n h => (by cases h),
        fun r hits a b n ids h => (by cases h)⟩, hwithin.mono fun _ => Or.inl⟩ ?_
    rintro l l' hreach hb hout henc ⟨hcovered, hwithin⟩
    have hsame : ∀ r, (l.scheduler.request r).mmFeatures = features r := fun r =>
      (StepState.Loops.keeps hreach r).encoder.2
    have horder' : ∀ r ∈ l.scheduler.requests, InOrder (features r) := fun r hr =>
      horder r ((StepState.Loops.static hreach).2.1 ▸ hr)
    obtain ⟨hskips, hdrops⟩ := hcareful l hreach
    exact ⟨henc.covered hout hb hsame horder' hskips hdrops hcovered,
      henc.within hb hsame horder' hdrops hwithin⟩
  obtain ⟨hcovered, hwithin'⟩ := hl
  -- whatever was encoded in the loops is in the decision
  have hnow : ∀ mmHash, l.EncodesNow features mmHash → mmHash ∈ s.encodedIn output :=
    fun mmHash => encodesNow_encodedIn hfinished hfinishes
  have hsent := hfinishes.sentFrom hb.partition.requestId
  have hat : ∀ {r start}, (r, start) ∈ output.sentFrom →
      start = (l.scheduler.request r).numComputedTokens := by
    intro r start hmem
    rw [hsent] at hmem
    obtain ⟨r', -, heq⟩ := List.mem_map.mp hmem
    cases heq
    rfl
  have hheld : ∀ (r : RequestId) (i : ℕ) (feature : MultiModalFeatureSpec),
      (s.request r).mmFeatures[i]? = some feature → output.SpanMeets r feature →
        i ∈ l.scheduler.encoderCacheManager.getCachedInputIds r := by
    rintro r i feature hfeature ⟨n, start, hfind, hstart, hmeets⟩
    rw [hfinishes.scheduled] at hfind
    rw [hat hstart] at hmeets
    exact hcovered.batch r n hfind i feature hfeature hmeets
  refine ⟨⟨fun r hr => ?_, fun r i feature hfeature hspan => ?_,
    fun r i feature hfeature hspan => ?_⟩, ?_⟩
  · rw [hfinishes.scheduled, hb.keys, StepState.batch, List.mem_append] at hr
    rw [hsent]
    exact ⟨_, List.mem_map.mpr ⟨r, List.mem_append.mpr hr.symm, rfl⟩⟩
  · rw [hcache]
    exact hheld r i feature hfeature hspan
  · have hin := hheld r i feature hfeature hspan
    exact (hwithin'.held r i hin feature hfeature).symm.imp_left (hnow _)
  · rw [hcache]
    refine ⟨fun mmHash hsome => ?_, fun r i hi feature hfeature => ?_⟩
    · exact List.mem_append.mpr ((hwithin'.resident mmHash hsome).imp_right (hnow _))
    · exact List.mem_append.mpr ((hwithin'.held r i hi feature hfeature).imp_right (hnow _))

/-! ### Every run -/

/-- A scheduler, with the hashes its steps were to encode so far. -/
structure Traced (H : Type) where
  scheduler : Scheduler H
  encoded : List String

/-- A step of the scheduler; where it is a call of `schedule`, a careful one. -/
def CarefulStep (t : Traced H) (event : Event) (t' : Traced H) : Prop :=
  Step t.scheduler event t'.scheduler ∧
    match event with
    | .schedule output =>
      t.scheduler.Careful ∧ t'.encoded = t.encoded ++ t.scheduler.encodedIn output
    | _ => t'.encoded = t.encoded

/-- A careful step keeps what is resident or held within what is encoded. -/
theorem CarefulStep.within {t t' : Traced H} {event : Event} (h : CarefulStep t event t')
    (hsettled : t.scheduler.Settled) (howned : t.scheduler.Owned)
    (horder : ∀ r ∈ t.scheduler.requests, InOrder (t.scheduler.request r).mmFeatures)
    (hwithin : t.scheduler.encoderCacheManager.Within
      (fun r => (t.scheduler.request r).mmFeatures) (· ∈ t.encoded)) :
    t'.scheduler.encoderCacheManager.Within
      (fun r => (t'.scheduler.request r).mmFeatures) (· ∈ t'.encoded) := by
  obtain ⟨hstep, hevent⟩ := h
  have hsettled' := hstep.settled hsettled
  have howned' := hstep.owned hsettled howned
  have hcongr : ∀ {known : String → Prop},
      (∀ r, t'.scheduler.encoderCacheManager.getCachedInputIds r ≠ [] → r ∈ t.scheduler.requests) →
      t'.scheduler.encoderCacheManager.Within (fun r => (t.scheduler.request r).mmFeatures) known →
      t'.scheduler.encoderCacheManager.Within (fun r => (t'.scheduler.request r).mmFeatures)
        known :=
    fun hknown h => h.congr fun r hr => hstep.features (hknown r hr)
  rcases hstep.givesBack hsettled howned.sound with ⟨output, rfl⟩ | hback
  · obtain ⟨hcareful, hencoded⟩ := hevent
    cases hstep with
    | schedule hok =>
        have hafter := (schedule_covers hsettled.partition horder hwithin hcareful hok).2
        rw [hencoded]
        refine hcongr (fun r hr => ?_) hafter
        obtain ⟨l, hloops, -, -, -, -, -, hrequests⟩ := schedule_encoder hok
        have hknown := howned'.known r hr
        rwa [hrequests, (StepState.Loops.static hloops).2.1] at hknown
  · have hmore : ∀ mmHash ∈ t.encoded, mmHash ∈ t'.encoded := by
      intro mmHash hmem
      cases event with
      | schedule output =>
          rw [hevent.2]
          exact List.mem_append_left _ hmem
      | _ =>
          rw [show t'.encoded = t.encoded from hevent]
          exact hmem
    refine hcongr (fun r hr => ?_) ((hwithin.gives hback.gives).mono hmore)
    obtain ⟨i, hi⟩ := List.exists_mem_of_ne_nil _ hr
    exact howned.known r (List.ne_nil_of_mem (hback.gives.held r i hi))

/-- Over every careful run, the spans of a careful call are covered. -/
theorem run_covers {config : SchedulerConfig} {kvCacheConfig : KVCacheConfig}
    {enableCaching : Bool} {hashFn : HashInput H → H} {seed : ℕ}
    {connector : Option (SimSharedStoreConnector H)} {s₀ : Scheduler H} {t : Traced H}
    {events : List Event} {output : SchedulerOutput}
    (hinit : init config kvCacheConfig enableCaching hashFn seed connector = .ok s₀)
    (horder : ∀ args, Event.addRequest args ∈ events → InOrder args.mmFeatures)
    (hrun : Run CarefulStep ⟨s₀, []⟩ events t) (hcareful : t.scheduler.Careful)
    (hok : t.scheduler.schedule = .ok (output, s')) :
    t.scheduler.Covers t.encoded output s' := by
  have hinOrder : ∀ {t events}, Run CarefulStep ⟨s₀, []⟩ events t →
      (∀ args, Event.addRequest args ∈ events → InOrder args.mmFeatures) →
        ∀ r ∈ t.scheduler.requests, InOrder (t.scheduler.request r).mmFeatures := by
    intro t events hrun horder r hr
    obtain ⟨args, hmem, -, hasked⟩ := run_asked (hrun.map Traced.scheduler fun _ _ _ h => h.1)
      (init_settled hinit).2.1 r hr
    rw [hasked.mmFeatures]
    exact horder args hmem
  obtain ⟨howned₀, hnone, hcached, -⟩ := init_owned hinit
  have hall : t.scheduler.Settled ∧ t.scheduler.Owned ∧ t.scheduler.encoderCacheManager.Within
      (fun r => (t.scheduler.request r).mmFeatures) (· ∈ t.encoded) := by
    clear hcareful hok
    induction hrun with
    | nil =>
        refine ⟨(init_settled hinit).1, howned₀, fun mmHash hsome => ?_, fun r i hi => ?_⟩
        · rw [hcached] at hsome
          cases hsome
        · rw [hnone r] at hi
          exact absurd hi List.not_mem_nil
    | @snoc events t t' event hrun hstep ih =>
        have horder' := fun args hmem => horder args (List.mem_append_left _ hmem)
        obtain ⟨hsettled, howned, hwithin⟩ := ih horder'
        exact ⟨hstep.1.settled hsettled, hstep.1.owned hsettled howned,
          hstep.within hsettled howned (hinOrder hrun horder') hwithin⟩
  exact (schedule_covers hall.1.partition (hinOrder hrun horder) hall.2.2 hcareful hok).1

def coverRun : Except PyError (Request Digest × Scheduler Digest × SchedulerOutput ×
    Scheduler Digest) := do
  let s₀ ← init (shortConfig .fcfs) (shortKVConfig 8) true Digest.hash 0 none
  let request ← Request.init (imageArgs 1)
  let (output, s₁) ← (s₀.addRequest request).schedule
  return (request, s₀.addRequest request, output, s₁)

theorem run_covers_image : ∃ (t : Traced Digest) (output : SchedulerOutput) (s' : Scheduler Digest),
    t.scheduler.Covers t.encoded output s' ∧ output.sentFrom = [(1, 0)] ∧
      t.scheduler.encodedIn output = ["a"] := by
  obtain ⟨⟨request, s, output, s₁⟩, hrun, hcheck⟩ :=
    exists_of_okAnd (x := coverRun) (p := fun (_, s, output, _) =>
      (StepState.start s).checkLoops (fun l => !l.skips && !l.drops) 8 &&
        decide (output.sentFrom = [(1, 0)] ∧ s.encodedIn output = ["a"])) (by decide +kernel)
  rw [Bool.and_eq_true, decide_eq_true_eq] at hcheck
  obtain ⟨hcareful, hfacts⟩ := hcheck
  unfold coverRun at hrun
  obtain ⟨s₀, hinit, hrun⟩ := except_bind_iff.mp hrun
  obtain ⟨_, hrequest, hrun⟩ := except_bind_iff.mp hrun
  obtain ⟨⟨_, _⟩, hschedule, hrun⟩ := except_bind_iff.mp hrun
  cases hrun
  obtain ⟨-, hnone, -⟩ := init_settled hinit
  have hfresh : (imageArgs 1).requestId ∉ s₀.requests := by
    rw [hnone]
    exact List.not_mem_nil
  have hsteps : Run CarefulStep ⟨s₀, []⟩ _ ⟨s₀.addRequest request, []⟩ :=
    Run.nil.snoc ⟨Step.addRequest hrequest hfresh, rfl⟩
  refine ⟨⟨s₀.addRequest request, []⟩, output, s₁, ?_, hfacts⟩
  refine run_covers hinit (fun args hmem => ?_) hsteps (fun l hloops => ?_) hschedule
  · obtain rfl : args = imageArgs 1 := by simpa using hmem
    exact List.pairwise_singleton _ _
  · simpa using StepState.checkLoops_sound hcareful hloops

/-- An image behind a prefix that another prompt has too. -/
def behindArgs (requestId : RequestId) : RequestArgs :=
  { RequestArgs.text requestId [1, 2, 3, 4, 5, 6] 8 with mmFeatures := [⟨"a", 4, 2, 2⟩] }

/-- A text prompt is scheduled, and a prompt that hits its blocks. -/
def skipRun : Except PyError (Request Digest × Request Digest × Scheduler Digest ×
    SchedulerOutput × Scheduler Digest × Scheduler Digest) := do
  let s₀ ← init (shortConfig .fcfs) (shortKVConfig 8) true Digest.hash 0 none
  let first ← Request.init (.text 1 [1, 2, 3, 4, 5] 8)
  let second ← Request.init (behindArgs 2)
  let s := (s₀.addRequest first).addRequest second
  let (output, s') ← s.schedule
  return (first, second, s, output, s', s₀.addRequest first)

/-- A span can be sent over an image that was never encoded. -/
theorem skipRun_uncovered : ∃ (s₀ s s' : Scheduler Digest) (events : List Event)
    (output : SchedulerOutput),
    init (shortConfig .fcfs) (shortKVConfig 8) true Digest.hash 0 none = .ok s₀ ∧
      Run Step s₀ events s ∧ s.schedule = .ok (output, s') ∧
      (∀ encoded, ¬ s.Covers encoded output s') ∧ output.sentFrom = [(1, 0), (2, 4)] := by
  obtain ⟨⟨first, second, s, output, s', s₁⟩, hrun, hcheck⟩ :=
    exists_of_okAnd (x := skipRun) (p := fun (_, _, s, output, s', s₁) =>
      decide (2 ∉ s₁.requests ∧ output.sentFrom = [(1, 0), (2, 4)] ∧
        output.numScheduledTokens.find 2 = some 2 ∧
        (s.request 2).mmFeatures = [⟨"a", 4, 2, 2⟩] ∧
        s'.encoderCacheManager.getCachedInputIds 2 = [])) (by decide +kernel)
  obtain ⟨hfresh₂, hsent, hfind, hfeatures, hheld⟩ := of_decide_eq_true hcheck
  unfold skipRun at hrun
  obtain ⟨s₀, hinit, hrun⟩ := except_bind_iff.mp hrun
  obtain ⟨_, hfirst, hrun⟩ := except_bind_iff.mp hrun
  obtain ⟨_, hsecond, hrun⟩ := except_bind_iff.mp hrun
  obtain ⟨⟨_, _⟩, hschedule, hrun⟩ := except_bind_iff.mp hrun
  cases hrun
  obtain ⟨-, hnone, -⟩ := init_settled hinit
  have hfresh₁ : 1 ∉ s₀.requests := by
    rw [hnone]
    exact List.not_mem_nil
  have hsteps := (Run.nil.snoc (Step.addRequest hfirst hfresh₁)).snoc
    (Step.addRequest hsecond hfresh₂)
  refine ⟨s₀, _, s', _, output, hinit, hsteps, hschedule, fun encoded hcovers => ?_, hsent⟩
  have hspan : output.SpanMeets 2 ⟨"a", 4, 2, 2⟩ := ⟨2, 4, hfind, by rw [hsent]; simp, by decide⟩
  have hin := hcovers.held 2 0 _ (by rw [hfeatures]; rfl) hspan
  rw [hheld] at hin
  exact List.not_mem_nil hin

end Scheduler

end Pvllm
