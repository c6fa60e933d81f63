import Pvllm.Core.Sched.Coverage

/-!
What one call of `schedule` evicts and encodes.

An entry can be evicted in a call and encoded again in the same call, but what was
encoded or referenced in the call is referenced to its end, where the call drops
nothing. So every entry leaves the cache at most once in a call, and the notices of the
call name exactly the entries that left it.
-/

namespace Pvllm

variable {H : Type} [DecidableEq H]

namespace EncoderCacheManager

variable {features : RequestId → List MultiModalFeatureSpec} {now now' : String → Prop}
  {before manager manager' : EncoderCacheManager} {r : RequestId} {i : ℕ}
  {feature : MultiModalFeatureSpec}

/-- What became of the entries since the manager was `before`: those that are gone
are in the notices once, those that are there stayed, or are referenced and to be encoded
now, and there are no notices unless something is. -/
structure Turnover (before : EncoderCacheManager) (now : String → Prop)
    (manager : EncoderCacheManager) : Prop where
  gone : ∀ mmHash, manager.cached.find mmHash = none →
    manager.freed.count mmHash = if (before.cached.find mmHash).isSome then 1 else 0
  kept : ∀ mmHash, (manager.cached.find mmHash).isSome →
    ((before.cached.find mmHash).isSome ∧ mmHash ∉ manager.freed) ∨
      (now mmHash ∧ manager.cached.find mmHash ≠ some [])
  busy : manager.freed ≠ [] → ∃ mmHash, now mmHash

theorem Turnover.refl (hfreed : manager.freed = []) : Turnover manager now manager := by
  refine ⟨fun mmHash hnone => ?_, fun mmHash hsome => Or.inl ⟨hsome, ?_⟩, absurd hfreed⟩
  · rw [hnone, hfreed]
    rfl
  · rw [hfreed]
    exact List.not_mem_nil

theorem Turnover.mono (h : Turnover before now manager)
    (hnow : ∀ mmHash, now mmHash → now' mmHash) : Turnover before now' manager :=
  ⟨h.gone, fun mmHash hsome => (h.kept mmHash hsome).imp_right (And.imp_left (hnow mmHash)),
    fun hfreed => (h.busy hfreed).imp hnow⟩

/-- What is evicted was there before the call, and nothing was told of it yet. -/
theorem Turnover.evicts {evicted : List String} (h : Turnover before now manager)
    (hsound : manager.Sound features) (hevicts : manager.Evicts manager' evicted)
    (hbusy : evicted ≠ [] → ∃ mmHash, now mmHash) : Turnover before now manager' := by
  have hnodup : evicted.Nodup := by
    have hqueue := hsound.freeableNodup
    rw [hevicts.freeable] at hqueue
    exact (List.nodup_append.mp hqueue).1
  have hidle : ∀ mmHash ∈ evicted, manager.cached.find mmHash = some [] := by
    intro mmHash hmem
    apply (hsound.freeable mmHash).mp
    rw [hevicts.freeable]
    exact List.mem_append_left _ hmem
  refine ⟨fun mmHash hnone => ?_, fun mmHash hsome => ?_, fun hfreed => ?_⟩
  · rw [hevicts.cached] at hnone
    rw [hevicts.freed, List.count_append]
    by_cases hmem : mmHash ∈ evicted
    · have hfound := hidle mmHash hmem
      obtain ⟨hbefore, hnot⟩ | ⟨-, hheld⟩ := h.kept mmHash (by rw [hfound]; rfl)
      · rw [List.count_eq_zero_of_not_mem hnot, List.count_eq_one_of_mem hnodup hmem,
          if_pos hbefore]
      · exact absurd hfound hheld
    · rw [if_neg hmem] at hnone
      rw [List.count_eq_zero_of_not_mem hmem]
      exact h.gone mmHash hnone
  · rw [hevicts.cached] at hsome ⊢
    split at hsome
    · cases hsome
    · rename_i hmem
      rw [if_neg hmem]
      refine (h.kept mmHash hsome).imp_left fun hstayed => ⟨hstayed.1, ?_⟩
      rw [hevicts.freed, List.mem_append]
      exact fun hin => hin.elim hstayed.2 hmem
  · rw [hevicts.freed, ne_eq, List.append_eq_nil_iff, not_and_or] at hfreed
    exact hfreed.elim h.busy hbusy

/-- A reference is taken on an entry that is there, or is to be encoded. -/
theorem Turnover.allocate (h : Turnover before now manager)
    (hentry : (manager.cached.find feature.identifier).isSome ∨ now feature.identifier) :
    Turnover before now (manager.allocate r i feature) := by
  refine ⟨fun mmHash hnone => ?_, fun mmHash hsome => ?_, fun hfreed => ?_⟩
  · rw [find_allocate] at hnone
    split at hnone
    · cases hnone
    · rw [freed_allocate]
      exact h.gone mmHash hnone
  · rw [find_allocate] at hsome ⊢
    rw [freed_allocate]
    split
    · rename_i heq
      rw [heq]
      have hheld : ∀ references : List RequestId, some (insertNew references r) ≠ some [] :=
        fun references heq => insertNew_ne_nil (Option.some.inj heq)
      rcases hentry with hfound | hnow
      · exact (h.kept _ hfound).imp_right fun hentry => ⟨hentry.1, hheld _⟩
      · exact Or.inr ⟨hnow, hheld _⟩
    · rename_i hne
      rw [if_neg hne] at hsome
      exact h.kept mmHash hsome
  · rw [freed_allocate] at hfreed
    exact h.busy hfreed

end EncoderCacheManager

omit [DecidableEq H] in
theorem Reserves.turnover {features : RequestId → List MultiModalFeatureSpec}
    {now : String → Prop} {before cache cache' : EncoderCacheManager} {request : Request H}
    {n n' : ℕ} {items : List (ℕ × MultiModalFeatureSpec)} {scheduled ids : List ℕ}
    (h : Reserves request n items scheduled cache n' ids cache')
    (hitems : ∀ item ∈ items, (features request.requestId)[item.1]? = some item.2)
    (hids : ∀ mmHash ∈ hashesOf (features request.requestId) ids, now mmHash)
    (hsound : cache.Sound features) (hcache : before.Turnover now cache) :
    before.Turnover now cache' := by
  induction h with
  | done => exact hcache
  | pass hpass hrest ih => exact ih (List.forall_mem_cons.mp hitems).2 hids hsound hcache
  | hit hmeets hresident hrest ih =>
      obtain ⟨hfirst, hitems⟩ := List.forall_mem_cons.mp hitems
      apply ih hitems hids
      · exact (EncoderCacheManager.recordLookup_sound hsound true).allocate hfirst
      · apply EncoderCacheManager.Turnover.allocate
        · exact ⟨hcache.gone, hcache.kept, hcache.busy⟩
        · exact Or.inl hresident
  | encode hmeets hmissing hevicts hrest ih =>
      obtain ⟨hfirst, hitems⟩ := List.forall_mem_cons.mp hitems
      apply ih hitems hids
      · exact (hevicts.sound hsound).allocate hfirst
      · have hnow := hids _ (mem_hashesOf.mpr ⟨_, hrest.scheduled_subset _
          (List.mem_append_right _ (List.mem_singleton_self _)), _, hfirst, rfl⟩)
        exact (hcache.evicts hsound hevicts fun _ => ⟨_, hnow⟩).allocate (Or.inr hnow)
  | trim hmeets hmissing hevicts hnone =>
      exact hcache.evicts hsound hevicts fun hsome => absurd (hnone features hsound) hsome

namespace StepState

variable {features : RequestId → List MultiModalFeatureSpec} {s : Scheduler H} {l l' : StepState H}

theorem Encodes.turnover {before : EncoderCacheManager} (h : Encodes l l') (hb : Batch l)
    (hfeatures : ∀ r, (l.scheduler.request r).mmFeatures = features r)
    (horder : ∀ r ∈ l.scheduler.requests, InOrder (features r)) (hnot : l.drops = false)
    (hsound : l.scheduler.encoderCacheManager.Sound features)
    (hl : before.Turnover (l.EncodesNow features) l.scheduler.encoderCacheManager) :
    before.Turnover (l'.EncodesNow features) l'.scheduler.encoderCacheManager := by
  have hmono := hl.mono fun mmHash hnow => h.encodesNow_mono hb hnot hnow
  rcases h.cache_moves hb hfeatures horder hnot with hsame | ⟨_, _, _, ids, hreserves, hitems, hnow⟩
  · rwa [hsame]
  · exact hreserves.turnover hitems hnow hsound hmono

end StepState

namespace Scheduler

variable {s s' : Scheduler H}

/-- Nothing is dropped in a call. -/
def KeepsEncodes (s : Scheduler H) : Prop :=
  ∀ l, StepState.Loops (StepState.start s) l → l.drops = false

/-- The entries that leave the cache in a call are in its notices once, and those
that are there after it stayed, or are encoded by it. A call with notices encodes
something. -/
structure Notifies (s : Scheduler H) (output : SchedulerOutput) (s' : Scheduler H) : Prop where
  gone : ∀ mmHash, s'.encoderCacheManager.cached.find mmHash = none →
    output.freeEncoderMmHashes.count mmHash =
      if (s.encoderCacheManager.cached.find mmHash).isSome then 1 else 0
  kept : ∀ mmHash, (s'.encoderCacheManager.cached.find mmHash).isSome →
    ((s.encoderCacheManager.cached.find mmHash).isSome ∧ mmHash ∉ output.freeEncoderMmHashes) ∨
      mmHash ∈ s.encodedIn output
  busy : output.freeEncoderMmHashes ≠ [] → s.encodedIn output ≠ []

theorem schedule_notifies {output : SchedulerOutput} (hpart : s.Partitioned) (howned : s.Owned)
    (horder : ∀ r ∈ s.requests, InOrder (s.request r).mmFeatures)
    (hfreed : s.encoderCacheManager.freed = []) (hkeeps : s.KeepsEncodes)
    (hok : s.schedule = .ok (output, s')) : s.Notifies output s' := by
  obtain ⟨l, hloops, hfinished, hfinishes, hfree, hcache, -, -⟩ := schedule_encoder hok
  set features := fun r => (s.request r).mmFeatures with hfeatures
  have hl : l.Owned features ∧ s.encoderCacheManager.Turnover (l.EncodesNow features)
      l.scheduler.encoderCacheManager := by
    refine hloops.encoding_invariant (P := fun l => l.Owned features ∧
      s.encoderCacheManager.Turnover (l.EncodesNow features) l.scheduler.encoderCacheManager)
      hpart ⟨⟨howned.sound, howned.known⟩, .refl hfreed⟩ ?_
    rintro l l' hreach hb hout henc ⟨howned, hturnover⟩
    have hsame : ∀ r, (l.scheduler.request r).mmFeatures = features r := fun r =>
      (StepState.Loops.keeps hreach r).encoder.2
    have horder' : ∀ r ∈ l.scheduler.requests, InOrder (features r) := fun r hr =>
      horder r ((StepState.Loops.static hreach).2.1 ▸ hr)
    exact ⟨henc.owned hout hb hsame howned,
      henc.turnover hb hsame horder' (hkeeps l hreach) howned.sound hturnover⟩
  obtain ⟨-, hturnover⟩ := hl
  constructor
  · intro mmHash hnone
    rw [hcache] at hnone
    rw [hfree]
    exact hturnover.gone mmHash hnone
  · intro mmHash hsome
    rw [hcache] at hsome
    rw [hfree]
    exact (hturnover.kept mmHash hsome).imp_right fun hnow =>
      encodesNow_encodedIn hfinished hfinishes hnow.1
  · intro hnotices
    rw [hfree] at hnotices
    obtain ⟨mmHash, hnow⟩ := hturnover.busy hnotices
    exact List.ne_nil_of_mem (encodesNow_encodedIn hfinished hfinishes hnow)

end Scheduler

end Pvllm
