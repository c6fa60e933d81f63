import Pvllm.Core.EncoderCache
import Mathlib.Algebra.BigOperators.Group.List.Basic
import Mathlib.Data.List.Nodup

/-!
Who references what in the encoder cache.

`Sound` says that the tables of the cache agree: whoever references an entry
holds an input of its own with the entry's hash, and the entries queued for
eviction are those that nobody references. Every operation keeps it, whatever the
requests are; `features` gives the items of each.
-/

namespace Pvllm

namespace EncoderCacheManager

variable {features : RequestId → List MultiModalFeatureSpec}
  {manager manager' : EncoderCacheManager} {r r' : RequestId} {i : ℕ}
  {feature : MultiModalFeatureSpec}

theorem insertNew_nodup {α : Type} [DecidableEq α] {l : List α} {a : α} (h : l.Nodup) :
    (insertNew l a).Nodup := by
  unfold insertNew
  split
  · exact h
  · rename_i ha
    refine List.nodup_append.mpr ⟨h, by simp, fun b hb c hc heq => ?_⟩
    rw [List.mem_singleton.mp hc] at heq
    exact ha (heq ▸ hb)

theorem insertNew_ne_nil {α : Type} [DecidableEq α] {l : List α} {a : α} : insertNew l a ≠ [] :=
  List.ne_nil_of_mem (mem_insertNew.mpr (Or.inr rfl))

def freeableSize (manager : EncoderCacheManager) : ℤ :=
  (manager.freeable.map fun mmHash => (manager.entrySize.findD mmHash 0 : ℤ)).sum

structure Sound (features : RequestId → List MultiModalFeatureSpec)
    (manager : EncoderCacheManager) : Prop where
  nonempty : ∀ r, manager.requestCachedIds.find r ≠ some []
  nodup : ∀ r, (manager.getCachedInputIds r).Nodup
  known : ∀ r, ∀ i ∈ manager.getCachedInputIds r, i < (features r).length
  referencesNodup : ∀ mmHash, (manager.cached.findD mmHash []).Nodup
  held : ∀ mmHash, ∀ r ∈ manager.cached.findD mmHash [], ∃ i ∈ manager.getCachedInputIds r,
    ((features r)[i]?).map (·.identifier) = some mmHash
  freeableNodup : manager.freeable.Nodup
  freeable : ∀ mmHash, mmHash ∈ manager.freeable ↔ manager.cached.find mmHash = some []
  slots : manager.numFreeableSlots = manager.numFreeSlots + manager.freeableSize

theorem init_sound {cacheSize : ℕ} (h : init cacheSize = .ok manager) :
    Sound features manager ∧ manager.requestCachedIds = .empty ∧ manager.cached = .empty ∧
      manager.freed = [] := by
  unfold init at h
  split at h
  · cases h
  obtain rfl := Except.ok.inj h
  refine ⟨⟨?_, ?_, ?_, ?_, ?_, ?_, ?_, ?_⟩, rfl, rfl, rfl⟩
  · exact fun r h => (by cases h)
  · exact fun r => List.nodup_nil
  · exact fun r i hi => absurd hi List.not_mem_nil
  · exact fun mmHash => List.nodup_nil
  · exact fun mmHash r hr => absurd hr List.not_mem_nil
  · exact List.nodup_nil
  · exact fun mmHash => ⟨fun h => absurd h List.not_mem_nil, fun h => (by cases h)⟩
  · exact (Int.add_zero _).symm

/-- A request that holds no input references no entry. -/
theorem Sound.not_referenced (h : Sound features manager) (hr : manager.getCachedInputIds r = []) :
    manager.requestCachedIds.find r = none ∧ ∀ mmHash, r ∉ manager.cached.findD mmHash [] := by
  constructor
  · cases hfind : manager.requestCachedIds.find r with
    | none => rfl
    | some held =>
        rw [getCachedInputIds, Dict.findD, hfind] at hr
        obtain rfl : held = [] := hr
        exact absurd hfind (h.nonempty r)
  · intro mmHash hmem
    obtain ⟨i, hi, -⟩ := h.held mmHash r hmem
    rw [hr] at hi
    exact List.not_mem_nil hi

/-- The features of the holders are all that matters. -/
theorem Sound.congr {features' : RequestId → List MultiModalFeatureSpec}
    (h : Sound features manager)
    (heq : ∀ r, manager.getCachedInputIds r ≠ [] → features' r = features r) :
    Sound features' manager :=
  { h with
    known := fun r i hi => by
      rw [heq r (List.ne_nil_of_mem hi)]
      exact h.known r i hi
    held := fun mmHash r hr => by
      obtain ⟨i, hi, hfeature⟩ := h.held mmHash r hr
      rw [heq r (List.ne_nil_of_mem hi)]
      exact ⟨i, hi, hfeature⟩ }

/-! ### Taking a reference -/

theorem find_allocate (manager : EncoderCacheManager) (r : RequestId) (i : ℕ)
    (feature : MultiModalFeatureSpec) (mmHash : String) :
    (manager.allocate r i feature).cached.find mmHash =
      if mmHash = feature.identifier then some (insertNew (manager.cached.findD mmHash []) r)
      else manager.cached.find mmHash := by
  unfold allocate
  dsimp only
  rw [Dict.find_store]
  split
  · rename_i heq
    subst heq
    cases hfind : manager.cached.find feature.identifier with
    | none => simp [Dict.findD, hfind]
    | some references =>
        cases references with
        | nil => simp [Dict.findD, hfind]
        | cons holder holders => simp [Dict.findD, hfind]
  · rename_i hne
    cases hfind : manager.cached.find feature.identifier with
    | none => exact Dict.find_store_of_ne _ _ hne
    | some references => cases references <;> rfl

theorem findD_allocate (manager : EncoderCacheManager) (r : RequestId) (i : ℕ)
    (feature : MultiModalFeatureSpec) (mmHash : String) :
    (manager.allocate r i feature).cached.findD mmHash [] =
      if mmHash = feature.identifier then insertNew (manager.cached.findD mmHash []) r
      else manager.cached.findD mmHash [] := by
  rw [Dict.findD, find_allocate]
  split <;> rfl

theorem getCachedInputIds_allocate (manager : EncoderCacheManager) (r r' : RequestId) (i : ℕ)
    (feature : MultiModalFeatureSpec) :
    (manager.allocate r i feature).getCachedInputIds r' =
      if r' = r then insertNew (manager.getCachedInputIds r) i
      else manager.getCachedInputIds r' := by
  unfold allocate
  dsimp only
  rw [getCachedInputIds, Dict.findD_store]
  cases hfind : manager.cached.find feature.identifier with
  | none => rfl
  | some references => cases references <;> rfl

theorem requestCachedIds_allocate (manager : EncoderCacheManager) (r : RequestId) (i : ℕ)
    (feature : MultiModalFeatureSpec) :
    (manager.allocate r i feature).requestCachedIds =
      manager.requestCachedIds.store r (insertNew (manager.getCachedInputIds r) i) := by
  unfold allocate
  dsimp only
  cases hfind : manager.cached.find feature.identifier with
  | none => rfl
  | some references => cases references <;> rfl

@[simp] theorem freed_allocate (manager : EncoderCacheManager) (r : RequestId) (i : ℕ)
    (feature : MultiModalFeatureSpec) :
    (manager.allocate r i feature).freed = manager.freed := by
  unfold allocate
  dsimp only
  cases hfind : manager.cached.find feature.identifier with
  | none => rfl
  | some references => cases references <;> rfl

theorem freeable_allocate (manager : EncoderCacheManager) (r : RequestId) (i : ℕ)
    (feature : MultiModalFeatureSpec) :
    (manager.allocate r i feature).freeable =
      if manager.cached.find feature.identifier = some [] then
        manager.freeable.erase feature.identifier
      else manager.freeable := by
  unfold allocate
  dsimp only
  cases hfind : manager.cached.find feature.identifier with
  | none => simp
  | some references => cases references <;> simp

theorem Sound.slots_allocate (h : Sound features manager) (r : RequestId) (i : ℕ)
    (feature : MultiModalFeatureSpec) :
    (manager.allocate r i feature).numFreeableSlots =
      (manager.allocate r i feature).numFreeSlots +
        (manager.allocate r i feature).freeableSize := by
  have hslots := h.slots
  unfold freeableSize at hslots ⊢
  unfold allocate
  dsimp only
  cases hfind : manager.cached.find feature.identifier with
  | none =>
      have hnot : feature.identifier ∉ manager.freeable := by
        rw [h.freeable, hfind]
        exact fun heq => (by cases heq)
      have hsame : (manager.freeable.map fun mmHash =>
          ((manager.entrySize.store feature.identifier feature.numEmbeds).findD mmHash 0 : ℤ)) =
          manager.freeable.map fun mmHash => (manager.entrySize.findD mmHash 0 : ℤ) := by
        apply List.map_congr_left
        intro mmHash hmem
        rw [Dict.findD_store, if_neg]
        rintro rfl
        exact hnot hmem
      dsimp only
      rw [hsame]
      omega
  | some references =>
      cases references with
      | nil =>
          have hmem := (h.freeable _).mpr hfind
          have hsum := List.sum_map_erase
            (fun mmHash => (manager.entrySize.findD mmHash 0 : ℤ)) hmem
          dsimp only at hsum ⊢
          omega
      | cons holder holders => exact hslots

theorem Sound.allocate (h : Sound features manager) (hfeature : (features r)[i]? = some feature) :
    Sound features (manager.allocate r i feature) where
  nonempty r' := by
    rw [requestCachedIds_allocate, Dict.find_store]
    split
    · exact fun heq => insertNew_ne_nil (Option.some.inj heq)
    · exact h.nonempty r'
  nodup r' := by
    rw [getCachedInputIds_allocate]
    split
    · exact insertNew_nodup (h.nodup r)
    · exact h.nodup r'
  known r' j hj := by
    rw [getCachedInputIds_allocate] at hj
    split at hj
    · rename_i heq
      subst heq
      rcases mem_insertNew.mp hj with hj | rfl
      · exact h.known r' j hj
      · exact (List.getElem?_eq_some_iff.mp hfeature).1
    · exact h.known r' j hj
  referencesNodup mmHash := by
    rw [findD_allocate]
    split
    · exact insertNew_nodup (h.referencesNodup mmHash)
    · exact h.referencesNodup mmHash
  held mmHash r' hr' := by
    -- who was there before holds on to what it has
    have hold : r' ∈ manager.cached.findD mmHash [] →
        ∃ j ∈ (manager.allocate r i feature).getCachedInputIds r',
          ((features r')[j]?).map (·.identifier) = some mmHash := by
      intro hmem
      obtain ⟨j, hj, hsome⟩ := h.held mmHash r' hmem
      refine ⟨j, ?_, hsome⟩
      rw [getCachedInputIds_allocate]
      split
      · rename_i heq
        exact mem_insertNew.mpr (Or.inl (heq ▸ hj))
      · exact hj
    rw [findD_allocate] at hr'
    split at hr'
    · rename_i heq
      rcases mem_insertNew.mp hr' with hmem | rfl
      · exact hold hmem
      · refine ⟨i, ?_, ?_⟩
        · rw [getCachedInputIds_allocate, if_pos rfl]
          exact mem_insertNew.mpr (Or.inr rfl)
        · rw [hfeature, heq]
          rfl
    · exact hold hr'
  freeableNodup := by
    rw [freeable_allocate]
    split
    · exact h.freeableNodup.erase _
    · exact h.freeableNodup
  freeable mmHash := by
    rw [freeable_allocate, find_allocate]
    by_cases heq : mmHash = feature.identifier
    · subst heq
      rw [if_pos rfl]
      refine iff_of_false (fun hmem => ?_) fun hsome => insertNew_ne_nil (Option.some.inj hsome)
      split at hmem
      · exact h.freeableNodup.not_mem_erase hmem
      · rename_i hnot
        exact hnot ((h.freeable _).mp hmem)
    · rw [if_neg heq, ← h.freeable mmHash]
      split
      · exact List.mem_erase_of_ne heq
      · exact Iff.rfl
  slots := h.slots_allocate r i feature

/-! ### Making room -/

/-- Entries are evicted from the front of the queue, and reported. -/
structure Evicts (manager manager' : EncoderCacheManager) (evicted : List String) : Prop where
  freeable : manager.freeable = evicted ++ manager'.freeable
  freed : manager'.freed = manager.freed ++ evicted
  cached : ∀ mmHash, manager'.cached.find mmHash =
    if mmHash ∈ evicted then none else manager.cached.find mmHash
  requestCachedIds : manager'.requestCachedIds = manager.requestCachedIds
  cacheSize : manager'.cacheSize = manager.cacheSize
  numFreeableSlots : manager'.numFreeableSlots = manager.numFreeableSlots
  slots : manager.freeable.Nodup →
    manager'.numFreeSlots + manager'.freeableSize = manager.numFreeSlots + manager.freeableSize

theorem Evicts.refl (manager : EncoderCacheManager) : Evicts manager manager [] :=
  ⟨rfl, (List.append_nil _).symm, fun _ => rfl, rfl, rfl, rfl, fun _ => rfl⟩

theorem Evicts.recordLookup (manager : EncoderCacheManager) (hit : Bool) :
    Evicts manager (manager.recordLookup hit) [] :=
  ⟨rfl, (List.append_nil _).symm, fun _ => rfl, rfl, rfl, rfl, fun _ => rfl⟩

/-- Counting a query does not matter. -/
theorem Evicts.of_recordLookup {evicted : List String} {hit : Bool}
    (h : Evicts (manager.recordLookup hit) manager' evicted) : Evicts manager manager' evicted :=
  ⟨h.freeable, h.freed, h.cached, h.requestCachedIds, h.cacheSize, h.numFreeableSlots, h.slots⟩

theorem evictFor_ok {numEmbeds : ℕ} {l : List String} (hl : l = manager.freeable)
    (h : evictFor numEmbeds manager l = .ok manager') :
    (∃ evicted, Evicts manager manager' evicted) ∧
      ((numEmbeds : ℤ) ≤ manager'.numFreeSlots ∨ manager'.freeable = []) := by
  induction l generalizing manager with
  | nil =>
      obtain rfl := Except.ok.inj h
      exact ⟨⟨[], .refl _⟩, Or.inr hl.symm⟩
  | cons evicted rest ih =>
      unfold evictFor at h
      split at h
      · rename_i hroom
        obtain rfl := Except.ok.inj h
        exact ⟨⟨[], .refl _⟩, Or.inl hroom⟩
      split at h
      · cases h
      obtain ⟨⟨more, hmore⟩, hstop⟩ := ih rfl h
      refine ⟨⟨evicted :: more, ?_, ?_, fun mmHash => ?_, hmore.requestCachedIds,
        hmore.cacheSize, hmore.numFreeableSlots, fun hnodup => ?_⟩, hstop⟩
      · rw [← hl, List.cons_append]
        exact congrArg _ hmore.freeable
      · rw [hmore.freed]
        simp
      · rw [hmore.cached]
        dsimp only
        rw [Dict.find_delete]
        by_cases heq : mmHash = evicted
        · simp [heq]
        · simp [heq]
      · rw [← hl] at hnodup
        obtain ⟨hnot, hrest⟩ := List.nodup_cons.mp hnodup
        have hsame : (rest.map fun mmHash =>
            ((manager.entrySize.delete evicted).findD mmHash 0 : ℤ)) =
            rest.map fun mmHash => (manager.entrySize.findD mmHash 0 : ℤ) := by
          apply List.map_congr_left
          intro mmHash hmem
          rw [Dict.findD_delete, if_neg]
          rintro rfl
          exact hnot hmem
        have hafter := hmore.slots hrest
        unfold freeableSize at hafter ⊢
        dsimp only at hafter
        rw [← hl, List.map_cons, List.sum_cons, hafter, hsame]
        omega

/-- Where an item does not fit, nothing was evicted for it. -/
theorem canAllocate_ok {fits : Bool} (h : manager.canAllocate feature = .ok (fits, manager')) :
    ∃ evicted, Evicts manager manager' evicted ∧
      (fits = false → ∀ features, Sound features manager → evicted = []) := by
  unfold canAllocate at h
  split at h
  · cases h
    exact ⟨[], .refl _, fun _ _ _ => rfl⟩
  split at h
  · cases h
    exact ⟨[], .refl _, fun _ _ _ => rfl⟩
  split at h
  · cases h
    exact ⟨[], .refl _, fun _ _ _ => rfl⟩
  rename_i hfreeable
  split at h
  · cases h
  · rename_i hevict
    cases h
    obtain ⟨⟨evicted, hevicts⟩, hstop⟩ := evictFor_ok rfl hevict
    refine ⟨evicted, hevicts, fun hfull features hsound => ?_⟩
    rw [decide_eq_false_iff_not] at hfull
    -- all that could be evicted was, and that is enough
    have hempty := hstop.resolve_left hfull
    have hslots := hevicts.slots hsound.freeableNodup
    have hnone : manager'.freeableSize = 0 := by
      rw [freeableSize, hempty]
      rfl
    rw [hnone, ← hsound.slots] at hslots
    omega

theorem Evicts.getCachedInputIds {evicted : List String} (h : Evicts manager manager' evicted)
    (r : RequestId) : manager'.getCachedInputIds r = manager.getCachedInputIds r := by
  rw [EncoderCacheManager.getCachedInputIds, h.requestCachedIds]
  rfl

theorem Evicts.sound {evicted : List String} (h : Evicts manager manager' evicted)
    (hsound : Sound features manager) : Sound features manager' := by
  have hsub : ∀ mmHash, ∀ r ∈ manager'.cached.findD mmHash [],
      manager'.cached.findD mmHash [] = manager.cached.findD mmHash [] := by
    intro mmHash r hr
    rw [Dict.findD, h.cached] at hr ⊢
    split
    · rename_i hmem
      rw [if_pos hmem] at hr
      exact absurd hr List.not_mem_nil
    · rfl
  have hnodup := hsound.freeableNodup
  rw [h.freeable] at hnodup
  obtain ⟨-, hrest, hdisjoint⟩ := List.nodup_append.mp hnodup
  refine ⟨?_, fun r => ?_, fun r => ?_, fun mmHash => ?_, fun mmHash r hr => ?_, hrest,
    fun mmHash => ?_, ?_⟩
  · rw [h.requestCachedIds]
    exact hsound.nonempty
  · rw [h.getCachedInputIds]
    exact hsound.nodup r
  · rw [h.getCachedInputIds]
    exact hsound.known r
  · rw [Dict.findD, h.cached]
    split
    · exact List.nodup_nil
    · exact hsound.referencesNodup mmHash
  · rw [hsub mmHash r hr] at hr
    rw [h.getCachedInputIds]
    exact hsound.held mmHash r hr
  · rw [h.cached]
    split
    · rename_i hmem
      exact iff_of_false (fun hmem' => hdisjoint mmHash hmem mmHash hmem' rfl)
        fun hnone => (by cases hnone)
    · rename_i hmem
      rw [← hsound.freeable, h.freeable, List.mem_append]
      exact ⟨Or.inr, fun hor => hor.resolve_left hmem⟩
  · rw [h.numFreeableSlots, h.slots hsound.freeableNodup]
    exact hsound.slots

/-! ### Giving references back -/

theorem find_freeEncoderInput (manager : EncoderCacheManager) (r : RequestId) (i : ℕ)
    (feature : MultiModalFeatureSpec) (mmHash : String) :
    (manager.freeEncoderInput r i feature).cached.find mmHash =
      if mmHash = feature.identifier then (manager.cached.find mmHash).map (·.erase r)
      else manager.cached.find mmHash := by
  unfold freeEncoderInput
  dsimp only
  cases hfind : manager.cached.find feature.identifier with
  | none =>
      dsimp only
      split
      · rename_i heq
        rw [heq, hfind]
        rfl
      · rfl
  | some references =>
      dsimp only
      split
      all_goals
        dsimp only
        rw [Dict.find_store]
        split
        · rename_i heq
          rw [heq, hfind]
          rfl
        · rfl

theorem findD_freeEncoderInput (manager : EncoderCacheManager) (r : RequestId) (i : ℕ)
    (feature : MultiModalFeatureSpec) (mmHash : String) :
    (manager.freeEncoderInput r i feature).cached.findD mmHash [] =
      if mmHash = feature.identifier then (manager.cached.findD mmHash []).erase r
      else manager.cached.findD mmHash [] := by
  rw [Dict.findD, find_freeEncoderInput]
  split
  · cases hfind : manager.cached.find mmHash with
    | none => simp [Dict.findD, hfind]
    | some references => simp [Dict.findD, hfind]
  · rfl

theorem requestCachedIds_freeEncoderInput (manager : EncoderCacheManager) (r : RequestId) (i : ℕ)
    (feature : MultiModalFeatureSpec) :
    (manager.freeEncoderInput r i feature).requestCachedIds =
      match manager.requestCachedIds.find r with
      | none => manager.requestCachedIds
      | some held =>
        if held.erase i = [] then manager.requestCachedIds.delete r
        else manager.requestCachedIds.store r (held.erase i) := by
  unfold freeEncoderInput
  dsimp only
  cases manager.cached.find feature.identifier with
  | none => rfl
  | some references =>
      dsimp only
      split <;> rfl

theorem getCachedInputIds_freeEncoderInput (manager : EncoderCacheManager) (r r' : RequestId)
    (i : ℕ) (feature : MultiModalFeatureSpec) :
    (manager.freeEncoderInput r i feature).getCachedInputIds r' =
      if r' = r then (manager.getCachedInputIds r).erase i
      else manager.getCachedInputIds r' := by
  unfold getCachedInputIds
  rw [requestCachedIds_freeEncoderInput]
  cases hfind : manager.requestCachedIds.find r with
  | none =>
      dsimp only
      split
      · rename_i heq
        subst heq
        simp [Dict.findD, hfind]
      · rfl
  | some held =>
      dsimp only
      have hheld : manager.requestCachedIds.findD r [] = held := by rw [Dict.findD, hfind]; rfl
      rw [hheld]
      split
      · rename_i hnil
        rw [Dict.findD_delete, hnil]
      · rw [Dict.findD_store]

@[simp] theorem freed_freeEncoderInput (manager : EncoderCacheManager) (r : RequestId) (i : ℕ)
    (feature : MultiModalFeatureSpec) :
    (manager.freeEncoderInput r i feature).freed = manager.freed := by
  unfold freeEncoderInput
  dsimp only
  cases manager.cached.find feature.identifier with
  | none => rfl
  | some references =>
      dsimp only
      split <;> rfl

theorem freeable_freeEncoderInput (manager : EncoderCacheManager) (r : RequestId) (i : ℕ)
    (feature : MultiModalFeatureSpec) :
    (manager.freeEncoderInput r i feature).freeable =
      if (manager.freeEncoderInput r i feature).cached.find feature.identifier = some [] then
        insertNew manager.freeable feature.identifier
      else manager.freeable := by
  rw [find_freeEncoderInput, if_pos rfl]
  unfold freeEncoderInput insertNew
  dsimp only
  cases hfind : manager.cached.find feature.identifier with
  | none => simp
  | some references =>
      dsimp only [Option.map_some]
      by_cases hnil : references.erase r = []
      · by_cases hmem : feature.identifier ∈ manager.freeable
        · simp [hnil, hmem]
        · simp [hnil, hmem]
      · simp [hnil]

theorem Sound.slots_freeEncoderInput (h : Sound features manager) (r : RequestId) (i : ℕ)
    (feature : MultiModalFeatureSpec) :
    (manager.freeEncoderInput r i feature).numFreeableSlots =
      (manager.freeEncoderInput r i feature).numFreeSlots +
        (manager.freeEncoderInput r i feature).freeableSize := by
  have hslots := h.slots
  unfold freeableSize at hslots ⊢
  unfold freeEncoderInput
  dsimp only
  cases hfind : manager.cached.find feature.identifier with
  | none => exact hslots
  | some references =>
      dsimp only
      split
      · dsimp only
        rw [List.map_append, List.sum_append, List.map_singleton, List.sum_singleton]
        omega
      · exact hslots

theorem Sound.freeEncoderInput (h : Sound features manager)
    (hfeature : (features r)[i]? = some feature) :
    Sound features (manager.freeEncoderInput r i feature) where
  nonempty r' := by
    rw [requestCachedIds_freeEncoderInput]
    split
    · exact h.nonempty r'
    · split
      · rw [Dict.find_delete]
        split
        · exact fun heq => (by cases heq)
        · exact h.nonempty r'
      · rename_i hsome
        rw [Dict.find_store]
        split
        · exact fun heq => hsome (Option.some.inj heq)
        · exact h.nonempty r'
  nodup r' := by
    rw [getCachedInputIds_freeEncoderInput]
    split
    · exact (h.nodup r).erase i
    · exact h.nodup r'
  known r' j hj := by
    rw [getCachedInputIds_freeEncoderInput] at hj
    split at hj
    · rename_i heq
      subst heq
      exact h.known r' j (List.mem_of_mem_erase hj)
    · exact h.known r' j hj
  referencesNodup mmHash := by
    rw [findD_freeEncoderInput]
    split
    · exact (h.referencesNodup mmHash).erase r
    · exact h.referencesNodup mmHash
  held mmHash r' hr' := by
    rw [findD_freeEncoderInput] at hr'
    rw [getCachedInputIds_freeEncoderInput]
    split at hr'
    · have hne : r' ≠ r := by
        rintro rfl
        exact (h.referencesNodup mmHash).not_mem_erase hr'
      rw [if_neg hne]
      exact h.held mmHash r' (List.mem_of_mem_erase hr')
    · -- of another entry's inputs none is given up
      rename_i hhash
      obtain ⟨j, hj, hsome⟩ := h.held mmHash r' hr'
      refine ⟨j, ?_, hsome⟩
      split
      · rename_i heq
        subst heq
        refine (List.mem_erase_of_ne fun hji => hhash ?_).mpr hj
        rw [hji, hfeature] at hsome
        exact (Option.some.inj hsome).symm
      · exact hj
  freeableNodup := by
    rw [freeable_freeEncoderInput]
    split
    · exact insertNew_nodup h.freeableNodup
    · exact h.freeableNodup
  freeable mmHash := by
    rw [freeable_freeEncoderInput]
    by_cases heq : mmHash = feature.identifier
    · subst heq
      split
      · rename_i hnil
        exact iff_of_true (mem_insertNew.mpr (Or.inr rfl)) hnil
      · rename_i hsome
        refine iff_of_false (fun hmem => hsome ?_) hsome
        rw [find_freeEncoderInput, if_pos rfl, (h.freeable _).mp hmem]
        rfl
    · have hsame : (manager.freeEncoderInput r i feature).cached.find mmHash = some [] ↔
          mmHash ∈ manager.freeable := by
        rw [find_freeEncoderInput, if_neg heq, h.freeable]
      rw [hsame]
      split
      · rw [mem_insertNew]
        exact ⟨fun hor => hor.resolve_right heq, Or.inl⟩
      · exact Iff.rfl
  slots := h.slots_freeEncoderInput r i feature

/-! ### Giving back several -/

def freeInputs (manager : EncoderCacheManager) (r : RequestId)
    (entries : List (ℕ × MultiModalFeatureSpec)) : EncoderCacheManager :=
  entries.foldl (fun manager entry => manager.freeEncoderInput r entry.1 entry.2) manager

theorem freeInputs_cons (manager : EncoderCacheManager) (r : RequestId)
    (entry : ℕ × MultiModalFeatureSpec) (entries : List (ℕ × MultiModalFeatureSpec)) :
    manager.freeInputs r (entry :: entries) =
      (manager.freeEncoderInput r entry.1 entry.2).freeInputs r entries := rfl

theorem getCachedInputIds_freeInputs (manager : EncoderCacheManager) (r r' : RequestId)
    (entries : List (ℕ × MultiModalFeatureSpec)) :
    (manager.freeInputs r entries).getCachedInputIds r' =
      if r' = r then (manager.getCachedInputIds r).diff (entries.map (·.1))
      else manager.getCachedInputIds r' := by
  induction entries generalizing manager with
  | nil =>
      split
      · rename_i heq
        subst heq
        rfl
      · rfl
  | cons entry entries ih =>
      rw [freeInputs_cons, ih, List.map_cons, List.diff_cons]
      simp only [getCachedInputIds_freeEncoderInput, if_true]
      split <;> rfl

theorem isSome_freeInputs (manager : EncoderCacheManager) (r : RequestId)
    (entries : List (ℕ × MultiModalFeatureSpec)) (mmHash : String) :
    ((manager.freeInputs r entries).cached.find mmHash).isSome =
      (manager.cached.find mmHash).isSome := by
  induction entries generalizing manager with
  | nil => rfl
  | cons entry entries ih =>
      rw [freeInputs_cons, ih, find_freeEncoderInput]
      split
      · rw [Option.isSome_map]
      · rfl

@[simp] theorem freed_freeInputs (manager : EncoderCacheManager) (r : RequestId)
    (entries : List (ℕ × MultiModalFeatureSpec)) :
    (manager.freeInputs r entries).freed = manager.freed := by
  induction entries generalizing manager with
  | nil => rfl
  | cons entry entries ih => rw [freeInputs_cons, ih, freed_freeEncoderInput]

theorem Sound.freeInputs {entries : List (ℕ × MultiModalFeatureSpec)}
    (h : Sound features manager)
    (hentries : ∀ entry ∈ entries, (features r)[entry.1]? = some entry.2) :
    Sound features (manager.freeInputs r entries) := by
  induction entries generalizing manager with
  | nil => exact h
  | cons entry entries ih =>
      obtain ⟨hfirst, hrest⟩ := List.forall_mem_cons.mp hentries
      rw [freeInputs_cons]
      exact ih (h.freeEncoderInput hfirst) hrest

theorem Sound.mem_freeInputs (h : Sound features manager)
    {entries : List (ℕ × MultiModalFeatureSpec)} {j : ℕ} :
    j ∈ (manager.freeInputs r entries).getCachedInputIds r' ↔
      j ∈ manager.getCachedInputIds r' ∧ (r' = r → j ∉ entries.map (·.1)) := by
  rw [getCachedInputIds_freeInputs]
  split
  · rename_i heq
    subst heq
    rw [List.Nodup.mem_sdiff_iff (h.nodup r')]
    simp
  · rename_i hne
    simp [hne]

def entriesOf (features : List MultiModalFeatureSpec) (inputIds : List ℕ) :
    List (ℕ × MultiModalFeatureSpec) :=
  inputIds.filterMap fun inputId => (features[inputId]?).map fun feature => (inputId, feature)

theorem mem_entriesOf {features : List MultiModalFeatureSpec} {inputIds : List ℕ}
    {entry : ℕ × MultiModalFeatureSpec} : entry ∈ entriesOf features inputIds ↔
      entry.1 ∈ inputIds ∧ features[entry.1]? = some entry.2 := by
  obtain ⟨i, feature⟩ := entry
  simp only [entriesOf, List.mem_filterMap, Option.map_eq_some_iff, Prod.mk.injEq]
  constructor
  · rintro ⟨j, hj, feature', hfeature, rfl, rfl⟩
    exact ⟨hj, hfeature⟩
  · rintro ⟨hi, hfeature⟩
    exact ⟨i, hi, feature, hfeature, rfl, rfl⟩

/-- A request gives back everything where the list has all it holds. -/
theorem Sound.freeInputs_eq_nil (h : Sound features manager) {ids : List ℕ}
    (hall : ∀ i ∈ manager.getCachedInputIds r, i ∈ ids) :
    (manager.freeInputs r (entriesOf (features r) ids)).getCachedInputIds r = [] := by
  rw [List.eq_nil_iff_forall_not_mem]
  intro i hi
  obtain ⟨hmem, hnot⟩ := h.mem_freeInputs.mp hi
  have hfeature := List.getElem?_eq_getElem (h.known r i hmem)
  have hentry : (i, (features r).get ⟨i, h.known r i hmem⟩) ∈ entriesOf (features r) ids :=
    mem_entriesOf.mpr ⟨hall i hmem, hfeature⟩
  exact hnot rfl (List.mem_map.mpr ⟨_, hentry, rfl⟩)

/-- References are given back, and nothing else happens. -/
structure Gives (features : RequestId → List MultiModalFeatureSpec)
    (manager manager' : EncoderCacheManager) : Prop where
  sound : Sound features manager → Sound features manager'
  held : ∀ r, ∀ i ∈ manager'.getCachedInputIds r, i ∈ manager.getCachedInputIds r
  resident : ∀ mmHash,
    (manager'.cached.find mmHash).isSome = (manager.cached.find mmHash).isSome
  freed : manager'.freed = manager.freed

theorem Gives.refl (manager : EncoderCacheManager) : Gives features manager manager :=
  ⟨id, fun _ _ => id, fun _ => rfl, rfl⟩

theorem Gives.trans {manager'' : EncoderCacheManager} (h : Gives features manager manager')
    (h' : Gives features manager' manager'') : Gives features manager manager'' :=
  ⟨fun hsound => h'.sound (h.sound hsound), fun r i hi => h.held r i (h'.held r i hi),
    fun mmHash => (h'.resident mmHash).trans (h.resident mmHash), h'.freed.trans h.freed⟩

theorem freeInputs_gives {entries : List (ℕ × MultiModalFeatureSpec)}
    (hentries : ∀ entry ∈ entries, (features r)[entry.1]? = some entry.2) :
    Gives features manager (manager.freeInputs r entries) where
  sound hsound := hsound.freeInputs hentries
  held r' i hi := by
    rw [getCachedInputIds_freeInputs] at hi
    split at hi
    · rename_i heq
      exact heq ▸ List.diff_subset _ _ hi
    · exact hi
  resident := isSome_freeInputs manager r entries
  freed := freed_freeInputs manager r entries

theorem free_eq {H : Type} (manager : EncoderCacheManager) (request : Request H) :
    manager.free request = manager.freeInputs request.requestId
      (entriesOf request.mmFeatures (manager.getCachedInputIds request.requestId)) := by
  unfold free freeInputs entriesOf
  rw [List.foldl_filterMap]
  congr 1
  funext manager inputId
  cases request.mmFeatures[inputId]? <;> rfl

variable (features manager) in
/-- A request that ends gives everything back; one without features has nothing
to give. -/
theorem free_gives {H : Type} {request : Request H}
    (hfeatures : request.mmFeatures = features request.requestId) :
    Gives features manager (if request.mmFeatures = [] then manager else manager.free request) ∧
      (Sound features manager →
        (if request.mmFeatures = [] then manager else manager.free request).getCachedInputIds
          request.requestId = []) := by
  split
  · rename_i hnil
    refine ⟨.refl manager, fun hsound => List.eq_nil_iff_forall_not_mem.mpr fun i hi => ?_⟩
    have hlt := hsound.known _ i hi
    rw [← hfeatures, hnil] at hlt
    exact absurd hlt (Nat.not_lt_zero i)
  · rw [free_eq, hfeatures]
    exact ⟨freeInputs_gives fun entry hentry => (mem_entriesOf.mp hentry).2,
      fun hsound => hsound.freeInputs_eq_nil fun i hi => hi⟩

theorem getFreedMmHashes_sound (h : Sound features manager) :
    Sound features manager.getFreedMmHashes.2 :=
  { h with }

theorem recordLookup_sound (h : Sound features manager) (hit : Bool) :
    Sound features (manager.recordLookup hit) :=
  { h with }

end EncoderCacheManager

end Pvllm
