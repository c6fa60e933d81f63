import Pvllm.Core.EncoderReferences
import Pvllm.Library.LabelledRun
import Mathlib.Tactic.Abel

/-!
The accounts of the encoder cache over any sequence of calls.

The slots always add up, and the entries queued for eviction are those that nobody
references. References are kept per request and holdings per input, so a request that
shows one image twice gives its only reference back with the first of the two.
-/

namespace Pvllm

namespace EncoderCacheManager

variable {features : RequestId → List MultiModalFeatureSpec}
  {manager manager' : EncoderCacheManager} {r : RequestId} {i : ℕ} {feature : MultiModalFeatureSpec}

/-! ### Free slots -/

def residentSize (manager : EncoderCacheManager) : ℤ :=
  manager.cached.weigh fun mmHash _ => (manager.entrySize.findD mmHash 0 : ℤ)

/-- The free slots are those that no cached entry takes, and the size of each entry is known. -/
structure Sized (manager : EncoderCacheManager) : Prop where
  known : ∀ mmHash, mmHash ∈ manager.cached.keys → mmHash ∈ manager.entrySize.keys
  freeSlots : manager.numFreeSlots = manager.cacheSize - manager.residentSize

theorem init_sized {cacheSize : ℕ} (h : init cacheSize = .ok manager) : Sized manager := by
  unfold init at h
  split at h
  · cases h
  obtain rfl := Except.ok.inj h
  exact ⟨fun mmHash hmem => absurd hmem List.not_mem_nil, (sub_zero _).symm⟩

theorem weigh_store_size {cached : Dict String (List RequestId)} {mmHash : String}
    (hnone : mmHash ∉ cached.keys) (entrySize : Dict String ℕ) (numEmbeds : ℕ) :
    (cached.weigh fun key _ => ((entrySize.store mmHash numEmbeds).findD key 0 : ℤ)) =
      cached.weigh fun key _ => (entrySize.findD key 0 : ℤ) := by
  apply Dict.weigh_congr
  intro entry hentry
  rw [Dict.findD_store, if_neg]
  rintro rfl
  exact hnone (List.mem_map_of_mem hentry)

theorem weigh_delete_size {cached : Dict String (List RequestId)} {mmHash : String}
    (hnone : mmHash ∉ cached.keys) (entrySize : Dict String ℕ) :
    (cached.weigh fun key _ => ((entrySize.delete mmHash).findD key 0 : ℤ)) =
      cached.weigh fun key _ => (entrySize.findD key 0 : ℤ) := by
  apply Dict.weigh_congr
  intro entry hentry
  rw [Dict.findD_delete, if_neg]
  rintro rfl
  exact hnone (List.mem_map_of_mem hentry)

theorem weigh_store_references {cached : Dict String (List RequestId)} {mmHash : String}
    {old : List RequestId} (hfind : cached.find mmHash = some old) (references : List RequestId)
    (size : String → ℤ) :
    ((cached.store mmHash references).weigh fun key _ => size key) =
      cached.weigh fun key _ => size key := by
  have hstore := cached.weigh_store mmHash references fun key _ => size key
  rw [hfind] at hstore
  exact add_right_cancel hstore

theorem Sized.allocate (h : Sized manager) (r : RequestId) (i : ℕ)
    (feature : MultiModalFeatureSpec) : Sized (manager.allocate r i feature) := by
  unfold EncoderCacheManager.allocate
  dsimp only
  cases hfind : manager.cached.find feature.identifier with
  | none =>
      have hnone := (manager.cached.find_eq_none_iff _).mp hfind
      dsimp only
      refine ⟨fun mmHash hmem => ?_, ?_⟩
      · rw [Dict.mem_keys_store]
        rw [Dict.mem_keys_store, Dict.mem_keys_store] at hmem
        have hknown := h.known mmHash
        tauto
      · have hfound : (manager.cached.store feature.identifier []).find feature.identifier =
            some [] := Dict.find_store_self ..
        unfold residentSize
        dsimp only
        rw [weigh_store_references hfound, Dict.weigh_store_of_not_mem hnone,
          weigh_store_size hnone, Dict.findD_store, if_pos rfl, h.freeSlots]
        unfold residentSize
        omega
  | some references =>
      cases references with
      | nil =>
          refine ⟨fun mmHash hmem => ?_, ?_⟩
          · rw [Dict.mem_keys_store] at hmem
            apply h.known
            rcases hmem with rfl | hmem
            · exact (Dict.mem_keys_iff _ _).mpr ⟨_, hfind⟩
            · exact hmem
          · unfold residentSize
            dsimp only
            rw [weigh_store_references hfind]
            exact h.freeSlots
      | cons holder holders =>
          refine ⟨fun mmHash hmem => ?_, ?_⟩
          · rw [Dict.mem_keys_store] at hmem
            apply h.known
            rcases hmem with rfl | hmem
            · exact (Dict.mem_keys_iff _ _).mpr ⟨_, hfind⟩
            · exact hmem
          · unfold residentSize
            dsimp only
            rw [weigh_store_references hfind]
            exact h.freeSlots

/-- The entries of the queue are cached, so that evicting them frees their slots. -/
theorem Sized.evictFor {numEmbeds : ℕ} {l : List String} (h : Sized manager) (hnodup : l.Nodup)
    (hcached : ∀ mmHash ∈ l, mmHash ∈ manager.cached.keys)
    (hok : evictFor numEmbeds manager l = .ok manager') : Sized manager' := by
  induction l generalizing manager with
  | nil =>
      obtain rfl := Except.ok.inj hok
      exact h
  | cons evicted rest ih =>
      unfold EncoderCacheManager.evictFor at hok
      split at hok
      · obtain rfl := Except.ok.inj hok
        exact h
      split at hok
      · cases hok
      obtain ⟨hnot, hrest⟩ := List.nodup_cons.mp hnodup
      obtain ⟨hmem, hcached⟩ := List.forall_mem_cons.mp hcached
      refine ih ⟨fun mmHash hkey => ?_, ?_⟩ hrest (fun mmHash hkey => ?_) hok
      · rw [Dict.mem_keys_delete] at hkey ⊢
        exact ⟨hkey.1, h.known mmHash hkey.2⟩
      · obtain ⟨references, hfind⟩ := (Dict.mem_keys_iff _ _).mp hmem
        have hdelete := manager.cached.weigh_delete evicted fun mmHash _ =>
          (manager.entrySize.findD mmHash 0 : ℤ)
        have hgone : evicted ∉ (manager.cached.delete evicted).keys := by
          rw [Dict.mem_keys_delete]
          exact fun hboth => hboth.1 rfl
        have hslots := h.freeSlots
        rw [hfind] at hdelete
        unfold residentSize at hslots ⊢
        dsimp only at hslots ⊢
        rw [weigh_delete_size hgone]
        simp only [Option.map_some, Option.getD_some] at hdelete
        omega
      · rw [Dict.mem_keys_delete]
        refine ⟨?_, hcached mmHash hkey⟩
        rintro rfl
        exact hnot hkey

theorem Sized.freeEncoderInput (h : Sized manager) (r : RequestId) (i : ℕ)
    (feature : MultiModalFeatureSpec) : Sized (manager.freeEncoderInput r i feature) := by
  unfold EncoderCacheManager.freeEncoderInput
  dsimp only
  cases hfind : manager.cached.find feature.identifier with
  | none => exact ⟨h.known, h.freeSlots⟩
  | some references =>
      have hsized : ∀ cached' : EncoderCacheManager,
          cached'.cached = manager.cached.store feature.identifier (references.erase r) →
          cached'.entrySize = manager.entrySize → cached'.numFreeSlots = manager.numFreeSlots →
          cached'.cacheSize = manager.cacheSize → Sized cached' := by
        intro manager' hcached hsize hslots hcacheSize
        refine ⟨fun mmHash hmem => ?_, ?_⟩
        · rw [hcached, Dict.mem_keys_store] at hmem
          rw [hsize]
          apply h.known
          rcases hmem with rfl | hmem
          · exact (Dict.mem_keys_iff _ _).mpr ⟨_, hfind⟩
          · exact hmem
        · rw [residentSize, hcached, hsize, hslots, hcacheSize, weigh_store_references hfind]
          exact h.freeSlots
      dsimp only
      split <;> exact hsized _ rfl rfl rfl rfl

theorem Sized.freeInputs (h : Sized manager) (r : RequestId)
    (entries : List (ℕ × MultiModalFeatureSpec)) : Sized (manager.freeInputs r entries) := by
  induction entries generalizing manager with
  | nil => exact h
  | cons entry entries ih => exact ih (h.freeEncoderInput r entry.1 entry.2)

theorem Sized.canAllocate {fits : Bool} (h : Sized manager) (hsound : Sound features manager)
    (hok : manager.canAllocate feature = .ok (fits, manager')) : Sized manager' := by
  have hcached : ∀ mmHash ∈ manager.freeable, mmHash ∈ manager.cached.keys :=
    fun mmHash hmem => (Dict.mem_keys_iff _ _).mpr ⟨[], (hsound.freeable mmHash).mp hmem⟩
  unfold EncoderCacheManager.canAllocate at hok
  split at hok
  · cases hok
    exact h
  split at hok
  · cases hok
    exact h
  split at hok
  · cases hok
    exact h
  split at hok
  · cases hok
  · rename_i hevict
    cases hok
    exact h.evictFor hsound.freeableNodup hcached hevict

/-! ### The accounts -/

/-- The accounts are in order: the slots add up, the entries queued for eviction are those that
nobody references, and whoever holds an input references its entry, which no eviction takes.
Making room itself does not fail (`Sound.canAllocate`). -/
structure Accounts (features : RequestId → List MultiModalFeatureSpec)
    (manager : EncoderCacheManager) : Prop where
  freeSlots : manager.numFreeSlots = manager.cacheSize - manager.residentSize
  freeableSlots : manager.numFreeableSlots = manager.numFreeSlots + manager.freeableSize
  freeable : ∀ mmHash, mmHash ∈ manager.freeable ↔ manager.cached.find mmHash = some []
  freeableNodup : manager.freeable.Nodup
  referenced : ∀ r, ∀ i ∈ manager.getCachedInputIds r, ∃ feature, (features r)[i]? = some feature ∧
    r ∈ manager.cached.findD feature.identifier []
  retained : ∀ other fits manager', manager.canAllocate other = .ok (fits, manager') →
    ∀ r, ∀ i ∈ manager.getCachedInputIds r, ∀ feature, (features r)[i]? = some feature →
      manager'.hasCache feature = true

/-- Every held input has its request among the references of its entry. -/
def Referenced (features : RequestId → List MultiModalFeatureSpec)
    (manager : EncoderCacheManager) : Prop :=
  ∀ r, ∀ i ∈ manager.getCachedInputIds r, ∀ feature, (features r)[i]? = some feature →
    r ∈ manager.cached.findD feature.identifier []

/-- What is always true of the cache. -/
structure Ordered (features : RequestId → List MultiModalFeatureSpec)
    (manager : EncoderCacheManager) : Prop where
  sound : Sound features manager
  sized : Sized manager

theorem Referenced.not_evicted {evicted : List String} {manager' : EncoderCacheManager}
    (h : Referenced features manager) (hsound : Sound features manager)
    (hevicts : Evicts manager manager' evicted) (hi : i ∈ manager.getCachedInputIds r)
    (hfeature : (features r)[i]? = some feature) : feature.identifier ∉ evicted := by
  intro hmem
  have hfind := (hsound.freeable feature.identifier).mp
    (hevicts.freeable ▸ List.mem_append_left _ hmem)
  have hreferenced := h r i hi feature hfeature
  rw [Dict.findD, hfind] at hreferenced
  exact absurd hreferenced List.not_mem_nil

theorem Ordered.accounts_iff (h : Ordered features manager) :
    Accounts features manager ↔ Referenced features manager := by
  constructor
  · intro haccounts r i hi feature hfeature
    obtain ⟨feature', hfeature', hmem⟩ := haccounts.referenced r i hi
    obtain rfl := Option.some.inj (hfeature.symm.trans hfeature')
    exact hmem
  · intro hreferenced
    refine ⟨h.sized.freeSlots, h.sound.slots, h.sound.freeable, h.sound.freeableNodup,
      fun r i hi => ?_, fun other fits manager' hcan r i hi feature hfeature => ?_⟩
    · have hfeature := List.getElem?_eq_getElem (h.sound.known r i hi)
      exact ⟨_, hfeature, hreferenced r i hi _ hfeature⟩
    · obtain ⟨evicted, hevicts, -⟩ := canAllocate_ok hcan
      have hmem := hreferenced r i hi feature hfeature
      rw [hasCache, hevicts.cached,
        if_neg (hreferenced.not_evicted h.sound hevicts hi hfeature)]
      cases hfind : manager.cached.find feature.identifier with
      | none =>
          rw [Dict.findD, hfind] at hmem
          exact absurd hmem List.not_mem_nil
      | some references => rfl

/-- Making room never comes upon an entry that is referenced. -/
theorem Sound.canAllocate (h : Sound features manager) (feature : MultiModalFeatureSpec) :
    ∃ result, manager.canAllocate feature = .ok result := by
  have hloop : ∀ (l : List String) (manager : EncoderCacheManager), l.Nodup →
      (∀ mmHash ∈ l, manager.cached.find mmHash = some []) →
      ∃ manager', evictFor feature.numEmbeds manager l = .ok manager' := by
    intro l
    induction l with
    | nil => exact fun manager _ _ => ⟨manager, rfl⟩
    | cons evicted rest ih =>
        intro manager hnodup hfree
        obtain ⟨hnot, hrest⟩ := List.nodup_cons.mp hnodup
        obtain ⟨hfirst, hothers⟩ := List.forall_mem_cons.mp hfree
        unfold evictFor
        split
        · exact ⟨manager, rfl⟩
        · rw [if_neg (by rw [Dict.findD, hfirst]; exact fun hne => hne rfl)]
          apply ih _ hrest
          intro mmHash hmem
          rw [Dict.find_delete, if_neg]
          · exact hothers mmHash hmem
          · rintro rfl
            exact hnot hmem
  unfold EncoderCacheManager.canAllocate
  split
  · exact ⟨_, rfl⟩
  split
  · exact ⟨_, rfl⟩
  split
  · exact ⟨_, rfl⟩
  obtain ⟨manager', hok⟩ := hloop manager.freeable manager h.freeableNodup
    fun mmHash hmem => (h.freeable mmHash).mp hmem
  rw [hok]
  exact ⟨_, rfl⟩

/-! ### What each call does to them -/

theorem Referenced.allocate (h : Referenced features manager)
    (hfeature : (features r)[i]? = some feature) :
    Referenced features (manager.allocate r i feature) := by
  intro r' j hj other hother
  rw [getCachedInputIds_allocate] at hj
  have hold : j ∈ manager.getCachedInputIds r' →
      r' ∈ (manager.allocate r i feature).cached.findD other.identifier [] := by
    intro hmem
    have hreferenced := h r' j hmem other hother
    rw [findD_allocate]
    split
    · exact mem_insertNew.mpr (Or.inl hreferenced)
    · exact hreferenced
  split at hj
  · rename_i heq
    subst heq
    rcases mem_insertNew.mp hj with hmem | rfl
    · exact hold hmem
    · obtain rfl := Option.some.inj (hother.symm.trans hfeature)
      rw [findD_allocate, if_pos rfl]
      exact mem_insertNew.mpr (Or.inr rfl)
  · exact hold hj

theorem Referenced.evicts {evicted : List String} (h : Referenced features manager)
    (hsound : Sound features manager) (hevicts : Evicts manager manager' evicted) :
    Referenced features manager' := by
  intro r i hi feature hfeature
  rw [hevicts.getCachedInputIds] at hi
  rw [Dict.findD, hevicts.cached, if_neg (h.not_evicted hsound hevicts hi hfeature)]
  exact h r i hi feature hfeature

/-- No other input that the request holds has the hash of this one. -/
def OnlyHolding (features : RequestId → List MultiModalFeatureSpec)
    (manager : EncoderCacheManager) (r : RequestId) (i : ℕ) : Prop :=
  ∀ j ∈ manager.getCachedInputIds r, j ≠ i →
    ((features r)[j]?).map (·.identifier) ≠ ((features r)[i]?).map (·.identifier)

/-- The only reference of a request goes with the first of its inputs to be freed, so that the
others must be of other entries. -/
theorem Referenced.freeEncoderInput_iff (h : Referenced features manager)
    (hsound : Sound features manager) (hfeature : (features r)[i]? = some feature) :
    Referenced features (manager.freeEncoderInput r i feature) ↔
      OnlyHolding features manager r i := by
  constructor
  · intro hafter j hj hne hsame
    have hother := List.getElem?_eq_getElem (hsound.known r j hj)
    rw [hfeature, hother, Option.map_some, Option.map_some] at hsame
    have hheld : j ∈ (manager.freeEncoderInput r i feature).getCachedInputIds r := by
      rw [getCachedInputIds_freeEncoderInput, if_pos rfl]
      exact (List.mem_erase_of_ne hne).mpr hj
    have hmem := hafter r j hheld _ hother
    rw [findD_freeEncoderInput, if_pos (Option.some.inj hsame)] at hmem
    exact (hsound.referencesNodup _).not_mem_erase hmem
  · intro honly r' j hj other hother
    rw [getCachedInputIds_freeEncoderInput] at hj
    rw [findD_freeEncoderInput]
    by_cases heq : r' = r
    · subst heq
      rw [if_pos rfl, (hsound.nodup r').mem_erase_iff] at hj
      have hne := honly j hj.2 hj.1
      rw [hother, hfeature] at hne
      rw [if_neg fun hsame => hne (congrArg some hsame)]
      exact h r' j hj.2 other hother
    · rw [if_neg heq] at hj
      have hmem := h r' j hj other hother
      split
      · exact (List.mem_erase_of_ne heq).mpr hmem
      · exact hmem

theorem findD_freeInputs_of_ne (manager : EncoderCacheManager) {r r' : RequestId} (hne : r' ≠ r)
    (entries : List (ℕ × MultiModalFeatureSpec)) (mmHash : String)
    (h : r' ∈ manager.cached.findD mmHash []) :
    r' ∈ (manager.freeInputs r entries).cached.findD mmHash [] := by
  induction entries generalizing manager with
  | nil => exact h
  | cons entry entries ih =>
      apply ih
      rw [findD_freeEncoderInput]
      split
      · exact (List.mem_erase_of_ne hne).mpr h
      · exact h

/-- A request that gives everything back takes nothing from the others. -/
theorem Referenced.free {H : Type} {request : Request H} (h : Referenced features manager)
    (hsound : Sound features manager)
    (hfeatures : request.mmFeatures = features request.requestId) :
    Referenced features (manager.free request) := by
  intro r i hi feature hfeature
  rw [free_eq, hfeatures] at hi ⊢
  by_cases heq : r = request.requestId
  · subst heq
    rw [hsound.freeInputs_eq_nil fun i hi => hi] at hi
    exact absurd hi List.not_mem_nil
  · rw [getCachedInputIds_freeInputs, if_neg heq] at hi
    exact findD_freeInputs_of_ne manager heq _ _ (h r i hi feature hfeature)

end EncoderCacheManager

/-! ### Sequences of calls -/

inductive CacheCall
  | request (r : RequestId) (items : List MultiModalFeatureSpec)
  | hasCache (r : RequestId) (i : ℕ) (hit : Bool)
  | recordLookup (hit : Bool)
  | canAllocate (r : RequestId) (i : ℕ) (fits : Bool)
  | allocate (r : RequestId) (i : ℕ)
  | freeEncoderInput (r : RequestId) (i : ℕ)
  | free (r : RequestId)
  | getFreedMmHashes (freed : List String)

structure CacheUse where
  features : RequestId → List MultiModalFeatureSpec
  manager : EncoderCacheManager

namespace CacheUse

open EncoderCacheManager

/-- One call. An input belongs to its request, and a request that holds something keeps its
items. -/
inductive Step : CacheUse → CacheCall → CacheUse → Prop
  | request {features : RequestId → List MultiModalFeatureSpec} {manager : EncoderCacheManager}
      {r : RequestId} {items : List MultiModalFeatureSpec}
      (hnone : manager.getCachedInputIds r = []) :
      Step ⟨features, manager⟩ (.request r items) ⟨Function.update features r items, manager⟩
  | hasCache {features : RequestId → List MultiModalFeatureSpec} {manager : EncoderCacheManager}
      {r : RequestId} {i : ℕ} {feature : MultiModalFeatureSpec}
      (hfeature : (features r)[i]? = some feature) :
      Step ⟨features, manager⟩ (.hasCache r i (manager.hasCache feature)) ⟨features, manager⟩
  | recordLookup {features : RequestId → List MultiModalFeatureSpec}
      {manager : EncoderCacheManager} {hit : Bool} :
      Step ⟨features, manager⟩ (.recordLookup hit) ⟨features, manager.recordLookup hit⟩
  | canAllocate {features : RequestId → List MultiModalFeatureSpec}
      {manager manager' : EncoderCacheManager} {r : RequestId} {i : ℕ}
      {feature : MultiModalFeatureSpec} {fits : Bool}
      (hfeature : (features r)[i]? = some feature)
      (hok : manager.canAllocate feature = .ok (fits, manager')) :
      Step ⟨features, manager⟩ (.canAllocate r i fits) ⟨features, manager'⟩
  | allocate {features : RequestId → List MultiModalFeatureSpec} {manager : EncoderCacheManager}
      {r : RequestId} {i : ℕ} {feature : MultiModalFeatureSpec}
      (hfeature : (features r)[i]? = some feature) :
      Step ⟨features, manager⟩ (.allocate r i) ⟨features, manager.allocate r i feature⟩
  | freeEncoderInput {features : RequestId → List MultiModalFeatureSpec}
      {manager : EncoderCacheManager} {r : RequestId} {i : ℕ} {feature : MultiModalFeatureSpec}
      (hfeature : (features r)[i]? = some feature) :
      Step ⟨features, manager⟩ (.freeEncoderInput r i)
        ⟨features, manager.freeEncoderInput r i feature⟩
  | free {H : Type} {features : RequestId → List MultiModalFeatureSpec}
      {manager : EncoderCacheManager} {request : Request H}
      (hfeatures : request.mmFeatures = features request.requestId) :
      Step ⟨features, manager⟩ (.free request.requestId) ⟨features, manager.free request⟩
  | getFreedMmHashes {features : RequestId → List MultiModalFeatureSpec}
      {manager : EncoderCacheManager} :
      Step ⟨features, manager⟩ (.getFreedMmHashes manager.getFreedMmHashes.1)
        ⟨features, manager.getFreedMmHashes.2⟩

def Ordered (use : CacheUse) : Prop := use.manager.Ordered use.features

def Accounts (use : CacheUse) : Prop := use.manager.Accounts use.features

/-- A call that frees an input finds no other held input of the request with the same hash. -/
def Clear (use : CacheUse) : CacheCall → Prop
  | .freeEncoderInput r i => use.manager.OnlyHolding use.features r i
  | _ => True

variable {use use' : CacheUse} {call : CacheCall}

theorem Step.ordered (hstep : Step use call use') (h : use.Ordered) : use'.Ordered := by
  obtain ⟨hsound, hsized⟩ := h
  cases hstep with
  | @request features manager r items hnone =>
      refine ⟨hsound.congr fun r' hr' => Function.update_of_ne ?_ _ _, hsized⟩
      rintro rfl
      exact hr' hnone
  | hasCache => exact ⟨hsound, hsized⟩
  | recordLookup => exact ⟨recordLookup_sound hsound _, ⟨hsized.known, hsized.freeSlots⟩⟩
  | canAllocate hfeature hok =>
      obtain ⟨evicted, hevicts, -⟩ := canAllocate_ok hok
      exact ⟨hevicts.sound hsound, hsized.canAllocate hsound hok⟩
  | allocate hfeature => exact ⟨hsound.allocate hfeature, hsized.allocate ..⟩
  | freeEncoderInput hfeature =>
      exact ⟨hsound.freeEncoderInput hfeature, hsized.freeEncoderInput ..⟩
  | @free H features manager request hfeatures =>
      refine ⟨?_, ?_⟩
      · show (manager.free request).Sound features
        rw [free_eq, hfeatures]
        exact hsound.freeInputs fun entry hentry => (mem_entriesOf.mp hentry).2
      · show (manager.free request).Sized
        rw [free_eq]
        exact hsized.freeInputs ..
  | getFreedMmHashes => exact ⟨getFreedMmHashes_sound hsound, ⟨hsized.known, hsized.freeSlots⟩⟩

/-- A call keeps the accounts in order exactly when it is clear. -/
theorem Step.accounts_iff (hstep : Step use call use') (h : use.Ordered)
    (haccounts : use.Accounts) : use'.Accounts ↔ use.Clear call := by
  have hafter := hstep.ordered h
  have hreferenced := h.accounts_iff.mp haccounts
  refine (EncoderCacheManager.Ordered.accounts_iff hafter).trans ?_
  cases hstep with
  | @request features manager r items hnone =>
      refine iff_of_true (fun r' i hi feature hfeature => ?_) trivial
      have hne : r' ≠ r := by
        rintro rfl
        dsimp only at hi
        rw [hnone] at hi
        exact absurd hi List.not_mem_nil
      dsimp only at hfeature
      rw [Function.update_of_ne hne] at hfeature
      exact hreferenced r' i hi feature hfeature
  | hasCache => exact iff_of_true hreferenced trivial
  | recordLookup => exact iff_of_true hreferenced trivial
  | canAllocate hfeature hok =>
      obtain ⟨evicted, hevicts, -⟩ := canAllocate_ok hok
      exact iff_of_true (hreferenced.evicts h.sound hevicts) trivial
  | allocate hfeature => exact iff_of_true (hreferenced.allocate hfeature) trivial
  | freeEncoderInput hfeature => exact hreferenced.freeEncoderInput_iff h.sound hfeature
  | free hfeatures => exact iff_of_true (hreferenced.free h.sound hfeatures) trivial
  | getFreedMmHashes => exact iff_of_true hreferenced trivial

theorem init_accounts (features : RequestId → List MultiModalFeatureSpec) {cacheSize : ℕ}
    {manager : EncoderCacheManager} (hinit : EncoderCacheManager.init cacheSize = .ok manager) :
    Ordered ⟨features, manager⟩ ∧ Accounts ⟨features, manager⟩ := by
  obtain ⟨hsound, hheld, -, -⟩ : Sound features manager ∧ _ := init_sound hinit
  have hordered : Ordered ⟨features, manager⟩ := ⟨hsound, init_sized hinit⟩
  refine ⟨hordered, hordered.accounts_iff.mpr fun r i hi => ?_⟩
  rw [getCachedInputIds, hheld] at hi
  exact absurd hi List.not_mem_nil

/-- The accounts are in order after every call of a sequence exactly when every call of it is
clear. -/
theorem accounts_iff_clear {features : RequestId → List MultiModalFeatureSpec} {cacheSize : ℕ}
    {manager : EncoderCacheManager} {calls : List CacheCall}
    (hinit : EncoderCacheManager.init cacheSize = .ok manager) :
    Accounts ⟨features, manager⟩ ∧
      (Run (fun use call use' => Step use call use' ∧ use'.Accounts) ⟨features, manager⟩ calls use ↔
        Run (fun use call use' => Step use call use' ∧ use.Clear call) ⟨features, manager⟩ calls
          use) := by
  obtain ⟨hordered, haccounts⟩ := init_accounts features hinit
  refine ⟨haccounts, Run.congr_of_invariant (P := fun use => use.Ordered ∧ use.Accounts)
    ⟨hordered, haccounts⟩ ?_ ?_⟩
  · rintro use call use' ⟨hordered, haccounts⟩ ⟨hstep, hclear⟩
    exact ⟨hstep.ordered hordered, (hstep.accounts_iff hordered haccounts).mpr hclear⟩
  · rintro use call use' ⟨hordered, haccounts⟩
    exact and_congr_right fun hstep => hstep.accounts_iff hordered haccounts

/-- An image is cached and given back. -/
theorem accounts_iff_clear_image : ∃ manager use, EncoderCacheManager.init 4 = .ok manager ∧
    Run (fun use call use' => Step use call use' ∧ use'.Accounts)
      ⟨fun _ => [⟨"a", 0, 2, 2⟩], manager⟩ [.allocate 1 0, .freeEncoderInput 1 0] use := by
  obtain ⟨manager, hinit⟩ : ∃ manager, EncoderCacheManager.init 4 = .ok manager := ⟨_, rfl⟩
  have hheld : manager.requestCachedIds = .empty :=
    (init_sound hinit : Sound (fun _ => []) manager ∧ _).2.1
  have hstart : Run (fun use call use' => Step use call use' ∧ use.Clear call)
    ⟨fun _ => [⟨"a", 0, 2, 2⟩], manager⟩ [] ⟨fun _ => [⟨"a", 0, 2, 2⟩], manager⟩ := .nil
  have hclear := (hstart.snoc ⟨.allocate (r := 1) (i := 0) rfl, trivial⟩).snoc
    ⟨.freeEncoderInput (r := 1) (i := 0) rfl, fun j hj hne => ?_⟩
  · exact ⟨manager, _, hinit, (accounts_iff_clear hinit).2.mpr hclear⟩
  · rw [getCachedInputIds_allocate, if_pos rfl, getCachedInputIds, hheld] at hj
    exact absurd (List.mem_singleton.mp hj) hne

end CacheUse

end Pvllm
