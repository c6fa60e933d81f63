import Pvllm.Core.LayerSpecs

/-!
The groups share the layers out.

`unifyPageSizes` keeps the layers and their kinds and leaves one page size. The buckets
hold each layer once, under its type id, which tells the kind of a layer. Each bucket is
dealt out, so that no group is above the chosen size or without a layer.
-/

namespace Pvllm

namespace LayerSpec

/-! ### What a type id tells -/

def kind (spec : LayerSpec) : String × ℕ × Option ℕ :=
  (spec.className, spec.blockSize, spec.window)

theorem underscore_not_mem_className (spec : LayerSpec) : '_' ∉ spec.className.toList := by
  cases spec <;> simp only [className] <;> decide

def typeIdParts (spec : LayerSpec) (page : ℕ) : List (List Char) :=
  Nat.toDigits 10 spec.blockSize :: Nat.toDigits 10 page ::
    (spec.window.map fun window => 's' :: 'w' :: Nat.toDigits 10 window).toList

theorem underscore_not_mem_typeIdParts (spec : LayerSpec) (page : ℕ) :
    ∀ part ∈ spec.typeIdParts page, '_' ∉ part := by
  have hdigits : ∀ n, '_' ∉ Nat.toDigits 10 n := not_mem_toDigits (by decide)
  intro part hpart
  simp only [typeIdParts, List.mem_cons, Option.mem_toList,
    Option.map_eq_some_iff] at hpart
  rcases hpart with rfl | rfl | ⟨window, -, rfl⟩
  · exact hdigits _
  · exact hdigits _
  · simp [hdigits window]

theorem typeId_eq_ok {spec : LayerSpec} {id : String} (h : spec.typeId = .ok id) :
    ∃ page, spec.pageSizeBytes = .ok page ∧
      id.toList = separated '_' spec.className.toList (spec.typeIdParts page) := by
  obtain ⟨page, hpage, h⟩ := except_bind_iff.mp h
  obtain rfl := Except.ok.inj h
  refine ⟨page, hpage, ?_⟩
  have hstring : ∀ text : String, toString text = text := fun _ => rfl
  unfold windowSuffix typeIdParts
  cases spec.window with
  | none => simp [separated, hstring]
  | some window => simp [separated, hstring]

theorem kind_eq_of_typeId {spec spec' : LayerSpec} {id : String} (h : spec.typeId = .ok id)
    (h' : spec'.typeId = .ok id) : spec.kind = spec'.kind := by
  obtain ⟨page, -, hid⟩ := typeId_eq_ok h
  obtain ⟨page', -, hid'⟩ := typeId_eq_ok h'
  rw [hid] at hid'
  obtain ⟨hclass, hparts⟩ := (separated_inj_of_not_mem (underscore_not_mem_className spec)
    (underscore_not_mem_className spec') (underscore_not_mem_typeIdParts spec page)
    (underscore_not_mem_typeIdParts spec' page')).mp hid'
  obtain ⟨hblock, hrest⟩ := List.cons.inj hparts
  obtain ⟨-, hwindow⟩ := List.cons.inj hrest
  have hdigits : Function.Injective fun window => 's' :: 'w' :: Nat.toDigits 10 window := by
    intro window window' heq
    exact toDigits_injective (List.cons.inj (List.cons.inj heq).2).2
  unfold kind
  have hwindows := congrArg List.head? hwindow
  rw [Option.head?_toList, Option.head?_toList] at hwindows
  rw [String.toList_inj.mp hclass, toDigits_injective hblock,
    Option.map_injective hdigits hwindows]

/-! ### One page size -/

theorem padTo_eq_ok {spec spec' : LayerSpec} {maxPage page : ℕ} {name : String}
    (hpage : spec.pageSizeBytes = .ok page) (hle : page ≤ maxPage)
    (h : spec.padTo maxPage name = .ok spec') :
    spec'.kind = spec.kind ∧ spec'.pageSizeBytes = .ok maxPage := by
  unfold padTo at h
  rw [hpage] at h
  change (if page = maxPage then _ else _) = _ at h
  split at h
  · rename_i heq
    obtain rfl := Except.ok.inj h
    exact ⟨rfl, heq ▸ hpage⟩
  · cases spec with
    | mamba blockSize stateBytes padded =>
        obtain rfl := Except.ok.inj h
        refine ⟨rfl, ?_⟩
        have hstate : stateBytes ≤ page := by
          cases padded with
          | none => exact (Except.ok.inj hpage).le
          | some padded =>
              obtain ⟨_, hassert, hpage⟩ := except_bind_iff.mp hpage
              obtain rfl := Except.ok.inj hpage
              exact of_decide_eq_true (pyAssert_eq_ok.mp hassert)
        have hfits : decide (stateBytes ≤ maxPage) = true :=
          decide_eq_true (hstate.trans hle)
        show (pyAssert _ _ >>= fun _ => pure maxPage) = _
        rw [hfits]
        rfl
    | fullAttention shape => cases h
    | mlaAttention shape => cases h
    | slidingWindow shape window hpos => cases h
    | slidingWindowMLA shape window hpos => cases h

end LayerSpec

theorem le_max?_getD {l : List ℕ} {n : ℕ} (h : n ∈ l) : n ≤ l.max?.getD 0 := by
  obtain ⟨greatest, hgreatest⟩ :=
    Option.ne_none_iff_exists'.mp (mt List.max?_eq_none_iff.mp (List.ne_nil_of_mem h))
  rw [hgreatest]
  exact (List.max?_eq_some_iff.mp hgreatest).2 n h

def Unified (page : ℕ) : List (String × LayerSpec) → List (String × LayerSpec) → Prop :=
  List.Forall₂ fun layer entry =>
    entry.1 = layer.1 ∧ entry.2.kind = layer.2.kind ∧ entry.2.pageSizeBytes = .ok page

theorem unified_foldlM {maxPage : ℕ} {layers : List (String × LayerSpec)}
    (hpages : ∀ layer ∈ layers, ∃ page, layer.2.pageSizeBytes = .ok page ∧ page ≤ maxPage)
    (hnodup : (layers.map Prod.fst).Nodup) {done unified : LayerSpecs}
    (hfresh : ∀ name ∈ layers.map Prod.fst, name ∉ done.keys)
    (h : layers.foldlM (fun unified layer => do
      let spec ← layer.2.padTo maxPage layer.1
      pure (unified.store layer.1 spec)) done = .ok unified) :
    ∃ padded, Unified maxPage layers padded ∧ unified.items = done.items ++ padded := by
  induction layers generalizing done with
  | nil =>
      obtain rfl := Except.ok.inj h
      exact ⟨[], .nil, (List.append_nil _).symm⟩
  | cons layer layers ih =>
      rw [List.foldlM_cons] at h
      obtain ⟨next, hnext, h⟩ := except_bind_iff.mp h
      obtain ⟨spec, hspec, hnext⟩ := except_bind_iff.mp hnext
      obtain rfl := Except.ok.inj hnext
      obtain ⟨page, hpage, hle⟩ := hpages layer List.mem_cons_self
      rw [List.map_cons, List.nodup_cons] at hnodup
      have hnew := hfresh layer.1 List.mem_cons_self
      have hlater : ∀ name ∈ layers.map Prod.fst, name ∉ (done.store layer.1 spec).keys := by
        intro name hname hmem
        rcases (Dict.mem_keys_store ..).mp hmem with rfl | hmem
        · exact hnodup.1 hname
        · exact hfresh name (List.mem_cons_of_mem _ hname) hmem
      obtain ⟨padded, hpadded, hitems⟩ := ih
        (fun layer hlayer => hpages layer (List.mem_cons_of_mem _ hlayer)) hnodup.2 hlater h
      refine ⟨(layer.1, spec) :: padded,
        .cons ⟨rfl, LayerSpec.padTo_eq_ok hpage hle hspec⟩ hpadded, ?_⟩
      rw [hitems, Dict.items_store_of_not_mem hnew, List.append_assoc]
      rfl

theorem unified_of_unifyPageSizes {specs unified : LayerSpecs}
    (h : unifyPageSizes specs = .ok unified) :
    ∃ page, Unified page specs.items unified.items := by
  unfold unifyPageSizes at h
  split at h
  · rename_i hempty
    obtain rfl := Except.ok.inj h
    rw [hempty]
    exact ⟨0, .nil⟩
  · obtain ⟨pages, hpages, h⟩ := except_bind_iff.mp h
    have hsizes := mapM_ok hpages
    dsimp only at h
    split at h
    · -- One size already.
      rename_i hall
      obtain rfl := Except.ok.inj h
      refine ⟨pages.max?.getD 0, List.forall₂_same.mpr fun layer hlayer => ⟨rfl, rfl, ?_⟩⟩
      obtain ⟨page, hmem, hpage⟩ := exists_of_mem_left hsizes hlayer
      rw [hpage, of_decide_eq_true (List.all_eq_true.mp hall page hmem)]
    · have hbound : ∀ layer ∈ specs.items, ∃ page, layer.2.pageSizeBytes = .ok page ∧
          page ≤ pages.max?.getD 0 := by
        intro layer hlayer
        obtain ⟨page, hmem, hpage⟩ := exists_of_mem_left hsizes hlayer
        exact ⟨page, hpage, le_max?_getD hmem⟩
      obtain ⟨padded, hpadded, hitems⟩ := unified_foldlM hbound specs.keys_nodup
        (fun _ _ => List.not_mem_nil) h
      rw [hitems]
      exact ⟨_, hpadded⟩

/-! ### The buckets -/

/-- The layers seen, each in the bucket of its type. -/
structure Bucketed (seen : List (String × LayerSpec)) (buckets : Dict String (List String)) :
    Prop where
  perm : (buckets.items.flatMap Prod.snd).Perm (seen.map Prod.fst)
  nonempty : ∀ id names, buckets.find id = some names → names ≠ []
  typed : ∀ id names, buckets.find id = some names →
    ∀ name ∈ names, ∃ spec, (name, spec) ∈ seen ∧ spec.typeId = .ok id

theorem bucketed_empty : Bucketed [] Dict.empty := by
  refine ⟨.nil, ?_, ?_⟩
  · intro id names h
    cases h
  · intro id names h
    cases h

theorem Bucketed.store {seen : List (String × LayerSpec)} {buckets : Dict String (List String)}
    (h : Bucketed seen buckets) {layer : String × LayerSpec} {id : String}
    (hid : layer.2.typeId = .ok id) :
    Bucketed (seen ++ [layer])
      (buckets.store id (buckets.findD id [] ++ [layer.1])) where
  perm := by
    rw [List.map_append]
    exact (Dict.perm_flatMap_store buckets id [layer.1]).trans (h.perm.append_right _)
  nonempty := by
    intro id' names hfind
    rw [Dict.find_store] at hfind
    split at hfind
    · obtain rfl := Option.some.inj hfind
      exact List.append_ne_nil_of_right_ne_nil _ (List.cons_ne_nil _ _)
    · exact h.nonempty id' names hfind
  typed := by
    intro id' names hfind name hname
    rw [Dict.find_store] at hfind
    split at hfind
    · rename_i heq
      subst heq
      obtain rfl := Option.some.inj hfind
      rcases List.mem_append.mp hname with hold | hnew
      · unfold Dict.findD at hold
        cases hbucket : buckets.find id' with
        | none =>
            rw [hbucket] at hold
            cases hold
        | some names =>
            rw [hbucket] at hold
            obtain ⟨spec, hspec, htype⟩ := h.typed _ names hbucket name hold
            exact ⟨spec, List.mem_append_left _ hspec, htype⟩
      · obtain rfl := List.mem_singleton.mp hnew
        exact ⟨layer.2, List.mem_append_right _ List.mem_cons_self, hid⟩
    · obtain ⟨spec, hspec, htype⟩ := h.typed id' names hfind name hname
      exact ⟨spec, List.mem_append_left _ hspec, htype⟩

theorem bucketed_foldlM {layers seen : List (String × LayerSpec)}
    {done buckets : Dict String (List String)} (hdone : Bucketed seen done)
    (h : layers.foldlM (fun buckets layer => do
      let typeId ← layer.2.typeId
      pure (buckets.store typeId (buckets.findD typeId [] ++ [layer.1]))) done = .ok buckets) :
    Bucketed (seen ++ layers) buckets := by
  induction layers generalizing seen done with
  | nil =>
      obtain rfl := Except.ok.inj h
      rwa [List.append_nil]
  | cons layer layers ih =>
      rw [List.foldlM_cons] at h
      obtain ⟨next, hnext, h⟩ := except_bind_iff.mp h
      obtain ⟨id, hid, hnext⟩ := except_bind_iff.mp hnext
      obtain rfl := Except.ok.inj hnext
      have hrest := ih (hdone.store hid) h
      rwa [List.append_assoc] at hrest

theorem bucketed_of_bucketLayers {specs : LayerSpecs} {buckets : Dict String (List String)}
    (h : bucketLayers specs = .ok buckets) : Bucketed specs.items buckets :=
  @bucketed_foldlM specs.items [] Dict.empty buckets bucketed_empty h

/-! ### The dealing out -/

theorem chosenGroupSize_singleton (size : ℕ) : chosenGroupSize [size] = size := by
  simp [chosenGroupSize]

theorem chosenGroupSize_pos {sizes : List ℕ} (hne : sizes ≠ []) (h : ∀ size ∈ sizes, 0 < size) :
    0 < chosenGroupSize sizes := by
  unfold chosenGroupSize
  obtain ⟨least, hleast⟩ := Option.ne_none_iff_exists'.mp (mt List.min?_eq_none_iff.mp hne)
  obtain ⟨greatest, hgreatest⟩ := Option.ne_none_iff_exists'.mp (mt List.max?_eq_none_iff.mp hne)
  rw [hleast, hgreatest]
  have hpos := h least (List.min?_mem hleast)
  have hpos' := h greatest (List.max?_mem hgreatest)
  show 0 < if 2 * greatest < 3 * least then greatest else least
  split <;> assumption

theorem stripeLayers_spec {groupSize : ℕ} {layers : List String} (hsize : 0 < groupSize)
    (hne : layers ≠ []) :
    (stripeLayers groupSize layers).flatten.Perm layers ∧
      ∀ names ∈ stripeLayers groupSize layers, names ≠ [] ∧ names.length ≤ groupSize := by
  have hlayers := List.length_pos_iff.mpr hne
  have hle : ceilDiv layers.length groupSize ≤ layers.length :=
    (ceilDiv_le_iff hsize).mpr (Nat.le_mul_of_pos_right _ hsize)
  have hcover : layers.length ≤ ceilDiv layers.length groupSize * groupSize :=
    (ceilDiv_le_iff hsize).mp le_rfl
  have hpos : 0 < ceilDiv layers.length groupSize := by
    apply Nat.pos_of_ne_zero
    intro hzero
    rw [hzero] at hcover
    omega
  constructor
  · unfold stripeLayers
    rw [← List.flatMap_def]
    exact slice_perm hpos
  · intro names hnames
    obtain ⟨index, hindex, rfl⟩ := List.mem_map.mp hnames
    have hlt := List.mem_range.mp hindex
    exact ⟨slice_ne_nil hlt hle, length_slice_le hlt hcover⟩

/-! ### The groups -/

/-- The layers shared out among groups of one kind each, none above the size, whose pages
are the same. -/
structure WellGrouped (specs : LayerSpecs) (groupSize : ℕ) (groups : List KVCacheGroup) :
    Prop where
  layers : (groups.flatMap fun group => group.layerNames).Perm specs.keys
  nonempty : ∀ group ∈ groups, group.layerNames ≠ []
  kind : ∀ group ∈ groups, ∀ name ∈ group.layerNames,
    ∃ spec, specs.find name = some spec ∧ spec.kind = group.kvCacheSpec.kind
  size : ∀ group ∈ groups, group.layerNames.length ≤ groupSize
  page : ∃ page, ∀ group ∈ groups, group.kvCacheSpec.pageSizeBytes = .ok page

section Groups

variable {specs unified : LayerSpecs} {page : ℕ}

theorem keys_of_unified {layers padded : List (String × LayerSpec)}
    (h : Unified page layers padded) : padded.map Prod.fst = layers.map Prod.fst := by
  induction h with
  | nil => rfl
  | cons hentry _ ih => rw [List.map_cons, List.map_cons, hentry.1, ih]

theorem find_of_unified (h : Unified page specs.items unified.items) {name : String}
    {spec : LayerSpec} (hspec : (name, spec) ∈ unified.items) :
    (∃ given, specs.find name = some given ∧ given.kind = spec.kind) ∧
      spec.pageSizeBytes = .ok page := by
  obtain ⟨⟨name', given⟩, hmem, hname, hkind, hpage⟩ := exists_of_mem_right h hspec
  obtain rfl : name = name' := hname
  exact ⟨⟨given, (Dict.find_eq_some_iff ..).mpr hmem, hkind.symm⟩, hpage⟩

theorem layerNames_of_mapM {dealt : List (List String)} {groups : List KVCacheGroup}
    (h : List.Forall₂ (fun names group => groupOf unified names = .ok group) dealt groups) :
    groups.map (fun group => group.layerNames) = dealt := by
  induction h with
  | nil => rfl
  | @cons names group _ _ hgroup _ ih =>
      rw [List.map_cons, ih]
      congr 1
      unfold groupOf at hgroup
      split at hgroup
      · cases hgroup
      · split at hgroup
        · cases hgroup
        · obtain rfl := Except.ok.inj hgroup
          rfl

theorem groupOf_eq_ok (hunified : Unified page specs.items unified.items)
    {buckets : Dict String (List String)} (hbuckets : Bucketed unified.items buckets)
    {bucket : String × List String} (hbucket : bucket ∈ buckets.items) {names : List String}
    (hnames : names ⊆ bucket.2) {group : KVCacheGroup} (h : groupOf unified names = .ok group) :
    group.layerNames = names ∧ group.kvCacheSpec.pageSizeBytes = .ok page ∧
      ∀ name ∈ names, ∃ spec, specs.find name = some spec ∧
        spec.kind = group.kvCacheSpec.kind := by
  have htyped := hbuckets.typed bucket.1 bucket.2 ((Dict.find_eq_some_iff ..).mpr hbucket)
  cases names with
  | nil => cases h
  | cons first rest =>
      unfold groupOf at h
      dsimp only at h
      obtain ⟨spec, hspec, htype⟩ := htyped first (hnames List.mem_cons_self)
      rw [show unified.find first = some spec from (Dict.find_eq_some_iff ..).mpr hspec] at h
      obtain rfl := Except.ok.inj h
      refine ⟨rfl, (find_of_unified hunified hspec).2, ?_⟩
      intro name hname
      obtain ⟨spec', hspec', htype'⟩ := htyped name (hnames hname)
      obtain ⟨⟨given, hgiven, hkind⟩, -⟩ := find_of_unified hunified hspec'
      exact ⟨given, hgiven, hkind.trans (LayerSpec.kind_eq_of_typeId htype' htype)⟩

theorem wellGrouped_of_dealt (deal : List String → List (List String))
    (hunified : Unified page specs.items unified.items) {buckets : Dict String (List String)}
    (hbuckets : Bucketed unified.items buckets) {groupSize : ℕ}
    (hdeal : ∀ bucket ∈ buckets.items, (deal bucket.2).flatten.Perm bucket.2 ∧
      ∀ names ∈ deal bucket.2, names ≠ [] ∧ names.length ≤ groupSize)
    {groups : List KVCacheGroup}
    (h : (buckets.items.flatMap fun bucket => deal bucket.2).mapM (groupOf unified) =
      .ok groups) :
    WellGrouped specs groupSize groups := by
  have hgroups := mapM_ok h
  have hspec : ∀ group ∈ groups, ∃ bucket ∈ buckets.items,
      group.layerNames ∈ deal bucket.2 ∧ group.kvCacheSpec.pageSizeBytes = .ok page ∧
        ∀ name ∈ group.layerNames, ∃ spec, specs.find name = some spec ∧
          spec.kind = group.kvCacheSpec.kind := by
    intro group hgroup
    obtain ⟨names, hnames, hgroupOf⟩ := exists_of_mem_right hgroups hgroup
    obtain ⟨bucket, hbucket, hnames⟩ := List.mem_flatMap.mp hnames
    have hsub : names ⊆ bucket.2 := fun name hname =>
      (hdeal bucket hbucket).1.subset (List.mem_flatten_of_mem hnames hname)
    obtain ⟨rfl, hpage, hkind⟩ := groupOf_eq_ok hunified hbuckets hbucket hsub hgroupOf
    exact ⟨bucket, hbucket, hnames, hpage, hkind⟩
  refine ⟨?_, ?_, ?_, ?_, page, ?_⟩
  · have hdealt : groups.flatMap (fun group => group.layerNames) =
        buckets.items.flatMap fun bucket => (deal bucket.2).flatten := by
      rw [List.flatMap_def, layerNames_of_mapM hgroups, List.flatten_eq_flatMap,
        List.flatMap_assoc]
      simp only [List.flatten_eq_flatMap]
    have hnames : unified.items.map Prod.fst = specs.keys := keys_of_unified hunified
    rw [hdealt, ← hnames]
    exact (List.Perm.flatMap_left _ fun bucket hbucket => (hdeal bucket hbucket).1).trans
      hbuckets.perm
  · intro group hgroup
    obtain ⟨bucket, hbucket, hnames, -, -⟩ := hspec group hgroup
    exact ((hdeal bucket hbucket).2 _ hnames).1
  · intro group hgroup
    obtain ⟨-, -, -, -, hkind⟩ := hspec group hgroup
    exact hkind
  · intro group hgroup
    obtain ⟨bucket, hbucket, hnames, -, -⟩ := hspec group hgroup
    exact ((hdeal bucket hbucket).2 _ hnames).2
  · intro group hgroup
    obtain ⟨-, -, -, hpage, -⟩ := hspec group hgroup
    exact hpage

end Groups

/-- The groups of a model that is accepted. -/
theorem wellGrouped_of_getKVCacheGroups {specs : LayerSpecs} {groups : List KVCacheGroup}
    (h : getKVCacheGroups specs = .ok groups) :
    ∃ unified buckets, unifyPageSizes specs = .ok unified ∧ bucketLayers unified = .ok buckets ∧
      WellGrouped specs (chosenGroupSize (buckets.items.map fun bucket => bucket.2.length))
        groups := by
  unfold getKVCacheGroups at h
  split at h
  · cases h
  · obtain ⟨unified, hunify, h⟩ := except_bind_iff.mp h
    obtain ⟨buckets, hbucket, h⟩ := except_bind_iff.mp h
    refine ⟨unified, buckets, hunify, hbucket, ?_⟩
    obtain ⟨page, hunified⟩ := unified_of_unifyPageSizes hunify
    have hbuckets := bucketed_of_bucketLayers hbucket
    have hnonempty : ∀ bucket ∈ buckets.items, bucket.2 ≠ [] := fun bucket hmem =>
      hbuckets.nonempty bucket.1 bucket.2 ((Dict.find_eq_some_iff ..).mpr hmem)
    split at h
    · -- One type, and one group.
      rename_i bucket hitems
      obtain ⟨group, hgroup, h⟩ := except_bind_iff.mp h
      obtain rfl := Except.ok.inj h
      have hdealt : (buckets.items.flatMap fun bucket => [bucket.2]).mapM (groupOf unified) =
          .ok [group] := by
        rw [hitems, List.flatMap_singleton, List.mapM_cons, hgroup]
        rfl
      apply wellGrouped_of_dealt (fun layers => [layers]) hunified hbuckets _ hdealt
      rw [hitems, List.map_singleton, chosenGroupSize_singleton]
      intro bucket' hbucket'
      obtain rfl := List.mem_singleton.mp hbucket'
      refine ⟨by simp, ?_⟩
      intro names hnames
      obtain rfl := List.mem_singleton.mp hnames
      exact ⟨hnonempty _ (hitems ▸ List.mem_cons_self), le_rfl⟩
    · -- Several types, or none.
      obtain ⟨made, hmade, h⟩ := except_bind_iff.mp h
      obtain ⟨-, -, h⟩ := except_bind_iff.mp h
      obtain rfl := Except.ok.inj h
      apply wellGrouped_of_dealt _ hunified hbuckets _ hmade
      intro bucket hmem
      apply stripeLayers_spec _ (hnonempty bucket hmem)
      apply chosenGroupSize_pos
      · simp [List.ne_nil_of_mem hmem]
      · intro size hsize
        obtain ⟨bucket', hmem', rfl⟩ := List.mem_map.mp hsize
        exact List.length_pos_iff.mpr (hnonempty bucket' hmem')

end Pvllm
