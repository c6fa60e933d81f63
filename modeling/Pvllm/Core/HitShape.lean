import Pvllm.Core.Allocation

/-!
The shape of a hit.

Whatever window a group has, a lookup for a hashed request answers, with a list
of one length for each group. Where a group would no longer read a block once
the request resumes after the hit, the list has the null block, and it ends with
a block that is not.
-/

namespace Pvllm

variable {H : Type} [DecidableEq H]

/-- The head a group sheds is null already, and the last entry is a block. -/
structure Shaped (pool : BlockPool H) (spec : KVCacheSpec) (blocks : List BlockId) : Prop where
  skipped : ∀ i b, blocks[i]? = some b →
    i < spec.getNumSkippedTokens (blocks.length * spec.blockSize) / spec.blockSize →
      (pool.blocks b).isNull = true
  last : ∀ b, blocks.getLast? = some b → (pool.blocks b).isNull = false

section Search

variable {pool : BlockPool H} {groupId : ℕ} {blockHashes : List H} {spec : KVCacheSpec}

omit [DecidableEq H] in
theorem Shaped.nil : Shaped pool spec [] :=
  ⟨fun i b hb => by simp at hb, fun b hb => by simp at hb⟩

omit [DecidableEq H] in
theorem Shaped.of_full (hkind : spec.kind = .fullAttention) {blocks : List BlockId}
    (hall : ∀ b ∈ blocks, (pool.blocks b).isNull = false) : Shaped pool spec blocks where
  skipped i b _ hi := by simp [KVCacheSpec.getNumSkippedTokens, hkind] at hi
  last b hb := hall b (List.mem_of_getLast? hb)

/-! ### Sliding windows -/

/-- What the windowed search has entered when it stands at `index`: nothing
below, and from there a run shorter than it needs. -/
structure WindowRun (pool : BlockPool H) (needed max : ℕ) (computed : List BlockId)
    (contiguous index : ℕ) : Prop where
  length_eq : computed.length = max
  le_max : index + contiguous ≤ max
  short : contiguous < Nat.max needed 1
  below : ∀ i b, computed[i]? = some b → i < index → (pool.blocks b).isNull = true
  run : ∀ i b, computed[i]? = some b → index ≤ i → i < index + contiguous →
    (pool.blocks b).isNull = false

/-- A list that ends with a run of blocks, and is null below it. -/
structure EndsWith (pool : BlockPool H) (n : ℕ) (blocks : List BlockId) : Prop where
  below : ∀ i b, blocks[i]? = some b → i + n < blocks.length → (pool.blocks b).isNull = true
  last : ∀ b, blocks.getLast? = some b → (pool.blocks b).isNull = false

omit [DecidableEq H] in
theorem endsWith_take {n max : ℕ} {computed : List BlockId} {contiguous index : ℕ}
    (hlen : computed.length = max) (hmax : index + contiguous ≤ max) (hn : contiguous ≤ n)
    (hbelow : ∀ i b, computed[i]? = some b → i < index → (pool.blocks b).isNull = true)
    (hrun : ∀ i b, computed[i]? = some b → index ≤ i → i < index + contiguous →
      (pool.blocks b).isNull = false) (hpos : 0 < contiguous ∨ index = 0) :
    EndsWith pool n (computed.take (index + contiguous)) := by
  have htake : (computed.take (index + contiguous)).length = index + contiguous := by
    rw [List.length_take]
    omega
  constructor
  · intro i b hb hi
    rw [htake] at hi
    exact hbelow i b (getElem?_of_take hb).2 (by omega)
  · intro b hb
    rw [List.getLast?_eq_getElem?, htake] at hb
    obtain ⟨hi, hb⟩ := getElem?_of_take hb
    exact hrun _ b hb (by omega) (by omega)

variable (groupId) in
theorem slidingWindowScan_endsWith (hnull : NullFree pool) {needed max : ℕ}
    (hmax : max ≤ blockHashes.length) {computed : List BlockId} {contiguous index : ℕ}
    (h : WindowRun pool needed max computed contiguous index) :
    ∃ blocks, slidingWindowScan pool groupId blockHashes needed computed contiguous index =
        .ok blocks ∧ EndsWith pool (Nat.max needed 1) blocks := by
  induction index generalizing computed contiguous with
  | zero =>
      have hends := endsWith_take h.length_eq h.le_max h.short.le h.below h.run (Or.inr rfl)
      rw [Nat.zero_add] at hends
      exact ⟨_, rfl, hends⟩
  | succ index ih =>
      have hle := h.le_max
      have hhash : blockHashes[index]? = some blockHashes[index] :=
        List.getElem?_eq_getElem (by omega)
      cases hcached : pool.getCachedBlock blockHashes[index] groupId with
      | none =>
          have hstep : slidingWindowScan pool groupId blockHashes needed computed contiguous
              (index + 1) =
              slidingWindowScan pool groupId blockHashes needed computed 0 index := by
            simp [slidingWindowScan, hhash, hcached]
          rw [hstep]
          refine ih ⟨h.length_eq, by omega, ?_, fun i b hb hi => h.below i b hb (by omega),
            fun i b _ hi hi' => by omega⟩
          exact Nat.lt_of_lt_of_le Nat.one_pos (Nat.le_max_right needed 1)
      | some cached =>
          have hlen : (computed.set index cached).length = max := by
            rw [List.length_set, h.length_eq]
          have hbelow : ∀ i b, (computed.set index cached)[i]? = some b → i < index →
              (pool.blocks b).isNull = true := by
            intro i b hb hi
            rw [List.getElem?_set_ne (by omega)] at hb
            exact h.below i b hb (by omega)
          have hrun : ∀ i b, (computed.set index cached)[i]? = some b → index ≤ i →
              i < index + (contiguous + 1) → (pool.blocks b).isNull = false := by
            intro i b hb hi hi'
            rcases Nat.eq_or_lt_of_le hi with rfl | hgt
            · rw [List.getElem?_set_self (by rw [h.length_eq]; omega), Option.some.injEq] at hb
              exact hb ▸ hnull.cached_not_null _ _ _ hcached
            · rw [List.getElem?_set_ne (by omega)] at hb
              exact h.run i b hb hgt (by omega)
          by_cases henough : needed ≤ contiguous + 1
          · refine ⟨_, ?_, endsWith_take hlen (by omega) h.short hbelow hrun (Or.inl ?_)⟩
            · simp [slidingWindowScan, hhash, hcached, henough]
            · exact Nat.succ_pos contiguous
          · have hstep : slidingWindowScan pool groupId blockHashes needed computed contiguous
                (index + 1) = slidingWindowScan pool groupId blockHashes needed
                  (computed.set index cached) (contiguous + 1) index := by
              simp [slidingWindowScan, hhash, hcached, henough]
            rw [hstep]
            refine ih ⟨hlen, by omega, ?_, hbelow, hrun⟩
            exact (Nat.not_le.mp henough).trans_le (Nat.le_max_left needed 1)

theorem window_skipped_le {window n : ℕ} (hkind : spec.kind = .slidingWindow window) :
    spec.getNumSkippedTokens (n * spec.blockSize) / spec.blockSize ≤
      n - Nat.max (ceilDiv (window - 1) spec.blockSize) 1 := by
  have hpos := spec.blockSize_pos
  have hwindow := spec.window_pos window hkind
  have hskipped : spec.getNumSkippedTokens (n * spec.blockSize) = n * spec.blockSize - window := by
    simp [KVCacheSpec.getNumSkippedTokens, hkind]
  rw [hskipped]
  set q := (n * spec.blockSize - window) / spec.blockSize with hq
  have hmul : q * spec.blockSize ≤ n * spec.blockSize - window := Nat.div_mul_le_self ..
  rcases Nat.eq_zero_or_pos q with hzero | hqpos
  · omega
  have hqmul : spec.blockSize ≤ q * spec.blockSize := Nat.le_mul_of_pos_left _ hqpos
  have hreach : window ≤ (n - q) * spec.blockSize := by
    rw [Nat.sub_mul]
    omega
  have hone : 1 ≤ n - q := by
    by_contra hnone
    have hz : n - q = 0 := by omega
    rw [hz, Nat.zero_mul] at hreach
    omega
  have hneeded : ceilDiv (window - 1) spec.blockSize ≤ n - q :=
    (ceilDiv_le_iff hpos).mpr (by omega)
  have hmax : Nat.max (ceilDiv (window - 1) spec.blockSize) 1 ≤ n - q :=
    Nat.max_le.mpr ⟨hneeded, hone⟩
  omega

/-! ### Recurrent states -/

theorem mambaScan_last (hnull : NullFree pool) {nullBlock : BlockId} {index : ℕ}
    {blocks : List BlockId}
    (h : mambaScan pool groupId nullBlock blockHashes index = .ok blocks) :
    ∀ b, blocks.getLast? = some b → (pool.blocks b).isNull = false := by
  induction index with
  | zero =>
      obtain rfl : [] = blocks := by simpa [mambaScan] using h
      simp
  | succ index ih =>
      cases hhash : blockHashes[index]? with
      | none => simp [mambaScan, hhash] at h
      | some blockHash =>
          cases hcached : pool.getCachedBlock blockHash groupId with
          | none =>
              simp only [mambaScan, hhash, hcached] at h
              exact ih h
          | some cached =>
              obtain rfl : List.replicate index nullBlock ++ [cached] = blocks := by
                simpa [mambaScan, hhash, hcached] using h
              intro b hb
              rw [List.getLast?_concat, Option.some.injEq] at hb
              exact hb ▸ hnull.cached_not_null _ _ _ hcached

/-! ### Any group -/

variable (groupId) in
theorem findLongestCacheHit_shaped (hnull : NullFree pool)
    (hreserved : spec.isSkipping = true → pool.nullBlock.isSome) {maxLength : ℕ}
    (hmax : maxLength / spec.blockSize ≤ blockHashes.length) :
    ∃ blocks, findLongestCacheHit pool groupId spec blockHashes maxLength =
        .ok (blocks, blocks.length * spec.blockSize) ∧ Shaped pool spec blocks ∧
      (spec.kind = .fullAttention → ∀ b ∈ blocks, (pool.blocks b).isNull = false) := by
  set max := maxLength / spec.blockSize with hmaxdef
  cases hkind : spec.kind with
  | fullAttention =>
      obtain ⟨hentries, -, -⟩ := fullAttentionScan_spec pool groupId (blockHashes.take max)
      have hall : ∀ b ∈ fullAttentionScan pool groupId (blockHashes.take max),
          (pool.blocks b).isNull = false := by
        intro b hb
        obtain ⟨i, hi⟩ := List.getElem?_of_mem hb
        exact cachedAt_not_null hnull (hentries i b hi)
      exact ⟨_, by simp [findLongestCacheHit, hkind, ← hmaxdef], .of_full hkind hall, fun _ => hall⟩
  | slidingWindow window =>
      obtain ⟨nullBlock, hnb⟩ := Option.isSome_iff_exists.mp
        (hreserved (by simp [KVCacheSpec.isSkipping, KVCacheSpec.isFullAttention, hkind]))
      have hstart : WindowRun pool (ceilDiv (window - 1) spec.blockSize) max
          (List.replicate max nullBlock) 0 max := by
        refine ⟨by simp, le_rfl, Nat.lt_of_lt_of_le Nat.one_pos (Nat.le_max_right ..), ?_,
          fun i b _ hi hi' => by omega⟩
        intro i b hb hi
        rw [List.getElem?_replicate, if_pos hi, Option.some.injEq] at hb
        rw [← hb]
        exact hnull.nullBlock_isNull _ hnb
      obtain ⟨blocks, hok, hends⟩ := slidingWindowScan_endsWith groupId hnull hmax hstart
      refine ⟨blocks, by simp [findLongestCacheHit, hkind, hnb, ← hmaxdef, hok], ⟨?_, hends.last⟩,
        fun h => by cases h⟩
      intro i b hb hi
      have hle := window_skipped_le (n := blocks.length) hkind
      exact hends.below i b hb (by omega)
  | mamba =>
      obtain ⟨nullBlock, hnb⟩ := Option.isSome_iff_exists.mp
        (hreserved (by simp [KVCacheSpec.isSkipping, KVCacheSpec.isFullAttention, hkind]))
      obtain ⟨blocks, hok⟩ : ∃ blocks,
          mambaScan pool groupId nullBlock blockHashes max = .ok blocks := by
        obtain ⟨blocks, hok, -⟩ := mambaScan_spec hkind hnull nullBlock hmax
        exact ⟨blocks, hok⟩
      refine ⟨blocks, by simp [findLongestCacheHit, hkind, hnb, ← hmaxdef, hok],
        ⟨?_, mambaScan_last hnull hok⟩, fun h => by cases h⟩
      intro i b hb hi
      have hentries := (mambaScan_entries (hnull.nullBlock_isNull _ hnb) hok).2 i b hb
      by_contra hnn
      have hlast := (hentries (by simpa using hnn)).1
      have hskipped : spec.getNumSkippedTokens (blocks.length * spec.blockSize) / spec.blockSize <
          blocks.length := by
        rw [Nat.div_lt_iff_lt_mul spec.blockSize_pos]
        have hmul : 0 < blocks.length * spec.blockSize :=
          Nat.mul_pos (by omega) spec.blockSize_pos
        simp only [KVCacheSpec.getNumSkippedTokens, hkind]
        omega
      omega

end Search

/-! ### All groups -/

namespace KVCacheCoordinator

variable {pool : BlockPool H} {blockHashes : List H}

/-- What a record of the loop holds, once its group was looked up. -/
structure GroupHit.Filled (pool : BlockPool H) (hit : GroupHit) (blocks : List BlockId) : Prop where
  blocks_eq : hit.blocks = some blocks
  length_eq : hit.length = blocks.length * hit.kvCacheSpec.blockSize
  shaped : Shaped pool hit.kvCacheSpec blocks
  full : hit.kvCacheSpec.kind = .fullAttention → ∀ b ∈ blocks, (pool.blocks b).isNull = false

/-- A record answers for `c` tokens, once a full-attention list is cut. -/
def GroupHit.Covers (pool : BlockPool H) (c : ℕ) (hit : GroupHit) : Prop :=
  hit.kvCacheSpec.blockSize ∣ c ∧ ∃ blocks, hit.Filled pool blocks ∧
    if hit.kvCacheSpec.isFullAttention then c ≤ hit.length else hit.length = c

/-- What the search relies on for each group. -/
structure Lookable (pool : BlockPool H) (blockHashes : List H) (blockSize c : ℕ)
    (spec : KVCacheSpec) : Prop where
  blockSize_eq : spec.blockSize = blockSize
  reserved : spec.isSkipping = true → pool.nullBlock.isSome
  hashes : c / blockSize ≤ blockHashes.length

/-- A round answers. Its candidate is no greater, and where it is the same every
record covers it. -/
theorem hitPass_covers (hnull : NullFree pool) {blockSize : ℕ} {groups : List GroupHit} {c : ℕ}
    (hs : ∀ hit ∈ groups, Lookable pool blockHashes blockSize c hit.kvCacheSpec)
    (hfilled : ∀ hit ∈ groups, hit.blocks.isSome →
      blockSize ∣ c ∧ ∃ blocks, hit.Filled pool blocks) :
    ∃ groups' c', hitPass pool blockHashes groups c = .ok (groups', c') ∧ c' ≤ c ∧
      groups'.map (·.kvCacheSpec) = groups.map (·.kvCacheSpec) ∧
      (groups ≠ [] → blockSize ∣ c') ∧
      (∀ hit ∈ groups', ∃ blocks, hit.Filled pool blocks) ∧
      (c' = c → ∀ hit ∈ groups', hit.Covers pool c) := by
  induction groups generalizing c with
  | nil => exact ⟨[], c, rfl, le_rfl, rfl, by simp, by simp, by simp⟩
  | cons hit rest ih =>
      obtain ⟨hhit, hrest⟩ := List.forall_mem_cons.mp hs
      obtain ⟨hfhit, hfrest⟩ := List.forall_mem_cons.mp hfilled
      have hbs := hhit.blockSize_eq
      -- the head of the round turns `c` into `c₁`, and its record into `hit'`
      obtain ⟨hit', c₁, hstep, hle, hdvd, hspec, ⟨blocks, hblocks⟩, hcovers⟩ : ∃ hit' c₁,
          (∀ rest' c', hitPass pool blockHashes rest c₁ = .ok (rest', c') →
            hitPass pool blockHashes (hit :: rest) c = .ok (hit' :: rest', c')) ∧
          c₁ ≤ c ∧ blockSize ∣ c₁ ∧ hit'.kvCacheSpec = hit.kvCacheSpec ∧
          (∃ blocks, hit'.Filled pool blocks) ∧ (c₁ = c → hit'.Covers pool c) := by
        by_cases hknown : hit.kvCacheSpec.isFullAttention ∧ hit.blocks.isSome
        · obtain ⟨hdvd, blocks, hblocks⟩ := hfhit hknown.2
          refine ⟨hit, min c hit.length, fun rest' c' hok => by simp [hitPass, hknown, hok],
            min_le_left _ _, ?_, rfl, ⟨blocks, hblocks⟩, fun heq => ?_⟩
          · rcases min_choice c hit.length with hmin | hmin
            · rwa [hmin]
            · rw [hmin, hblocks.length_eq, hbs]
              exact Nat.dvd_mul_left ..
          · refine ⟨hbs ▸ hdvd, blocks, hblocks, ?_⟩
            rw [if_pos hknown.1]
            exact min_eq_left_iff.mp heq
        · have hmax : c / hit.kvCacheSpec.blockSize ≤ blockHashes.length := hbs ▸ hhit.hashes
          obtain ⟨blocks, hok, hshaped, hfull⟩ :=
            findLongestCacheHit_shaped hit.groupId hnull hhit.reserved hmax
          have hlen := (findLongestCacheHit_entries hnull hok).2.1
          set found := blocks.length * hit.kvCacheSpec.blockSize with hfound
          have hfilled' : GroupHit.Filled pool { hit with blocks := some blocks, length := found }
              blocks := ⟨rfl, rfl, hshaped, hfull⟩
          refine ⟨{ hit with blocks := some blocks, length := found }, found,
            fun rest' c' hok' => by simp only [hitPass, hknown, if_false, hok, hok'],
            (Nat.mul_le_mul_right _ hlen).trans (Nat.div_mul_le_self c _), ?_, rfl,
            ⟨blocks, hfilled'⟩, fun heq => ⟨?_, blocks, hfilled', ?_⟩⟩
          · rw [hfound, hbs]
            exact Nat.dvd_mul_left ..
          · rw [← heq]
            exact Nat.dvd_mul_left ..
          · split
            · exact heq.ge
            · exact heq
      obtain ⟨groups', c', hok, hle', hspecs, hdvd', hall, hcovers'⟩ := ih (c := c₁)
        (fun hit hm => ⟨(hrest hit hm).1, (hrest hit hm).2,
          (Nat.div_le_div_right hle).trans (hrest hit hm).3⟩)
        (fun hit hm hsome => ⟨hdvd, (hfrest hit hm hsome).2⟩)
      refine ⟨hit' :: groups', c', hstep groups' c' hok, hle'.trans hle, ?_, fun _ => ?_, ?_,
        fun heq => ?_⟩
      · rw [List.map_cons, List.map_cons, hspec, hspecs]
      · cases rest with
        | nil =>
            simp only [hitPass, Except.ok.injEq, Prod.mk.injEq] at hok
            rw [← hok.2]
            exact hdvd
        | cons other rest => exact hdvd' (List.cons_ne_nil _ _)
      · exact List.forall_mem_cons.mpr ⟨⟨blocks, hblocks⟩, hall⟩
      · have hsame : c₁ = c := by omega
        subst hsame
        exact List.forall_mem_cons.mpr ⟨hcovers rfl, hcovers' heq⟩

theorem hitLoop_covers (hnull : NullFree pool) {blockSize fuel c : ℕ} {groups : List GroupHit}
    (hfuel : c < fuel) (hne : groups ≠ [])
    (hs : ∀ hit ∈ groups, Lookable pool blockHashes blockSize c hit.kvCacheSpec)
    (hfilled : ∀ hit ∈ groups, hit.blocks.isSome →
      blockSize ∣ c ∧ ∃ blocks, hit.Filled pool blocks) :
    ∃ groups' c', hitLoop pool blockHashes groups c fuel = .ok (groups', c') ∧ c' ≤ c ∧
      groups'.map (·.kvCacheSpec) = groups.map (·.kvCacheSpec) ∧ blockSize ∣ c' ∧
      ∀ hit ∈ groups', hit.Covers pool c' := by
  induction fuel generalizing groups c with
  | zero => omega
  | succ fuel ih =>
      obtain ⟨groups₁, c₁, hok, hle, hspecs, hdvd, hall, hcovers⟩ :=
        hitPass_covers hnull hs hfilled
      by_cases hdone : c ≤ c₁
      · obtain rfl : c₁ = c := le_antisymm hle hdone
        exact ⟨groups₁, c₁, by simp [hitLoop, hok], le_rfl, hspecs, hdvd hne, hcovers rfl⟩
      · have hne₁ : groups₁ ≠ [] := by
          intro hnil
          rw [hnil, List.map_nil, eq_comm, List.map_eq_nil_iff] at hspecs
          exact hne hspecs
        have hs₁ : ∀ hit ∈ groups₁, Lookable pool blockHashes blockSize c₁ hit.kvCacheSpec := by
          intro hit hm
          have hmem : hit.kvCacheSpec ∈ groups.map (·.kvCacheSpec) :=
            hspecs ▸ List.mem_map_of_mem (f := fun hit : GroupHit => hit.kvCacheSpec) hm
          obtain ⟨hit₀, hm₀, hspec⟩ := List.mem_map.mp hmem
          have hold := hs hit₀ hm₀
          rw [hspec] at hold
          exact ⟨hold.1, hold.2, (Nat.div_le_div_right hle).trans hold.3⟩
        obtain ⟨groups', c', hok', hle', hspecs', hdvd', hcovers'⟩ := ih (by omega) hne₁ hs₁
          fun hit hm _ => ⟨hdvd hne, hall hit hm⟩
        exact ⟨groups', c', by simp [hitLoop, hok, hdone, hok'], hle'.trans hle,
          hspecs'.trans hspecs, hdvd', hcovers'⟩

omit [DecidableEq H] in
theorem GroupHit.Covers.trimmed {c : ℕ} {hit : GroupHit} (h : hit.Covers pool c) :
    (hit.trimmed (ceilDiv c hit.kvCacheSpec.blockSize)).length = c / hit.kvCacheSpec.blockSize ∧
      Shaped pool hit.kvCacheSpec (hit.trimmed (ceilDiv c hit.kvCacheSpec.blockSize)) := by
  obtain ⟨⟨k, rfl⟩, blocks, hfilled, hcovers⟩ := h
  have hpos := hit.kvCacheSpec.blockSize_pos
  have hlen := hfilled.length_eq
  rw [Nat.mul_comm, ceilDiv_mul hpos, Nat.mul_div_cancel _ hpos]
  rw [GroupHit.trimmed, hfilled.blocks_eq, Option.getD_some]
  rw [hlen, Nat.mul_comm _ k] at hcovers
  split at hcovers
  · rename_i hfull
    rw [if_pos hfull]
    have hle := Nat.le_of_mul_le_mul_right hcovers hpos
    refine ⟨List.length_take_of_le hle, .of_full (of_decide_eq_true hfull) fun b hb => ?_⟩
    exact hfilled.full (of_decide_eq_true hfull) b (List.mem_of_mem_take hb)
  · rename_i hskip
    rw [if_neg hskip]
    exact ⟨Nat.eq_of_mul_eq_mul_right hpos hcovers, hfilled.shaped⟩

/-- The coordinator answers, with a list of one length for each group. -/
theorem findLongestCacheHit_shaped (hnull : NullFree pool) {blockSize maxLength : ℕ}
    {managers : List SingleTypeKVCacheManager} (hne : managers ≠ [])
    (hs : ∀ manager ∈ managers,
      Lookable pool blockHashes blockSize maxLength manager.kvCacheSpec) :
    ∃ perGroup l, findLongestCacheHit pool managers blockSize blockHashes maxLength =
        .ok (perGroup, l) ∧ l ≤ maxLength ∧ blockSize ∣ l ∧
      List.Forall₂ (fun manager blocks => blocks.length = l / blockSize ∧
        Shaped pool manager.kvCacheSpec blocks) managers perGroup := by
  set fresh := managers.map fun manager =>
    (⟨manager.kvCacheSpec, manager.kvCacheGroupId, none, 0⟩ : GroupHit) with hfresh
  have hfreshNe : fresh ≠ [] := by simpa [hfresh] using hne
  obtain ⟨groups, l, hok, hle, hspecs, hdvd, hcovers⟩ := hitLoop_covers hnull
    (Nat.lt_succ_self maxLength) hfreshNe (by simpa [hfresh] using hs)
    (by
      intro hit hm hsome
      obtain ⟨manager, -, rfl⟩ := List.mem_map.mp hm
      cases hsome)
  refine ⟨groups.map (·.trimmed (ceilDiv l blockSize)), l,
    by simp only [findLongestCacheHit, ← hfresh, hok], hle, hdvd, ?_⟩
  have hspecs' : groups.map (·.kvCacheSpec) = managers.map (·.kvCacheSpec) := by
    rw [hspecs, hfresh, List.map_map]
    rfl
  have hlen : groups.length = managers.length := by simpa using congrArg List.length hspecs'
  rw [List.forall₂_map_right_iff, List.forall₂_iff_get]
  refine ⟨hlen.symm, fun i hi hi' => ?_⟩
  have hspec : groups[i].kvCacheSpec = managers[i].kvCacheSpec := by
    have hat := congrArg (fun l => l[i]?) hspecs'
    simpa [hi, hi'] using hat
  have htrimmed := (hcovers groups[i] (List.getElem_mem hi')).trimmed
  rw [hspec, (hs managers[i] (List.getElem_mem hi)).blockSize_eq] at htrimmed
  exact htrimmed

end KVCacheCoordinator

namespace KVCacheManager

/-- A lookup answers for any hashed request: at least one token is left to
compute, and each group has a list for the tokens found. -/
theorem getComputedBlocks_shaped {m : KVCacheManager H} {free : List BlockId} (h : m.InOrder free)
    {request : Request H}
    (hhashes : m.enableCaching = true →
      request.numTokens / m.kvCacheConfig.blockSize ≤ request.blockHashes.length) :
    ∃ hits n m', m.getComputedBlocks request = .ok ((hits, n), m') ∧ n ≤ request.numTokens - 1 ∧
      m.kvCacheConfig.blockSize ∣ n ∧
      List.Forall₂ (fun manager blocks => blocks.length = n / m.kvCacheConfig.blockSize ∧
        Shaped m.blockPool manager.kvCacheSpec blocks) m.singleTypeManagers hits := by
  have hempty : List.Forall₂ (fun manager blocks =>
      blocks.length = 0 / m.kvCacheConfig.blockSize ∧
        Shaped m.blockPool manager.kvCacheSpec blocks) m.singleTypeManagers m.emptyBlocks :=
    forall₂_emptyBlocks fun manager => ⟨(Nat.zero_div _).symm, .nil⟩
  unfold getComputedBlocks
  by_cases hskip : m.enableCaching = false ∨ 0 < request.numComputedTokens
  · exact ⟨m.emptyBlocks, 0, m, by rw [if_pos hskip], Nat.zero_le _, dvd_zero _, hempty⟩
  rw [if_neg hskip]
  have hcaching : m.enableCaching = true := by
    rw [not_or] at hskip
    simpa using hskip.1
  have hlookable : ∀ manager ∈ m.singleTypeManagers,
      KVCacheCoordinator.Lookable m.blockPool request.blockHashes m.kvCacheConfig.blockSize
        (request.numTokens - 1) manager.kvCacheSpec := fun manager hm =>
    ⟨h.blockSize_eq hm, h.reserved_of_mem hm,
      (Nat.div_le_div_right (Nat.sub_le _ 1)).trans (hhashes hcaching)⟩
  obtain ⟨perGroup, l, hok, hle, hdvd, hshaped⟩ :=
    KVCacheCoordinator.findLongestCacheHit_shaped h.books.wf.nullFree h.managers_ne_nil hlookable
  rw [hok]
  dsimp only
  by_cases hzero : l = 0
  · exact ⟨m.emptyBlocks, 0, _, by rw [if_pos hzero]; rfl, Nat.zero_le _, dvd_zero _, hempty⟩
  · exact ⟨perGroup, l, _, by rw [if_neg hzero], hle, hdvd, hshaped⟩

end KVCacheManager

end Pvllm
