import Pvllm.Core.KVCacheManager
import Pvllm.Library.Descent

/-!
What a prefix-cache lookup returns.

`Requires` says which blocks a group needs to resume from a prefix of `n`
blocks: all of them for full attention, those under the window for a windowed
group, the last one for a recurrent state. `Serves` says the cache has them.
Each group's search returns the longest prefix it can serve (`IsHit`), though
the windowed and state-space searches are not monotone in the cap; and the
coordinator's loop, which passes a candidate round the groups, returns the
longest prefix all of them can.
-/

namespace Pvllm

variable {H : Type} [DecidableEq H]

theorem getElem?_of_take {α : Type*} {l : List α} {k i : ℕ} {a : α}
    (h : (l.take k)[i]? = some a) : i < k ∧ l[i]? = some a := by
  rw [List.getElem?_take] at h
  split at h
  · exact ⟨by assumption, h⟩
  · cases h

/-! ### What a group needs -/

/-- The block at `i` is read when a request resumes after `n` blocks. -/
def Requires (spec : KVCacheSpec) (n i : ℕ) : Prop :=
  i < n ∧ match spec.kind with
    | .fullAttention => True
    | .slidingWindow window => n * spec.blockSize - (window - 1) < (i + 1) * spec.blockSize
    | .mamba => i + 1 = n

/-- The block for the hash at `i`, if it is cached. -/
def cachedAt (pool : BlockPool H) (groupId : ℕ) (blockHashes : List H) (i : ℕ) : Option BlockId :=
  match blockHashes[i]? with
  | none => none
  | some blockHash => pool.getCachedBlock blockHash groupId

/-- The group can resume a request after `n` blocks. -/
def Serves (pool : BlockPool H) (groupId : ℕ) (blockHashes : List H) (spec : KVCacheSpec)
    (n : ℕ) : Prop :=
  ∀ i, Requires spec n i → (cachedAt pool groupId blockHashes i).isSome

/-- The group can resume a request after `length` tokens, a whole number of
blocks. -/
def ServesLength (pool : BlockPool H) (groupId : ℕ) (blockHashes : List H) (spec : KVCacheSpec)
    (length : ℕ) : Prop :=
  spec.blockSize ∣ length ∧ Serves pool groupId blockHashes spec (length / spec.blockSize)

/-- `blocks` is what a group answers for a prefix of `n` blocks: an entry for
each index, cached or null, and cached wherever the group reads it. -/
structure IsHit (pool : BlockPool H) (groupId : ℕ) (blockHashes : List H) (spec : KVCacheSpec)
    (n : ℕ) (blocks : List BlockId) : Prop where
  length_eq : blocks.length = n
  cached_or_null : ∀ i b, blocks[i]? = some b →
    (pool.blocks b).isNull = false → cachedAt pool groupId blockHashes i = some b
  required : ∀ i b, blocks[i]? = some b → Requires spec n i → (pool.blocks b).isNull = false

/-- The null block is marked, and no lookup answers with it. -/
structure NullFree (pool : BlockPool H) : Prop where
  nullBlock_isNull : ∀ b, pool.nullBlock = some b → (pool.blocks b).isNull = true
  cached_not_null : ∀ blockHash groupId b, pool.getCachedBlock blockHash groupId = some b →
    (pool.blocks b).isNull = false

theorem BlockPool.Indexed.nullFree {pool : BlockPool H} (h : BlockPool.Indexed pool) :
    NullFree pool where
  nullBlock_isNull b hb := (h.isNull_iff b).mpr hb
  cached_not_null _ _ _ hb := h.not_null_of_hashed (h.getCachedBlock_hash hb)

section Search

variable {pool : BlockPool H} {groupId : ℕ} {blockHashes : List H} {spec : KVCacheSpec}

theorem cachedAt_not_null (h : NullFree pool) {i : ℕ} {b : BlockId}
    (hb : cachedAt pool groupId blockHashes i = some b) : (pool.blocks b).isNull = false := by
  unfold cachedAt at hb
  cases hi : blockHashes[i]? with
  | none => simp [hi] at hb
  | some blockHash => exact h.cached_not_null blockHash groupId b (by simpa [hi] using hb)

theorem cachedAt_eq {i : ℕ} {blockHash : H} (h : blockHashes[i]? = some blockHash) :
    cachedAt pool groupId blockHashes i = pool.getCachedBlock blockHash groupId := by
  simp [cachedAt, h]

/-- A hit serves: what it reads is there. -/
theorem IsHit.serves {n : ℕ} {blocks : List BlockId}
    (h : IsHit pool groupId blockHashes spec n blocks) :
    Serves pool groupId blockHashes spec n := by
  intro i hi
  obtain ⟨b, hb⟩ : ∃ b, blocks[i]? = some b :=
    ⟨_, List.getElem?_eq_getElem (h.length_eq.symm ▸ hi.1)⟩
  rw [h.cached_or_null i b hb (h.required i b hb hi)]
  rfl

/-! ### Full attention -/

variable (pool groupId) in
/-- The scan returns the cached blocks of a prefix, and stops at a miss. -/
theorem fullAttentionScan_spec (hashes : List H) :
    (∀ i b, (fullAttentionScan pool groupId hashes)[i]? = some b →
      cachedAt pool groupId hashes i = some b) ∧
    (fullAttentionScan pool groupId hashes).length ≤ hashes.length ∧
    ∀ n, n ≤ hashes.length → (∀ i, i < n → (cachedAt pool groupId hashes i).isSome) →
      n ≤ (fullAttentionScan pool groupId hashes).length := by
  induction hashes with
  | nil => exact ⟨by simp [fullAttentionScan], le_rfl, fun n hn _ => hn⟩
  | cons blockHash rest ih =>
      obtain ⟨hentries, hlen, hmax⟩ := ih
      cases hcached : pool.getCachedBlock blockHash groupId with
      | none =>
          simp only [fullAttentionScan, hcached]
          refine ⟨by simp, Nat.zero_le _, fun n _ hall => ?_⟩
          by_contra hn
          have h0 := hall 0 (Nat.pos_of_ne_zero fun e => hn (by simp [e]))
          simp [cachedAt, hcached] at h0
      | some cached =>
          simp only [fullAttentionScan, hcached]
          refine ⟨?_, by simpa using hlen, fun n hn hall => ?_⟩
          · intro i b hb
            cases i with
            | zero => simpa [cachedAt, hcached] using hb
            | succ i =>
                have := hentries i b (by simpa using hb)
                simpa [cachedAt] using this
          · cases n with
            | zero => exact Nat.zero_le _
            | succ n =>
                have hrest := hmax n (by simpa using hn) fun i hi => by
                  simpa [cachedAt] using hall (i + 1) (by omega)
                simpa using hrest

/-! ### Sliding windows -/

theorem requires_slidingWindow {window n i : ℕ} (hkind : spec.kind = .slidingWindow window) :
    Requires spec n i ↔ i < n ∧ n ≤ i + ceilDiv (window - 1) spec.blockSize := by
  simp only [Requires, hkind]
  refine and_congr_right fun hi => ?_
  have hneed := ceilDiv_le_iff (n := window - 1) (k := n - (i + 1)) spec.blockSize_pos
  have hsub : (n - (i + 1)) * spec.blockSize = n * spec.blockSize - (i + 1) * spec.blockSize :=
    Nat.sub_mul ..
  have hle : (i + 1) * spec.blockSize ≤ n * spec.blockSize := Nat.mul_le_mul_right _ hi
  have hpos : 0 < (i + 1) * spec.blockSize := Nat.mul_pos (Nat.succ_pos i) spec.blockSize_pos
  omega

/-- Whatever a windowed search enters in its list is the cached block for the
index it enters it at. -/
theorem slidingWindowScan_entries {needed : ℕ} {computed blocks : List BlockId}
    {contiguous index : ℕ}
    (hentries : ∀ i b, computed[i]? = some b → (pool.blocks b).isNull = false →
      cachedAt pool groupId blockHashes i = some b)
    (h : slidingWindowScan pool groupId blockHashes needed computed contiguous index =
      .ok blocks) :
    blocks.length ≤ computed.length ∧
      ∀ i b, blocks[i]? = some b → (pool.blocks b).isNull = false →
        cachedAt pool groupId blockHashes i = some b := by
  induction index generalizing computed contiguous with
  | zero =>
      obtain rfl : computed.take contiguous = blocks := by simpa [slidingWindowScan] using h
      exact ⟨by simp, fun i b hb => hentries i b (getElem?_of_take hb).2⟩
  | succ index ih =>
      cases hhash : blockHashes[index]? with
      | none => simp [slidingWindowScan, hhash] at h
      | some blockHash =>
          cases hcached : pool.getCachedBlock blockHash groupId with
          | none =>
              simp only [slidingWindowScan, hhash, hcached] at h
              exact ih hentries h
          | some cached =>
              have hset : ∀ i b, (computed.set index cached)[i]? = some b →
                  (pool.blocks b).isNull = false →
                    cachedAt pool groupId blockHashes i = some b := by
                intro i b hb hnn
                by_cases hi : index = i
                · subst hi
                  have hb' : cached = b := by
                    rw [List.getElem?_set_self'] at hb
                    cases hc : computed[index]? with
                    | none => simp [hc] at hb
                    | some c => simpa [hc] using hb
                  rw [cachedAt_eq hhash, hcached, hb']
                · rw [List.getElem?_set_ne hi] at hb
                  exact hentries i b hb hnn
              by_cases henough : needed ≤ contiguous + 1
              · obtain rfl : (computed.set index cached).take (index + (contiguous + 1)) =
                    blocks := by
                  simpa [slidingWindowScan, hhash, hcached, henough] using h
                exact ⟨by simp, fun i b hb => hset i b (getElem?_of_take hb).2⟩
              · simp only [slidingWindowScan, hhash, hcached, henough, if_false] at h
                simpa using ih hset h

/-- What the windowed search knows when it has seen the indices from `index`
up to `max`: the `contiguous` blocks from `index` on are cached and entered,
fewer than it needs, and no longer prefix can be served. -/
structure WindowScan (pool : BlockPool H) (groupId : ℕ) (blockHashes : List H)
    (spec : KVCacheSpec) (needed max : ℕ) (computed : List BlockId) (contiguous index : ℕ) :
    Prop where
  length_eq : computed.length = max
  le_max : index + contiguous ≤ max
  short : contiguous < needed
  run : ∀ i b, index ≤ i → i < index + contiguous → computed[i]? = some b →
    (pool.blocks b).isNull = false
  none_above : ∀ n, index + contiguous < n → n ≤ max → ¬ Serves pool groupId blockHashes spec n

omit [DecidableEq H] in
/-- The window finds what it reads, when the run found is as long as it needs
or has reached the first block. -/
theorem windowRun_required {window needed contiguous index : ℕ} {computed : List BlockId}
    (hkind : spec.kind = .slidingWindow window)
    (hneeded : needed = ceilDiv (window - 1) spec.blockSize)
    (henough : needed ≤ contiguous ∨ index = 0)
    (hrun : ∀ i b, index ≤ i → i < index + contiguous → computed[i]? = some b →
      (pool.blocks b).isNull = false) :
    ∀ i b, (computed.take (index + contiguous))[i]? = some b →
      Requires spec (index + contiguous) i → (pool.blocks b).isNull = false := by
  intro i b hb hreq
  obtain ⟨hi, hread⟩ := (requires_slidingWindow hkind).mp hreq
  rw [List.getElem?_take, if_pos hi] at hb
  exact hrun i b (by omega) hi hb

theorem slidingWindowScan_spec {window : ℕ} (hkind : spec.kind = .slidingWindow window)
    (hnull : NullFree pool) {needed max : ℕ}
    (hneeded : needed = ceilDiv (window - 1) spec.blockSize)
    (hmax : max ≤ blockHashes.length) {computed : List BlockId} {contiguous index : ℕ}
    (h : WindowScan pool groupId blockHashes spec needed max computed contiguous index) :
    ∃ blocks, slidingWindowScan pool groupId blockHashes needed computed contiguous index =
        .ok blocks ∧
      (∀ i b, blocks[i]? = some b → Requires spec blocks.length i →
        (pool.blocks b).isNull = false) ∧
      ∀ n, n ≤ max → Serves pool groupId blockHashes spec n → n ≤ blocks.length := by
  induction index generalizing computed contiguous with
  | zero =>
      have hle := h.le_max
      have hreq := windowRun_required hkind hneeded (Or.inr rfl) h.run
      rw [Nat.zero_add] at hreq hle
      have hlen : (computed.take contiguous).length = contiguous := by simp [h.length_eq, hle]
      refine ⟨computed.take contiguous, rfl, by rwa [hlen], fun n hn hserves => ?_⟩
      rw [hlen]
      by_contra hlt
      exact h.none_above n (by omega) hn hserves
  | succ index ih =>
      have hle := h.le_max
      have hshort := h.short
      have hhash : blockHashes[index]? = some blockHashes[index] :=
        List.getElem?_eq_getElem (by omega)
      have hstuck : ∀ n, index + (contiguous + 1) < n → n ≤ max →
          ¬ Serves pool groupId blockHashes spec n := fun n hn =>
        h.none_above n (by omega)
      cases hcached : pool.getCachedBlock blockHashes[index] groupId with
      | none =>
          have hstep : slidingWindowScan pool groupId blockHashes needed computed contiguous
              (index + 1) =
              slidingWindowScan pool groupId blockHashes needed computed 0 index := by
            simp [slidingWindowScan, hhash, hcached]
          rw [hstep]
          refine ih ⟨h.length_eq, by omega, by omega, fun i b hi hi' => absurd hi' (by omega),
            fun n hn hnmax hserves => ?_⟩
          -- The window of any `n` up to the end of the run reaches the miss.
          rcases Nat.lt_or_ge (index + 1 + contiguous) n with hfar | hnear
          · exact h.none_above n hfar hnmax hserves
          · have hmiss := hserves index ((requires_slidingWindow hkind).mpr (by omega))
            rw [cachedAt_eq hhash, hcached] at hmiss
            cases hmiss
      | some cached =>
          have hat : cachedAt pool groupId blockHashes index = some cached := by
            rw [cachedAt_eq hhash, hcached]
          have hlen : (computed.set index cached).length = max := by simp [h.length_eq]
          have hrun : ∀ i b, index ≤ i → i < index + (contiguous + 1) →
              (computed.set index cached)[i]? = some b → (pool.blocks b).isNull = false := by
            intro i b hi hi' hb
            rcases Nat.eq_or_lt_of_le hi with rfl | hgt
            · rw [List.getElem?_set_self (by rw [h.length_eq]; omega), Option.some.injEq] at hb
              exact hb ▸ cachedAt_not_null hnull hat
            · rw [List.getElem?_set_ne (by omega)] at hb
              exact h.run i b hgt (by omega) hb
          by_cases henough : needed ≤ contiguous + 1
          · have hreq := windowRun_required hkind hneeded (Or.inl henough) hrun
            have hlen' : ((computed.set index cached).take (index + (contiguous + 1))).length =
                index + (contiguous + 1) := by
              rw [List.length_take, hlen]
              omega
            refine ⟨_, ?_, by rwa [hlen'], fun n hn hserves => ?_⟩
            · simp [slidingWindowScan, hhash, hcached, henough]
            · rw [hlen']
              by_contra hlt
              exact hstuck n (by omega) hn hserves
          · have hstep : slidingWindowScan pool groupId blockHashes needed computed contiguous
                (index + 1) = slidingWindowScan pool groupId blockHashes needed
                  (computed.set index cached) (contiguous + 1) index := by
              simp [slidingWindowScan, hhash, hcached, henough]
            rw [hstep]
            exact ih ⟨hlen, by omega, by omega, hrun, hstuck⟩

/-! ### Recurrent states -/

theorem requires_mamba {n i : ℕ} (hkind : spec.kind = .mamba) :
    Requires spec n i ↔ i + 1 = n := by
  simp only [Requires, hkind]
  omega

theorem mambaScan_entries {nullBlock : BlockId} (hnb : (pool.blocks nullBlock).isNull = true)
    {index : ℕ} {blocks : List BlockId}
    (h : mambaScan pool groupId nullBlock blockHashes index = .ok blocks) :
    blocks.length ≤ index ∧
      ∀ i b, blocks[i]? = some b → (pool.blocks b).isNull = false →
        i + 1 = blocks.length ∧ cachedAt pool groupId blockHashes i = some b := by
  induction index with
  | zero =>
      obtain rfl : [] = blocks := by simpa [mambaScan] using h
      simp
  | succ index ih =>
      cases hhash : blockHashes[index]? with
      | none => simp [mambaScan, hhash] at h
      | some blockHash =>
          cases hcached : pool.getCachedBlock blockHash groupId with
          | none =>
              simp only [mambaScan, hhash, hcached] at h
              exact ⟨(ih h).1.trans (Nat.le_succ _), (ih h).2⟩
          | some cached =>
              obtain rfl : List.replicate index nullBlock ++ [cached] = blocks := by
                simpa [mambaScan, hhash, hcached] using h
              refine ⟨by simp, fun i b hb hnn => ?_⟩
              rw [List.getElem?_append, List.length_replicate] at hb
              split at hb
              · rename_i hi
                rw [List.getElem?_replicate, if_pos hi, Option.some.injEq] at hb
                rw [← hb, hnb] at hnn
                cases hnn
              · rename_i hi
                obtain ⟨hlt, hb⟩ := List.getElem?_eq_some_iff.mp hb
                have hzero : i = index := by
                  simp only [List.length_singleton] at hlt
                  omega
                subst hzero
                simp only [Nat.sub_self, List.getElem_cons_zero] at hb
                exact ⟨by simp, by rw [cachedAt_eq hhash, hcached, hb]⟩

theorem mambaScan_spec (hkind : spec.kind = .mamba) (hnull : NullFree pool) (nullBlock : BlockId)
    {index : ℕ} (hindex : index ≤ blockHashes.length) :
    ∃ blocks, mambaScan pool groupId nullBlock blockHashes index = .ok blocks ∧
      (∀ i b, blocks[i]? = some b → Requires spec blocks.length i →
        (pool.blocks b).isNull = false) ∧
      ∀ n, n ≤ index → Serves pool groupId blockHashes spec n → n ≤ blocks.length := by
  induction index with
  | zero => exact ⟨[], rfl, by simp, fun n hn _ => hn⟩
  | succ index ih =>
      have hhash : blockHashes[index]? = some blockHashes[index] :=
        List.getElem?_eq_getElem (by omega)
      cases hcached : pool.getCachedBlock blockHashes[index] groupId with
      | none =>
          obtain ⟨blocks, hok, hreq, hmax⟩ := ih (by omega)
          refine ⟨blocks, by simp [mambaScan, hhash, hcached, hok], hreq, ?_⟩
          intro n hn hserves
          rcases Nat.lt_or_ge index n with hlast | hlt
          · have hmiss := hserves index ((requires_mamba hkind).mpr (by omega))
            rw [cachedAt_eq hhash, hcached] at hmiss
            cases hmiss
          · exact hmax n hlt hserves
      | some cached =>
          have hlen : (List.replicate index nullBlock ++ [cached]).length = index + 1 := by simp
          refine ⟨List.replicate index nullBlock ++ [cached],
            by simp [mambaScan, hhash, hcached], fun i b hb hreq => ?_,
            fun n hn _ => by rw [hlen]; exact hn⟩
          rw [hlen, requires_mamba hkind] at hreq
          obtain rfl : i = index := by omega
          have hb' : cached = b := by simpa using hb
          exact hb' ▸ hnull.cached_not_null _ _ _ hcached

/-! ### Any group -/

theorem requires_fullAttention {n i : ℕ} (hkind : spec.kind = .fullAttention) :
    Requires spec n i ↔ i < n := by
  simp [Requires, hkind]

/-- A full-attention hit may be cut anywhere: it is downward-closed. -/
theorem IsHit.take {n : ℕ} {blocks : List BlockId} (hkind : spec.kind = .fullAttention)
    (h : IsHit pool groupId blockHashes spec n blocks) {m : ℕ} (hm : m ≤ n) :
    IsHit pool groupId blockHashes spec m (blocks.take m) := by
  refine ⟨by simp [h.length_eq, hm],
    fun i b hb => h.cached_or_null i b (getElem?_of_take hb).2, ?_⟩
  intro i b hb _
  obtain ⟨hi, hb⟩ := getElem?_of_take hb
  exact h.required i b hb ((requires_fullAttention hkind).mpr (by omega))

/-- Whatever a search answers is the cached block for its index, or null. -/
theorem findLongestCacheHit_entries (hnull : NullFree pool) {maxLength found : ℕ}
    {blocks : List BlockId}
    (h : findLongestCacheHit pool groupId spec blockHashes maxLength = .ok (blocks, found)) :
    found = blocks.length * spec.blockSize ∧ blocks.length ≤ maxLength / spec.blockSize ∧
      ∀ i b, blocks[i]? = some b → (pool.blocks b).isNull = false →
        cachedAt pool groupId blockHashes i = some b := by
  cases hkind : spec.kind with
  | fullAttention =>
      simp only [findLongestCacheHit, hkind, Except.ok.injEq, Prod.mk.injEq] at h
      obtain ⟨rfl, rfl⟩ := h
      obtain ⟨hentries, hlen, -⟩ := fullAttentionScan_spec pool groupId
        (blockHashes.take (maxLength / spec.blockSize))
      rw [List.length_take] at hlen
      refine ⟨rfl, by omega, fun i b hb _ => ?_⟩
      have hcached := hentries i b hb
      unfold cachedAt at hcached
      split at hcached
      · cases hcached
      · rename_i blockHash hi
        rw [cachedAt_eq (getElem?_of_take hi).2]
        exact hcached
  | slidingWindow window =>
      cases hnb : pool.nullBlock with
      | none => simp [findLongestCacheHit, hkind, hnb] at h
      | some nullBlock =>
          simp only [findLongestCacheHit, hkind, hnb] at h
          split at h
          · cases h
          · rename_i computed hscan
            rw [Except.ok.injEq, Prod.mk.injEq] at h
            obtain ⟨rfl, rfl⟩ := h
            obtain ⟨hlen, hentries⟩ := slidingWindowScan_entries (fun i b hb hnn => by
              rw [List.getElem?_replicate] at hb
              split at hb
              · rw [← Option.some.inj hb, hnull.nullBlock_isNull _ hnb] at hnn
                cases hnn
              · cases hb) hscan
            exact ⟨rfl, by simpa using hlen, hentries⟩
  | mamba =>
      cases hnb : pool.nullBlock with
      | none => simp [findLongestCacheHit, hkind, hnb] at h
      | some nullBlock =>
          simp only [findLongestCacheHit, hkind, hnb] at h
          split at h
          · cases h
          · rename_i computed hscan
            rw [Except.ok.injEq, Prod.mk.injEq] at h
            obtain ⟨rfl, rfl⟩ := h
            obtain ⟨hlen, hentries⟩ := mambaScan_entries (hnull.nullBlock_isNull _ hnb) hscan
            exact ⟨rfl, hlen, fun i b hb hnn => (hentries i b hb hnn).2⟩

variable (groupId) in
/-- The search of a group returns the longest prefix it can serve, within the
cap. -/
theorem findLongestCacheHit_spec (hnull : NullFree pool)
    (hreserved : spec.isSkipping = true → pool.nullBlock.isSome)
    (hwindow : ∀ window, spec.kind = .slidingWindow window → 2 ≤ window) {maxLength : ℕ}
    (hmax : maxLength / spec.blockSize ≤ blockHashes.length) :
    ∃ blocks, findLongestCacheHit pool groupId spec blockHashes maxLength =
        .ok (blocks, blocks.length * spec.blockSize) ∧
      IsHit pool groupId blockHashes spec blocks.length blocks ∧
      ∀ n, n ≤ maxLength / spec.blockSize → Serves pool groupId blockHashes spec n →
        n ≤ blocks.length := by
  set max := maxLength / spec.blockSize with hmaxdef
  suffices hsearch : ∃ blocks,
      findLongestCacheHit pool groupId spec blockHashes maxLength =
        .ok (blocks, blocks.length * spec.blockSize) ∧
      (∀ i b, blocks[i]? = some b → Requires spec blocks.length i →
        (pool.blocks b).isNull = false) ∧
      ∀ n, n ≤ max → Serves pool groupId blockHashes spec n → n ≤ blocks.length by
    obtain ⟨blocks, hok, hreq, hlongest⟩ := hsearch
    exact ⟨blocks, hok, ⟨rfl, (findLongestCacheHit_entries hnull hok).2.2, hreq⟩, hlongest⟩
  cases hkind : spec.kind with
  | fullAttention =>
      obtain ⟨hentries, hlen, hlongest⟩ :=
        fullAttentionScan_spec pool groupId (blockHashes.take max)
      rw [List.length_take_of_le hmax] at hlen hlongest
      refine ⟨_, by simp [findLongestCacheHit, hkind, ← hmaxdef],
        fun i b hb _ => cachedAt_not_null hnull (hentries i b hb), fun n hn hserves => ?_⟩
      refine hlongest n hn fun i hi => ?_
      have hcached := hserves i ((requires_fullAttention hkind).mpr hi)
      have hprefix : (blockHashes.take max)[i]? = blockHashes[i]? := by
        rw [List.getElem?_take, if_pos (by omega)]
      simpa [cachedAt, hprefix] using hcached
  | slidingWindow window =>
      obtain ⟨nullBlock, hnb⟩ := Option.isSome_iff_exists.mp
        (hreserved (by simp [KVCacheSpec.isSkipping, KVCacheSpec.isFullAttention, hkind]))
      have hneeded : 0 < ceilDiv (window - 1) spec.blockSize := by
        have hw := hwindow window hkind
        have hnone := ceilDiv_le_iff (n := window - 1) (k := 0) spec.blockSize_pos
        omega
      have hstart : WindowScan pool groupId blockHashes spec
          (ceilDiv (window - 1) spec.blockSize) max (List.replicate max nullBlock) 0 max :=
        ⟨by simp, le_rfl, hneeded, fun i b _ _ _ => by omega, fun n _ _ => by omega⟩
      obtain ⟨blocks, hok, hreq, hlongest⟩ := slidingWindowScan_spec hkind hnull rfl hmax hstart
      exact ⟨blocks, by simp [findLongestCacheHit, hkind, hnb, ← hmaxdef, hok], hreq, hlongest⟩
  | mamba =>
      obtain ⟨nullBlock, hnb⟩ := Option.isSome_iff_exists.mp
        (hreserved (by simp [KVCacheSpec.isSkipping, KVCacheSpec.isFullAttention, hkind]))
      obtain ⟨blocks, hok, hreq, hlongest⟩ :=
        mambaScan_spec hkind hnull nullBlock hmax
      exact ⟨blocks, by simp [findLongestCacheHit, hkind, hnb, ← hmaxdef, hok], hreq, hlongest⟩

end Search

/-! ### All groups -/

namespace KVCacheCoordinator

variable {pool : BlockPool H} {blockHashes : List H}

/-- Every group can serve a prefix of `length` tokens. -/
def AllServe (pool : BlockPool H) (blockHashes : List H) (groups : List (ℕ × KVCacheSpec))
    (length : ℕ) : Prop :=
  ∀ group ∈ groups, ServesLength pool group.1 blockHashes group.2 length

def GroupHit.group (hit : GroupHit) : ℕ × KVCacheSpec := (hit.groupId, hit.kvCacheSpec)

/-- What holds of a record when the candidate is `c`: the blocks of a
full-attention group are a hit, found under an earlier and no smaller
candidate, so they cover whatever the group can serve. -/
structure GroupHit.Known (pool : BlockPool H) (blockHashes : List H) (c : ℕ) (hit : GroupHit) :
    Prop where
  aligned : hit.blocks.isSome → hit.kvCacheSpec.blockSize ∣ c
  held : ∀ blocks, hit.blocks = some blocks → hit.kvCacheSpec.kind = .fullAttention →
    IsHit pool hit.groupId blockHashes hit.kvCacheSpec blocks.length blocks ∧
    hit.length = blocks.length * hit.kvCacheSpec.blockSize ∧
    ∀ l, l ≤ c → ServesLength pool hit.groupId blockHashes hit.kvCacheSpec l → l ≤ hit.length

/-- The record answers for `c` tokens, once a full-attention list is cut. -/
def GroupHit.Answers (pool : BlockPool H) (blockHashes : List H) (c : ℕ) (hit : GroupHit) : Prop :=
  ∃ blocks, hit.blocks = some blocks ∧
    IsHit pool hit.groupId blockHashes hit.kvCacheSpec (c / hit.kvCacheSpec.blockSize)
      (if hit.kvCacheSpec.isFullAttention then blocks.take (c / hit.kvCacheSpec.blockSize)
        else blocks)

theorem GroupHit.Known.mono {c c' : ℕ} {hit : GroupHit} (h : hit.Known pool blockHashes c)
    (hc : c' ≤ c) (hdvd : hit.kvCacheSpec.blockSize ∣ c') : hit.Known pool blockHashes c' where
  aligned _ := hdvd
  held blocks hblocks hkind := by
    obtain ⟨hhit, hlen, hcover⟩ := h.held blocks hblocks hkind
    exact ⟨hhit, hlen, fun l hl => hcover l (hl.trans hc)⟩

/-- What the loop relies on for each group: one block size, enough hashes, a
null block where one is needed, and windows of at least two tokens. -/
structure Searchable (pool : BlockPool H) (blockHashes : List H) (blockSize c : ℕ)
    (spec : KVCacheSpec) : Prop where
  blockSize_eq : spec.blockSize = blockSize
  reserved : spec.isSkipping = true → pool.nullBlock.isSome
  window : ∀ window, spec.kind = .slidingWindow window → 2 ≤ window
  hashes : c / blockSize ≤ blockHashes.length

omit [DecidableEq H] in
theorem Searchable.mono {blockSize c c' : ℕ} {spec : KVCacheSpec}
    (h : Searchable pool blockHashes blockSize c spec) (hc : c' ≤ c) :
    Searchable pool blockHashes blockSize c' spec :=
  ⟨h.1, h.2, h.3, (Nat.div_le_div_right hc).trans h.4⟩

theorem lookup_lowers (hnull : NullFree pool) {hit : GroupHit} {blockSize c : ℕ}
    (hs : Searchable pool blockHashes blockSize c hit.kvCacheSpec) :
    ∃ blocks found,
      Pvllm.findLongestCacheHit pool hit.groupId hit.kvCacheSpec blockHashes c =
        .ok (blocks, found) ∧
      Lowers (ServesLength pool hit.groupId blockHashes hit.kvCacheSpec) c found ∧
      blockSize ∣ found ∧
      GroupHit.Known pool blockHashes found { hit with blocks := some blocks, length := found } ∧
      (found = c →
        GroupHit.Answers pool blockHashes c
          { hit with blocks := some blocks, length := found }) := by
  obtain ⟨hbs, hreserved, hwindow, hhashes⟩ := hs
  rw [← hbs] at hhashes
  have hpos := hit.kvCacheSpec.blockSize_pos
  obtain ⟨blocks, hok, hhit, hlongest⟩ :=
    findLongestCacheHit_spec hit.groupId hnull hreserved hwindow hhashes
  have hlen := (findLongestCacheHit_entries hnull hok).2.1
  have hdiv : blocks.length * hit.kvCacheSpec.blockSize / hit.kvCacheSpec.blockSize =
      blocks.length := Nat.mul_div_cancel _ hpos
  have hkeeps : ∀ l, l ≤ c → ServesLength pool hit.groupId blockHashes hit.kvCacheSpec l →
      l ≤ blocks.length * hit.kvCacheSpec.blockSize := by
    rintro l hl ⟨hdvd, hserves⟩
    have hle := hlongest _ (Nat.div_le_div_right hl) hserves
    calc l = l / hit.kvCacheSpec.blockSize * hit.kvCacheSpec.blockSize :=
          (Nat.div_mul_cancel hdvd).symm
      _ ≤ blocks.length * hit.kvCacheSpec.blockSize := Nat.mul_le_mul_right _ hle
  refine ⟨blocks, _, hok, ⟨?_, ?_, hkeeps⟩, hbs ▸ Nat.dvd_mul_left .., ⟨?_, ?_⟩, ?_⟩
  · exact (Nat.mul_le_mul_right _ hlen).trans (Nat.div_mul_le_self c _)
  · intro e
    rw [← e]
    exact ⟨Nat.dvd_mul_left .., by rw [hdiv]; exact hhit.serves⟩
  · exact fun _ => Nat.dvd_mul_left ..
  · intro blocks' hblocks' _
    obtain rfl : blocks = blocks' := by simpa using hblocks'
    exact ⟨hhit, rfl, fun l hl _ => hl⟩
  · intro e
    refine ⟨blocks, rfl, ?_⟩
    rw [← e]
    simp only [hdiv]
    split
    · rwa [List.take_length]
    · exact hhit

theorem hitPass_spec (hnull : NullFree pool) {blockSize : ℕ} {groups : List GroupHit} {c : ℕ}
    (hs : ∀ hit ∈ groups, Searchable pool blockHashes blockSize c hit.kvCacheSpec)
    (hknown : ∀ hit ∈ groups, hit.Known pool blockHashes c) :
    ∃ groups' c', hitPass pool blockHashes groups c = .ok (groups', c') ∧
      Lowers (AllServe pool blockHashes (groups.map (·.group))) c c' ∧
      (blockSize ∣ c ∨ groups ≠ [] → blockSize ∣ c') ∧
      groups'.map (·.group) = groups.map (·.group) ∧
      (∀ hit ∈ groups', hit.Known pool blockHashes c') ∧
      (c' = c → ∀ hit ∈ groups', hit.Answers pool blockHashes c) := by
  induction groups generalizing c with
  | nil =>
      refine ⟨[], c, rfl, Lowers.rfl'.congr fun l => ?_, by simp, rfl, by simp, by simp⟩
      simp [AllServe]
  | cons hit rest ih =>
      obtain ⟨hhit, hrest⟩ := List.forall_mem_cons.mp hs
      obtain ⟨hkhit, hkrest⟩ := List.forall_mem_cons.mp hknown
      -- The head of the round: whichever branch is taken, it turns `c` into `c₁`.
      obtain ⟨hit', c₁, hstep, hlow, hdvd, hgroup, hkhit', hanswer⟩ : ∃ hit' c₁,
          (∀ rest' c', hitPass pool blockHashes rest c₁ = .ok (rest', c') →
            hitPass pool blockHashes (hit :: rest) c = .ok (hit' :: rest', c')) ∧
          Lowers (ServesLength pool hit.groupId blockHashes hit.kvCacheSpec) c c₁ ∧
          blockSize ∣ c₁ ∧ hit'.group = hit.group ∧ hit'.Known pool blockHashes c₁ ∧
          (c₁ = c → hit'.Answers pool blockHashes c) := by
        by_cases hfull : hit.kvCacheSpec.isFullAttention ∧ hit.blocks.isSome
        · have hkind : hit.kvCacheSpec.kind = .fullAttention := by
            simpa [KVCacheSpec.isFullAttention] using hfull.1
          obtain ⟨blocks, hblocks⟩ := Option.isSome_iff_exists.mp hfull.2
          have haligned := hkhit.aligned hfull.2
          obtain ⟨hh, hlen, hcover⟩ := hkhit.held blocks hblocks hkind
          have hserves : ∀ l, hit.kvCacheSpec.blockSize ∣ l → l ≤ hit.length →
              IsHit pool hit.groupId blockHashes hit.kvCacheSpec (l / hit.kvCacheSpec.blockSize)
                (blocks.take (l / hit.kvCacheSpec.blockSize)) := by
            intro l _ hl
            refine hh.take hkind ?_
            rw [hlen] at hl
            exact Nat.div_le_of_le_mul (by rwa [Nat.mul_comm])
          have hmin : hit.kvCacheSpec.blockSize ∣ min c hit.length := by
            rcases Nat.le_total c hit.length with h | h
            · rwa [Nat.min_eq_left h]
            · rw [Nat.min_eq_right h, hlen]
              exact Nat.dvd_mul_left ..
          refine ⟨hit, min c hit.length, fun rest' c' hrest' => by
              simp only [hitPass, hfull, and_self, if_true, hrest'],
            ⟨Nat.min_le_left .., ?_, ?_⟩, hhit.blockSize_eq ▸ hmin, rfl,
            hkhit.mono (Nat.min_le_left ..) hmin, ?_⟩
          · intro e
            exact ⟨haligned, (hserves c haligned (e ▸ Nat.min_le_right ..)).serves⟩
          · exact fun l hl hsl => Nat.le_min.mpr ⟨hl, hcover l hl hsl⟩
          · intro e
            refine ⟨blocks, hblocks, ?_⟩
            rw [if_pos hfull.1]
            exact hserves c haligned (e ▸ Nat.min_le_right ..)
        · obtain ⟨blocks, found, hok, hlow, hdvd, hk, hans⟩ := lookup_lowers hnull hhit
          exact ⟨{ hit with blocks := some blocks, length := found }, found,
            fun rest' c' hrest' => by simp only [hitPass, hfull, if_false, hok, hrest'],
            hlow, hdvd, rfl, hk, hans⟩
      obtain ⟨rest', c', hok, hlow', hdvd', hgroups, hk', hanswers⟩ := ih
        (fun h hm => (hrest h hm).mono hlow.le)
        (fun h hm => (hkrest h hm).mono hlow.le ((hrest h hm).blockSize_eq ▸ hdvd))
      refine ⟨hit' :: rest', c', hstep _ _ hok, (hlow.trans hlow').congr fun l => ?_,
        fun _ => hdvd' (Or.inl hdvd), by simp [hgroup, hgroups], ?_, ?_⟩
      · simp [AllServe, GroupHit.group]
      · refine List.forall_mem_cons.mpr ⟨hkhit'.mono hlow'.le ?_, hk'⟩
        have hbs : hit'.kvCacheSpec = hit.kvCacheSpec := (Prod.mk.inj hgroup).2
        rw [hbs, hhit.blockSize_eq]
        exact hdvd' (Or.inl hdvd)
      · intro e
        have hc₁ : c₁ = c := le_antisymm hlow.le (e ▸ hlow'.le)
        subst hc₁
        exact List.forall_mem_cons.mpr ⟨hanswer rfl, hanswers e⟩

/-- The loop ends on the greatest length every group can serve. -/
theorem hitLoop_spec (hnull : NullFree pool) (groups : List GroupHit) {blockSize fuel c : ℕ}
    (hfuel : c < fuel) (hne : groups ≠ [])
    (hs : ∀ hit ∈ groups, Searchable pool blockHashes blockSize c hit.kvCacheSpec)
    (hknown : ∀ hit ∈ groups, hit.Known pool blockHashes c) :
    ∃ groups' l, hitLoop pool blockHashes groups c fuel = .ok (groups', l) ∧
      IsGreatest {l | AllServe pool blockHashes (groups.map (·.group)) l ∧ l ≤ c} l ∧
      groups'.map (·.group) = groups.map (·.group) ∧
      ∀ hit ∈ groups', hit.Answers pool blockHashes l := by
  induction fuel generalizing groups c with
  | zero => omega
  | succ fuel ih =>
      obtain ⟨groups₁, c₁, hok, hlow, hdvd, hgroups, hknown₁, hanswers⟩ :=
        hitPass_spec hnull hs hknown
      rcases Nat.lt_or_ge c₁ c with hlt | hge
      · have hspecs : ∀ hit ∈ groups₁,
            Searchable pool blockHashes blockSize c₁ hit.kvCacheSpec := by
          intro hit hm
          have hmem : hit.group ∈ groups.map (·.group) := hgroups ▸ List.mem_map_of_mem hm
          obtain ⟨old, hold, heq⟩ := List.mem_map.mp hmem
          have := (hs old hold).mono hlow.le
          rwa [(Prod.mk.inj heq).2] at this
        have hne₁ : groups₁ ≠ [] := by
          rintro rfl
          exact hne (List.map_eq_nil_iff.mp hgroups.symm)
        obtain ⟨groups', l, hok', hgreatest, hgroups', hanswers'⟩ :=
          ih groups₁ (by omega) hne₁ hspecs hknown₁
        refine ⟨groups', l, ?_, hlow.restart (by rwa [hgroups] at hgreatest),
          hgroups'.trans hgroups, hanswers'⟩
        simp [hitLoop, hok, Nat.not_le.mpr hlt, hok']
      · obtain rfl : c₁ = c := le_antisymm hlow.le hge
        exact ⟨groups₁, c₁, by simp [hitLoop, hok], hlow.isGreatest, hgroups, hanswers rfl⟩

/-- The coordinator returns the greatest length every group can serve, and for
each group a hit of that length. -/
theorem findLongestCacheHit_spec (hnull : NullFree pool) {blockSize maxLength : ℕ}
    {managers : List SingleTypeKVCacheManager} (hne : managers ≠ [])
    (hs : ∀ manager ∈ managers,
      Searchable pool blockHashes blockSize maxLength manager.kvCacheSpec) :
    ∃ perGroup l,
      findLongestCacheHit pool managers blockSize blockHashes maxLength = .ok (perGroup, l) ∧
      IsGreatest {l | AllServe pool blockHashes
        (managers.map fun manager => (manager.kvCacheGroupId, manager.kvCacheSpec)) l ∧
          l ≤ maxLength} l ∧
      List.Forall₂ (fun manager blocks => IsHit pool manager.kvCacheGroupId blockHashes
        manager.kvCacheSpec (l / blockSize) blocks) managers perGroup := by
  set fresh := managers.map fun manager =>
    (⟨manager.kvCacheSpec, manager.kvCacheGroupId, none, 0⟩ : GroupHit) with hfresh
  obtain ⟨groups, l, hok, hgreatest, hgroups, hanswers⟩ := hitLoop_spec hnull fresh
    (Nat.lt_succ_self maxLength) (by simpa [hfresh] using hne)
    (by simpa [hfresh] using hs)
    (by
      intro hit hm
      obtain ⟨manager, -, rfl⟩ := List.mem_map.mp hm
      exact ⟨fun h => (nomatch h), fun _ h => (nomatch h)⟩)
  have hfreshGroup : fresh.map (·.group) =
      managers.map fun manager => (manager.kvCacheGroupId, manager.kvCacheSpec) := by
    simp [hfresh, GroupHit.group]
  rw [hfreshGroup] at hgreatest hgroups
  refine ⟨groups.map (·.trimmed (ceilDiv l blockSize)), l,
    by simp only [findLongestCacheHit, ← hfresh, hok], hgreatest, ?_⟩
  have hcut : ceilDiv l blockSize = l / blockSize := by
    obtain ⟨manager, hm⟩ := List.exists_mem_of_ne_nil managers hne
    have hbs := (hs manager hm).blockSize_eq
    have hserves := hgreatest.1.1 _ (List.mem_map_of_mem
      (f := fun manager : SingleTypeKVCacheManager =>
        (manager.kvCacheGroupId, manager.kvCacheSpec)) hm)
    obtain ⟨k, rfl⟩ : blockSize ∣ l := hbs ▸ hserves.1
    have hpos : 0 < blockSize := hbs ▸ manager.kvCacheSpec.blockSize_pos
    rw [Nat.mul_comm, ceilDiv_mul hpos, Nat.mul_div_cancel _ hpos]
  clear hok hfreshGroup hgreatest hne
  clear_value fresh
  clear hfresh fresh
  induction managers generalizing groups with
  | nil =>
      obtain rfl : groups = [] := by simpa using hgroups
      exact .nil
  | cons manager managers ih =>
      cases groups with
      | nil => simp at hgroups
      | cons hit groups =>
          simp only [List.map_cons, List.cons.injEq] at hgroups
          obtain ⟨hhit, hrest⟩ := hgroups
          obtain ⟨hid, hspec⟩ := Prod.mk.inj hhit
          obtain ⟨hanswer, hanswers⟩ := List.forall_mem_cons.mp hanswers
          obtain ⟨hsm, hs⟩ := List.forall_mem_cons.mp hs
          refine .cons ?_ (ih hs groups hrest hanswers)
          obtain ⟨blocks, hblocks, hh⟩ := hanswer
          change hit.groupId = _ at hid
          change hit.kvCacheSpec = _ at hspec
          rw [hspec, hid, hsm.blockSize_eq] at hh
          simpa [GroupHit.trimmed, hblocks, hspec, hcut] using hh

/-- What every search answers is on every record of the loop. -/
def GroupHit.Records (P : ℕ → KVCacheSpec → List BlockId → Prop) (hit : GroupHit) : Prop :=
  ∀ blocks, hit.blocks = some blocks → P hit.groupId hit.kvCacheSpec blocks

section Records

variable {P : ℕ → KVCacheSpec → List BlockId → Prop}

theorem hitPass_records (hP : ∀ {groupId spec c blocks found},
      Pvllm.findLongestCacheHit pool groupId spec blockHashes c = .ok (blocks, found) →
        P groupId spec blocks)
    {groups groups' : List GroupHit} {c c' : ℕ} (h : ∀ hit ∈ groups, hit.Records P)
    (hok : hitPass pool blockHashes groups c = .ok (groups', c')) :
    groups'.map (·.group) = groups.map (·.group) ∧ ∀ hit ∈ groups', hit.Records P := by
  induction groups generalizing c c' groups' with
  | nil =>
      simp only [hitPass, Except.ok.injEq, Prod.mk.injEq] at hok
      obtain ⟨rfl, -⟩ := hok
      exact ⟨rfl, h⟩
  | cons hit groups ih =>
      obtain ⟨hhit, hrest⟩ := List.forall_mem_cons.mp h
      simp only [hitPass] at hok
      split at hok
      · split at hok
        · cases hok
        rename_i rest _ hpass
        simp only [Except.ok.injEq, Prod.mk.injEq] at hok
        obtain ⟨rfl, -⟩ := hok
        obtain ⟨hgroups, hrecords⟩ := ih hrest hpass
        exact ⟨by simp [hgroups], List.forall_mem_cons.mpr ⟨hhit, hrecords⟩⟩
      · split at hok
        · cases hok
        rename_i blocks found hfind
        split at hok
        · cases hok
        rename_i rest _ hpass
        simp only [Except.ok.injEq, Prod.mk.injEq] at hok
        obtain ⟨rfl, -⟩ := hok
        obtain ⟨hgroups, hrecords⟩ := ih hrest hpass
        refine ⟨by rw [List.map_cons, List.map_cons, hgroups]; rfl,
          List.forall_mem_cons.mpr ⟨?_, hrecords⟩⟩
        intro blocks' hblocks'
        obtain rfl : blocks = blocks' := by simpa using hblocks'
        exact hP hfind

theorem hitLoop_records (hP : ∀ {groupId spec c blocks found},
      Pvllm.findLongestCacheHit pool groupId spec blockHashes c = .ok (blocks, found) →
        P groupId spec blocks)
    {fuel : ℕ} {groups groups' : List GroupHit} {c c' : ℕ} (h : ∀ hit ∈ groups, hit.Records P)
    (hok : hitLoop pool blockHashes groups c fuel = .ok (groups', c')) :
    groups'.map (·.group) = groups.map (·.group) ∧ ∀ hit ∈ groups', hit.Records P := by
  induction fuel generalizing groups c with
  | zero => cases hok
  | succ fuel ih =>
      simp only [hitLoop] at hok
      split at hok
      · cases hok
      rename_i groups₁ c₁ hpass
      obtain ⟨hgroups, hrecords⟩ := hitPass_records hP h hpass
      split at hok
      · simp only [Except.ok.injEq, Prod.mk.injEq] at hok
        obtain ⟨rfl, -⟩ := hok
        exact ⟨hgroups, hrecords⟩
      · obtain ⟨hgroups', hrecords'⟩ := ih hrecords hok
        exact ⟨hgroups'.trans hgroups, hrecords'⟩

/-- Whatever the coordinator answers is, group by group, what a search answered, cut
for full attention. -/
theorem findLongestCacheHit_records (hP : ∀ {groupId spec c blocks found},
      Pvllm.findLongestCacheHit pool groupId spec blockHashes c = .ok (blocks, found) →
        P groupId spec blocks)
    (hcut : ∀ {groupId spec blocks} (k : ℕ), spec.isFullAttention = true →
      P groupId spec blocks → P groupId spec (blocks.take k))
    (hnil : ∀ groupId spec, P groupId spec [])
    {blockSize maxLength l : ℕ} {managers : List SingleTypeKVCacheManager}
    {perGroup : List (List BlockId)}
    (hok : findLongestCacheHit pool managers blockSize blockHashes maxLength =
      .ok (perGroup, l)) :
    List.Forall₂ (fun manager blocks => P manager.kvCacheGroupId manager.kvCacheSpec blocks)
      managers perGroup := by
  unfold findLongestCacheHit at hok
  dsimp only at hok
  split at hok
  · cases hok
  rename_i groups hitLength hloop
  simp only [Except.ok.injEq, Prod.mk.injEq] at hok
  obtain ⟨rfl, rfl⟩ := hok
  obtain ⟨hgroups, hrecords⟩ := hitLoop_records hP (by
    intro hit hm
    obtain ⟨manager, -, rfl⟩ := List.mem_map.mp hm
    exact fun _ h => nomatch h) hloop
  rw [List.map_map] at hgroups
  rw [List.forall₂_map_right_iff]
  clear hloop
  induction managers generalizing groups with
  | nil =>
      obtain rfl : groups = [] := by simpa using hgroups
      exact .nil
  | cons manager managers ih =>
      cases groups with
      | nil => simp at hgroups
      | cons hit groups =>
          simp only [List.map_cons, List.cons.injEq] at hgroups
          obtain ⟨hid, hspec⟩ := Prod.mk.inj hgroups.1
          obtain ⟨hhit, hrecords⟩ := List.forall_mem_cons.mp hrecords
          refine .cons ?_ (ih groups hgroups.2 hrecords)
          unfold GroupHit.trimmed
          rw [← show hit.groupId = manager.kvCacheGroupId from hid,
            ← show hit.kvCacheSpec = manager.kvCacheSpec from hspec]
          cases hblocks : hit.blocks with
          | none => simp [hnil]
          | some blocks =>
              rw [Option.getD_some]
              dsimp only
              split
              · rename_i hfull
                exact hcut _ hfull (hhit blocks hblocks)
              · exact hhit blocks hblocks

end Records

/-- Whatever the coordinator answers, a group's entries are the cached blocks
for their indices, or null. -/
theorem findLongestCacheHit_cached (hnull : NullFree pool) {blockSize maxLength l : ℕ}
    {managers : List SingleTypeKVCacheManager} {perGroup : List (List BlockId)}
    (hok : findLongestCacheHit pool managers blockSize blockHashes maxLength =
      .ok (perGroup, l)) :
    List.Forall₂ (fun manager blocks => ∀ i b, blocks[i]? = some b →
      (pool.blocks b).isNull = false →
        cachedAt pool manager.kvCacheGroupId blockHashes i = some b) managers perGroup :=
  findLongestCacheHit_records (P := fun groupId _ blocks => ∀ i b, blocks[i]? = some b →
      (pool.blocks b).isNull = false → cachedAt pool groupId blockHashes i = some b)
    (fun hfind => (findLongestCacheHit_entries hnull hfind).2.2)
    (fun _ _ h i b hb => h i b (getElem?_of_take hb).2)
    (fun _ _ i b hb => by simp at hb) hok

end KVCacheCoordinator

end Pvllm
