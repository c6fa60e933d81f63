import Pvllm.Core.Retention
import Pvllm.Core.PrefixClosure
import Pvllm.Core.Sched.Hashes

/-!
What the slots of the cache read.

A slot of the KV cache is an offset into a block. What a worker puts there for a position of a
request depends on the tokens up to that position, and on what else its blocks are hashed with:
the adapter, the images, the salt. `Faithful` says of a manager that the slots under its tables
read what the requests stand for, as far as they are computed, and that the slots of a cached
block read what any request with its hash stands for. It is stated over a relation `reads`, so
that it can speak of slots that are still to be written.
-/

namespace Pvllm

/-- What is put in a slot: the tokens up to a position, and the extra keys of the blocks up
to there. -/
structure KVEntry where
  tokenIds : List TokenId
  extraKeys : List (Option (List ExtraKey))
deriving DecidableEq

namespace Request

variable {H : Type} {request request' : Request H} {blockSize position : ℕ}
  {drafts : List TokenId}

/-- What a position of a request stands for, where drafts follow its tokens. -/
def kvEntry (request : Request H) (drafts : List TokenId) (blockSize position : ℕ) : KVEntry where
  tokenIds := (request.allTokenIds ++ drafts).take (position + 1)
  extraKeys := (List.range (position / blockSize + 1)).map fun index =>
    generateBlockHashExtraKeys request (index * blockSize) (index * blockSize + blockSize)

/-- A position among the tokens does not depend on the drafts. -/
theorem kvEntry_known (h : position < request.numTokens) :
    request.kvEntry drafts blockSize position = request.kvEntry [] blockSize position := by
  unfold kvEntry
  rw [List.append_nil, List.take_append_of_le_length h]

theorem kvEntry_reworks (h : request.Reworks request') :
    request'.kvEntry drafts blockSize position = request.kvEntry drafts blockSize position := by
  rw [h.eq]
  rfl

/-- Tokens that are appended after drafts, of which they take over all but the last. -/
theorem kvEntry_appended {kept : List TokenId} (hdrafts : kept.dropLast <+: drafts)
    (htokens : request'.allTokenIds = request.allTokenIds ++ kept)
    (hkeys : ∀ start stop, generateBlockHashExtraKeys request' start stop =
      generateBlockHashExtraKeys request start stop)
    (hposition : position < request.numTokens + (kept.length - 1)) :
    request'.kvEntry [] blockSize position = request.kvEntry drafts blockSize position := by
  unfold kvEntry
  rw [KVEntry.mk.injEq, htokens, List.append_nil, List.take_append, List.take_append]
  refine ⟨?_, List.map_congr_left fun _ _ => hkeys _ _⟩
  have hshort : position + 1 - request.allTokenIds.length ≤ kept.length - 1 := by
    change position < request.allTokenIds.length + (kept.length - 1) at hposition
    omega
  have htaken : kept.take (kept.length - 1) = drafts.take (kept.length - 1) := by
    rw [← List.dropLast_eq_take]
    have hlength : kept.dropLast.length = kept.length - 1 := List.length_dropLast
    have hprefix := List.prefix_iff_eq_take.mp hdrafts
    rwa [hlength] at hprefix
  have hcut := congrArg (List.take (position + 1 - request.allTokenIds.length)) htaken
  rw [List.take_take, List.take_take, Nat.min_eq_left hshort] at hcut
  rw [hcut]

/-- Requests with the same hash stand for the same up to the end of its block. -/
theorem kvEntry_agree {a b : Request H} {hasher : BlockHasher H} {i j : ℕ} {blockHash : H}
    (hinjective : Function.Injective hasher.hashFn) (ha : a.Hashed hasher) (hb : b.Hashed hasher)
    (hi : a.blockHashes[i]? = some blockHash) (hj : b.blockHashes[j]? = some blockHash) :
    i = j ∧ ∀ position < (i + 1) * hasher.blockSize,
      a.kvEntry [] hasher.blockSize position = b.kvEntry [] hasher.blockSize position := by
  obtain ⟨hlt, -⟩ := List.getElem?_eq_some_iff.mp hi
  obtain ⟨hlt', -⟩ := List.getElem?_eq_some_iff.mp hj
  obtain ⟨-, rfl, hcontent⟩ :=
    (blockHashes_inj rfl hinjective ha hb hlt hlt').mp (hi.trans hj.symm)
  have hblock := fun k hk => BlockContent.mk.inj (hcontent k hk)
  refine ⟨rfl, fun position hposition => ?_⟩
  have htokens : a.allTokenIds.take ((i + 1) * hasher.blockSize) =
      b.allTokenIds.take ((i + 1) * hasher.blockSize) :=
    (tokens_agree_iff _ _).mpr fun k hk => (hblock k hk).1
  unfold kvEntry
  rw [KVEntry.mk.injEq]
  constructor
  · have hcut := congrArg (List.take (position + 1)) htokens
    rwa [List.take_take, List.take_take, Nat.min_eq_left (Nat.succ_le_of_lt hposition),
      ← List.append_nil a.allTokenIds, ← List.append_nil b.allTokenIds] at hcut
  · refine List.map_congr_left fun k hk => (hblock k ?_).2
    have hle := Nat.div_lt_of_lt_mul (Nat.mul_comm _ _ ▸ hposition)
    have hk := List.mem_range.mp hk
    omega

end Request

variable {H : Type} [DecidableEq H]

/-- A block that stands in two places is published. -/
theorem Marked.published_of_two {hashes : RequestId → List H} {pool : BlockPool H}
    {managers : List SingleTypeKVCacheManager} {free : List BlockId}
    (h : Marked hashes pool managers) (hbooks : Accounts pool free (heldBlocks managers))
    {manager manager' : SingleTypeKVCacheManager} (hm : manager ∈ managers)
    (hm' : manager' ∈ managers) {r r' : RequestId} {i i' : ℕ} {b : BlockId}
    (hnn : (pool.blocks b).isNull = false) (hb : (manager.getBlocks r)[i]? = some b)
    (hb' : (manager'.getBlocks r')[i']? = some b)
    (hnone : (pool.blocks b).blockHash = none) : manager = manager' ∧ r = r' ∧ i = i' := by
  have hheld := SingleTypeKVCacheManager.mem_held (List.mem_of_getElem? hb)
  have hheld' := SingleTypeKVCacheManager.mem_held (List.mem_of_getElem? hb')
  have hrefs := hbooks.refCnt_eq b hnn
  have hone : (pool.blocks b).refCnt < 2 := by
    by_contra htwo
    exact h.shared b hnn (Nat.le_of_not_lt htwo) hnone
  obtain rfl := group_unique hm hm' hheld hheld' (by omega)
  have hle := count_held_le hm b
  exact ⟨rfl, SingleTypeKVCacheManager.place_unique hb hb' (by omega)⟩

namespace KVCacheManager

variable {m m' : KVCacheManager H} {free free' : List BlockId} {request : Request H}
  {hashes : RequestId → List H} {blockSize : ℕ} {policy : Option (BlockHasher H)}
  {reads reads' : BlockId → ℕ → KVEntry → Prop} {entry entry' : RequestId → ℕ → KVEntry}
  {count count' : RequestId → ℕ}

/-- The slots read what they are taken for: under the tables, as far as the counts go, and
in the cached blocks. A cached block in a table lies below its count, and the tables reach as
far as the counts do. -/
structure Faithful (blockSize : ℕ) (policy : Option (BlockHasher H))
    (reads : BlockId → ℕ → KVEntry → Prop) (entry : RequestId → ℕ → KVEntry)
    (count : RequestId → ℕ) (m : KVCacheManager H) : Prop where
  tables : ∀ manager ∈ m.singleTypeManagers, ∀ (r : RequestId) (i : ℕ) (b : BlockId),
    (manager.getBlocks r)[i]? = some b →
    (m.blockPool.blocks b).isNull = false → ∀ offset < blockSize,
      i * blockSize + offset < count r → reads b offset (entry r (i * blockSize + offset))
  cached : ∀ b key, (m.blockPool.blocks b).blockHash = some key → ∀ request : Request H,
    request.HashedAs policy → ∀ i, request.blockHashes[i]? = some key.1 → ∀ offset < blockSize,
      reads b offset (request.kvEntry [] blockSize (i * blockSize + offset))
  below : ∀ manager ∈ m.singleTypeManagers, ∀ (r : RequestId) (i : ℕ) (b : BlockId),
    (manager.getBlocks r)[i]? = some b →
    (m.blockPool.blocks b).blockHash ≠ none → (i + 1) * blockSize ≤ count r
  reach : ∀ manager ∈ m.singleTypeManagers, ∀ r,
    min (count r) m.maxModelLen ≤ (manager.getBlocks r).length * blockSize

omit [DecidableEq H] in
/-- Counts may be taken back, if not behind the cached blocks. -/
theorem Faithful.recount (h : Faithful blockSize policy reads entry count m)
    (hle : ∀ r, count' r ≤ count r)
    (hentry : ∀ r position, position < count' r → entry' r position = entry r position)
    (hbelow : ∀ manager ∈ m.singleTypeManagers, ∀ (r : RequestId) (i : ℕ) (b : BlockId),
      (manager.getBlocks r)[i]? = some b → (m.blockPool.blocks b).blockHash ≠ none →
        (i + 1) * blockSize ≤ count' r) :
    Faithful blockSize policy reads entry' count' m where
  tables manager hm r i b hb hnn offset hoffset hlt := by
    rw [hentry r _ hlt]
    exact h.tables manager hm r i b hb hnn offset hoffset (Nat.lt_of_lt_of_le hlt (hle r))
  cached := h.cached
  below := hbelow
  reach manager hm r := by
    refine le_trans ?_ (h.reach manager hm r)
    exact min_le_min (hle r) le_rfl

omit [DecidableEq H] in
theorem hashed_not_null {pool : BlockPool H}
    (hnull : ∀ c, (pool.blocks c).isNull = true → (pool.blocks c).blockHash = none) {b : BlockId}
    {key : BlockHashWithGroupId H} (hkey : (pool.blocks b).blockHash = some key) :
    (pool.blocks b).isNull = false := by
  by_contra htrue
  rw [hnull b (Bool.eq_true_of_not_eq_false htrue)] at hkey
  cases hkey

omit [DecidableEq H] in
/-- Slots that read the same for the blocks there are. -/
theorem Faithful.reread (h : Faithful blockSize policy reads entry count m)
    (hnull : ∀ c, (m.blockPool.blocks c).isNull = true → (m.blockPool.blocks c).blockHash = none)
    (hreads : ∀ b, (m.blockPool.blocks b).isNull = false → ∀ offset < blockSize, ∀ e,
      reads b offset e → reads' b offset e) :
    Faithful blockSize policy reads' entry count m where
  tables manager hm r i b hb hnn offset hoffset hlt :=
    hreads b hnn offset hoffset _ (h.tables manager hm r i b hb hnn offset hoffset hlt)
  cached b key hkey request hhashed i hi offset hoffset :=
    hreads b (hashed_not_null hnull hkey) offset hoffset _
      (h.cached b key hkey request hhashed i hi offset hoffset)
  below := h.below
  reach := h.reach

/-- A manager in which nothing was added: blocks may have lost their hash, tables entries to
the null block, and the requests that are gone their tables. -/
structure Gives (gone : RequestId → Prop) (m m' : KVCacheManager H) : Prop where
  maxModelLen : m'.maxModelLen = m.maxModelLen
  nulls : ∀ c, (m'.blockPool.blocks c).isNull = (m.blockPool.blocks c).isNull
  hashes : ∀ c key, (m'.blockPool.blocks c).blockHash = some key →
    (m.blockPool.blocks c).blockHash = some key
  tables : ∀ manager' ∈ m'.singleTypeManagers, ∃ manager ∈ m.singleTypeManagers,
    ∀ r : RequestId, (gone r → manager'.getBlocks r = []) ∧
      (¬ gone r → (manager'.getBlocks r).length = (manager.getBlocks r).length ∧
        ∀ (i : ℕ) (b : BlockId), (manager'.getBlocks r)[i]? = some b →
          (manager.getBlocks r)[i]? = some b ∨ (m.blockPool.blocks b).isNull = true)

omit [DecidableEq H] in
theorem Gives.of_eq {gone : RequestId → Prop} {m₀ : KVCacheManager H} (h : Gives gone m m')
    (hpool : m.blockPool = m₀.blockPool) (hmanagers : m.singleTypeManagers = m₀.singleTypeManagers)
    (hmax : m.maxModelLen = m₀.maxModelLen) : Gives gone m₀ m' := by
  refine ⟨h.maxModelLen.trans hmax, ?_, ?_, ?_⟩
  · exact hpool ▸ h.nulls
  · exact hpool ▸ h.hashes
  · have htables := h.tables
    rwa [hmanagers, hpool] at htables

omit [DecidableEq H] in
/-- Shedding after giving back. -/
theorem Gives.sheds {gone : RequestId → Prop} {m'' : KVCacheManager H} (h : Gives gone m m')
    (h' : Gives (fun _ => False) m' m'') : Gives gone m m'' where
  maxModelLen := h'.maxModelLen.trans h.maxModelLen
  nulls c := (h'.nulls c).trans (h.nulls c)
  hashes c key hkey := h.hashes c key (h'.hashes c key hkey)
  tables manager'' hm'' := by
    obtain ⟨manager', hm', htable'⟩ := h'.tables manager'' hm''
    obtain ⟨manager, hm, htable⟩ := h.tables manager' hm'
    refine ⟨manager, hm, fun r => ?_⟩
    obtain ⟨hlength, hentries⟩ := (htable' r).2 not_false
    refine ⟨fun hr => ?_, fun hr => ⟨hlength.trans ((htable r).2 hr).1, fun i b hb => ?_⟩⟩
    · rw [(htable r).1 hr, List.length_nil] at hlength
      exact List.eq_nil_of_length_eq_zero hlength
    · rcases hentries i b hb with hb | hnull
      · exact ((htable r).2 hr).2 i b hb
      · exact Or.inr (h.nulls b ▸ hnull)

/-- A manager over the same layout that has the tables of those that stay. -/
theorem Gives.of_tables {gone : RequestId → Prop} (horder : m.InOrder free)
    (hcontinues : Continues m m')
    (hhashes : ∀ c key, (m'.blockPool.blocks c).blockHash = some key →
      (m.blockPool.blocks c).blockHash = some key)
    (hgone : ∀ r, gone r → m'.Idle r)
    (hsame : ∀ r, ¬ gone r → m'.getBlocks r = m.getBlocks r) : Gives gone m m' where
  maxModelLen := hcontinues.setup.maxModelLen
  nulls c := by
    obtain ⟨free', horder'⟩ := hcontinues.order
    exact isNull_congr horder horder' hcontinues.setup c
  hashes := hhashes
  tables manager' hm' := by
    obtain ⟨i, hi, rfl⟩ := List.mem_iff_getElem.mp hm'
    have hlength : m'.singleTypeManagers.length = m.singleTypeManagers.length := by
      have hgroups := congrArg List.length hcontinues.setup.groups
      unfold groups at hgroups
      rwa [List.length_map, List.length_map] at hgroups
    have hi₀ : i < m.singleTypeManagers.length := hlength ▸ hi
    refine ⟨_, List.getElem_mem hi₀, fun r => ⟨fun hr => hgone r hr _ (List.getElem_mem hi),
      fun hr => ?_⟩⟩
    have htable := congrArg (fun l => l[i]?) (hsame r hr)
    unfold getBlocks at htable
    simp only [List.getElem?_map, List.getElem?_eq_getElem hi, List.getElem?_eq_getElem hi₀,
      Option.map_some, Option.some.injEq] at htable
    rw [htable]
    exact ⟨rfl, fun j b hb => Or.inl hb⟩

/-- What is given back, or shed, leaves the rest of the slots. -/
theorem Faithful.gives {gone : RequestId → Prop}
    (h : Faithful blockSize policy reads entry count m) (horder : m.InOrder free)
    (hgives : Gives gone m m') (hgone : ∀ r, gone r → count' r = 0)
    (hcount : ∀ r, ¬ gone r → count' r = count r) :
    Faithful blockSize policy reads entry count' m' where
  tables manager' hm' r i b hb hnn offset hoffset hlt := by
    obtain ⟨manager, hm, htable⟩ := hgives.tables manager' hm'
    rw [hgives.nulls] at hnn
    by_cases hr : gone r
    · rw [(htable r).1 hr] at hb
      cases hb
    · rw [hcount r hr] at hlt
      rcases ((htable r).2 hr).2 i b hb with hb | hnull
      · exact h.tables manager hm r i b hb hnn offset hoffset hlt
      · rw [hnn] at hnull
        cases hnull
  cached b key hkey := h.cached b key (hgives.hashes b key hkey)
  below manager' hm' r i b hb hhash := by
    obtain ⟨manager, hm, htable⟩ := hgives.tables manager' hm'
    obtain ⟨key, hkey⟩ := Option.ne_none_iff_exists'.mp hhash
    have hkey := hgives.hashes b key hkey
    by_cases hr : gone r
    · rw [(htable r).1 hr] at hb
      cases hb
    · rw [hcount r hr]
      rcases ((htable r).2 hr).2 i b hb with hb | hnull
      · exact h.below manager hm r i b hb (by rw [hkey]; exact Option.some_ne_none _)
      · rw [horder.null_unhashed b hnull] at hkey
        cases hkey
  reach manager' hm' r := by
    obtain ⟨manager, hm, htable⟩ := hgives.tables manager' hm'
    rw [hgives.maxModelLen]
    by_cases hr : gone r
    · rw [hgone r hr, Nat.zero_min]
      exact Nat.zero_le _
    · rw [hcount r hr, ((htable r).2 hr).1]
      exact h.reach manager hm r

/-- Freeing takes the tables of one request. -/
theorem Gives.of_free {r : RequestId} (h : m.InOrder free) (hok : m.free r = .ok m') :
    Gives (· = r) m m' := by
  obtain ⟨m₁, free', hok', -, hsetup, hblocks, hmanagers⟩ := free_spec h r
  rw [hok, Except.ok.injEq] at hok'
  subst hok'
  refine ⟨hsetup.maxModelLen, fun c => (hblocks c).1, fun c key hkey => (hblocks c).2 ▸ hkey,
    fun manager' hm' => ?_⟩
  rw [hmanagers] at hm'
  obtain ⟨manager, hm, rfl⟩ := List.mem_map.mp hm'
  refine ⟨manager, hm, fun r' => ⟨fun hr => ?_, fun hr => ?_⟩⟩
  · rw [SingleTypeKVCacheManager.getBlocks_popBlocks, if_pos hr]
  · rw [SingleTypeKVCacheManager.getBlocks_popBlocks, if_neg hr]
    exact ⟨rfl, fun i b hb => Or.inl hb⟩

/-- Shedding puts the null block in the place of some entries. -/
theorem Gives.of_removeSkippedBlocks (h : m.InOrder free)
    (hok : m.removeSkippedBlocks request = .ok m') : Gives (fun _ => False) m m' := by
  obtain ⟨m₁, free', hok', -, hsetup, hblocks, hsheds⟩ := removeSkippedBlocks_spec h request
  rw [hok, Except.ok.injEq] at hok'
  subst hok'
  refine ⟨hsetup.maxModelLen, fun c => (hblocks c).1, fun c key hkey => (hblocks c).2 ▸ hkey,
    fun manager' hm' => ?_⟩
  rcases hsheds with ⟨-, rfl, -⟩ | hsheds
  · exact ⟨manager', hm', fun r => ⟨False.elim, fun _ => ⟨rfl, fun i b hb => Or.inl hb⟩⟩⟩
  obtain ⟨i, hi, rfl⟩ := List.mem_iff_getElem.mp hm'
  have hi₀ : i < m.singleTypeManagers.length := hsheds.length_eq ▸ hi
  have hshed := (List.forall₂_iff_get.mp hsheds).2 i hi₀ hi
  simp only [List.get_eq_getElem] at hshed
  refine ⟨_, List.getElem_mem hi₀, fun r => ⟨False.elim, fun _ => ?_⟩⟩
  generalize m'.singleTypeManagers[i] = manager' at hshed
  generalize m.singleTypeManagers[i] = manager at hshed
  obtain ⟨null, k, hk, hnull, ⟨-, rfl⟩ | rfl⟩ := hshed
  · exact ⟨rfl, fun j b hb => Or.inl hb⟩
  rw [SingleTypeKVCacheManager.getBlocks_setBlocks]
  split
  · rename_i hr
    subst hr
    constructor
    · rw [List.length_append, List.length_replicate, List.length_drop]
      omega
    · intro j b hb
      rw [List.getElem?_append, List.length_replicate] at hb
      split at hb
      · rename_i hlt
        rw [List.getElem?_replicate, if_pos hlt, Option.some.injEq] at hb
        subst hb
        exact Or.inr ((h.books.wf.isNull_iff null).mpr (hnull (by omega)))
      · rename_i hge
        rw [List.getElem?_drop, Nat.add_sub_cancel' (by omega)] at hb
        exact Or.inl hb
  · exact ⟨rfl, fun j b hb => Or.inl hb⟩

/-- A reset takes hashes only. -/
theorem Gives.of_resetPrefixCache (h : m.InOrder free) :
    Gives (fun _ => False) m m.resetPrefixCache.2 := by
  obtain ⟨-, -, hsame, hdone⟩ := h.books.wf.resetPrefixCache
  have htables : ∀ manager' ∈ m.singleTypeManagers, ∃ manager ∈ m.singleTypeManagers,
      ∀ r : RequestId, (False → manager'.getBlocks r = []) ∧
        (¬ False → (manager'.getBlocks r).length = (manager.getBlocks r).length ∧
          ∀ (i : ℕ) (b : BlockId), (manager'.getBlocks r)[i]? = some b →
            (manager.getBlocks r)[i]? = some b ∨ (m.blockPool.blocks b).isNull = true) :=
    fun manager hm => ⟨manager, hm, fun r => ⟨False.elim, fun _ => ⟨rfl, fun i b hb => Or.inl hb⟩⟩⟩
  unfold KVCacheManager.resetPrefixCache
  rcases hdone with ⟨hfalse, -⟩ | ⟨htrue, hnone⟩
  · simp only [hfalse, Bool.false_eq_true, if_false]
    exact ⟨rfl, fun _ => rfl, fun _ _ hkey => hkey, htables⟩
  · simp only [htrue, if_true]
    refine ⟨rfl, fun c => (hsame c).2, fun c key hkey => ?_, htables⟩
    rw [hnone] at hkey
    cases hkey

/-! ### Allocation -/

/-- The front of a table that slots are given behind: what it was, up to the count it starts
from, or the hits that make up that count. -/
def Front (m : KVCacheManager H) (request : Request H) (start blockSize : ℕ)
    (count : RequestId → ℕ) (manager : SingleTypeKVCacheManager) (front : List BlockId) : Prop :=
  front = manager.getBlocks request.requestId ∧ start = count request.requestId ∨
    front.length * blockSize = start ∧ ∀ (i : ℕ) (b : BlockId), front[i]? = some b →
      (m.blockPool.blocks b).isNull = false → ∃ key,
        (m.blockPool.blocks b).blockHash = some key ∧ request.blockHashes[i]? = some key.1

/-- How the tables stand after an allocation for the tokens from `start` on. -/
structure Grows (m m' : KVCacheManager H) (request : Request H) (start n blockSize : ℕ)
    (count : RequestId → ℕ) (news : List BlockId) (mid : BlockPool H) : Prop where
  table : ∀ manager' ∈ m'.singleTypeManagers, ∃ manager ∈ m.singleTypeManagers,
    (∀ r, r ≠ request.requestId → manager'.getBlocks r = manager.getBlocks r) ∧
    ∃ front new, manager'.getBlocks request.requestId = front ++ new ∧ (∀ b ∈ new, b ∈ news) ∧
      new.length = ceilDiv (min (start + n) m.maxModelLen) blockSize - front.length ∧
      Front m request start blockSize count manager front
  maxModelLen : m'.maxModelLen = m.maxModelLen
  fresh : ∀ b ∈ news, (mid.blocks b).blockHash = none ∧
    ∀ manager ∈ m.singleTypeManagers, ∀ r, b ∉ manager.getBlocks r
  stale : ∀ b, b ∉ news → (mid.blocks b).blockHash = (m.blockPool.blocks b).blockHash
  nulls : ∀ b, (m'.blockPool.blocks b).isNull = (m.blockPool.blocks b).isNull ∧
    (mid.blocks b).isNull = (m.blockPool.blocks b).isNull
  marked : ∀ manager ∈ m'.singleTypeManagers, ∀ manager' ∈ m'.singleTypeManagers,
    ∀ (r r' : RequestId) (i i' : ℕ) (b : BlockId), (mid.blocks b).isNull = false →
      (manager.getBlocks r)[i]? = some b → (manager'.getBlocks r')[i']? = some b →
        (mid.blocks b).blockHash = none → manager = manager' ∧ r = r' ∧ i = i'
  published : ∀ b key, (m'.blockPool.blocks b).blockHash = some key →
    (mid.blocks b).blockHash = some key ∨
      (mid.blocks b).blockHash = none ∧ ∃ manager ∈ m'.singleTypeManagers, ∃ i,
        (i + 1) * blockSize ≤ start + n ∧
        (manager.getBlocks request.requestId)[i]? = some b ∧
        request.blockHashes[i]? = some key.1

section Grows

variable {start n : ℕ} {news : List BlockId} {mid : BlockPool H}

omit [DecidableEq H] in
/-- A block that was not emptied for the allocation is none of the new ones. -/
theorem Grows.old (hgrows : Grows m m' request start n blockSize count news mid) {b : BlockId}
    (hhash : (mid.blocks b).blockHash ≠ none) :
    b ∉ news ∧ (m.blockPool.blocks b).blockHash = (mid.blocks b).blockHash := by
  have hold : b ∉ news := fun hmem => hhash (hgrows.fresh b hmem).1
  exact ⟨hold, (hgrows.stale b hold).symm⟩

omit [DecidableEq H] in
/-- A slot at or behind the start is of a block that was not cached before. -/
theorem Grows.unhashed (hgrows : Grows m m' request start n blockSize count news mid)
    (h : Faithful blockSize policy reads entry count m) {manager' : SingleTypeKVCacheManager}
    (hm' : manager' ∈ m'.singleTypeManagers) {i : ℕ} {b : BlockId}
    (hb : (manager'.getBlocks request.requestId)[i]? = some b) {offset : ℕ}
    (hoffset : offset < blockSize) (hstart : start ≤ i * blockSize + offset) :
    (mid.blocks b).blockHash = none := by
  by_contra hhash
  obtain ⟨hnew, hsame⟩ := hgrows.old hhash
  have hbefore : (m.blockPool.blocks b).blockHash ≠ none := by
    rwa [hsame]
  obtain ⟨manager, hm, -, front, new, htable, hnews, -, hfront⟩ := hgrows.table manager' hm'
  have hend : (i + 1) * blockSize ≤ start → False := by
    rw [Nat.succ_mul]
    omega
  rw [htable, List.getElem?_append] at hb
  split at hb
  · rename_i hlt
    rcases hfront with ⟨rfl, hcount⟩ | ⟨hlength, -⟩
    · exact hend (hcount ▸ h.below manager hm _ i b hb hbefore)
    · exact hend (hlength ▸ Nat.mul_le_mul_right _ (Nat.succ_le_of_lt hlt))
  · exact hnew (hnews b (List.mem_of_getElem? hb))

/-- What the span of a request from `start` on is written with, and what is left: all that
is not in its table at or behind the start. -/
structure Rewrites (m' : KVCacheManager H) (r : RequestId) (start n blockSize : ℕ)
    (entry : RequestId → ℕ → KVEntry) (reads reads' : BlockId → ℕ → KVEntry → Prop) : Prop where
  keeps : ∀ b offset e, reads b offset e → offset < blockSize →
    (∀ manager ∈ m'.singleTypeManagers, ∀ i : ℕ, (manager.getBlocks r)[i]? = some b →
      i * blockSize + offset < start) → reads' b offset e
  writes : ∀ manager ∈ m'.singleTypeManagers, ∀ (i : ℕ) (b : BlockId),
    (manager.getBlocks r)[i]? = some b → ∀ offset < blockSize,
      start ≤ i * blockSize + offset → i * blockSize + offset < start + n →
        reads' b offset (entry r (i * blockSize + offset))

omit [DecidableEq H] in
/-- A slot of a block that was cached before stays clear of what is written. -/
theorem Grows.clear (hgrows : Grows m m' request start n blockSize count news mid)
    (h : Faithful blockSize policy reads entry count m)
    (hrewrites : Rewrites m' request.requestId start n blockSize entry reads reads')
    {b : BlockId} (hhash : (mid.blocks b).blockHash ≠ none) {offset : ℕ}
    (hoffset : offset < blockSize) {e : KVEntry} (hread : reads b offset e) :
    reads' b offset e := by
  refine hrewrites.keeps b offset e hread hoffset fun manager' hm' i hb => ?_
  by_contra hstart
  exact hhash (hgrows.unhashed h hm' hb hoffset (Nat.le_of_not_lt hstart))

omit [DecidableEq H] in
/-- So does a slot under a table, but for the span of the request itself. -/
theorem Grows.undisturbed (hgrows : Grows m m' request start n blockSize count news mid)
    (h : Faithful blockSize policy reads entry count m)
    (hrewrites : Rewrites m' request.requestId start n blockSize entry reads reads')
    {manager' : SingleTypeKVCacheManager} (hm' : manager' ∈ m'.singleTypeManagers)
    {r : RequestId} {i : ℕ} {b : BlockId} (hb : (manager'.getBlocks r)[i]? = some b)
    (hnn : (mid.blocks b).isNull = false) {offset : ℕ} (hoffset : offset < blockSize)
    (hbefore : r = request.requestId → i * blockSize + offset < start) {e : KVEntry}
    (hread : reads b offset e) : reads' b offset e := by
  refine hrewrites.keeps b offset e hread hoffset fun manager₂ hm₂ j hb₂ => ?_
  by_contra hstart
  have hnone := hgrows.unhashed h hm₂ hb₂ hoffset (Nat.le_of_not_lt hstart)
  obtain ⟨-, rfl, rfl⟩ := hgrows.marked manager' hm' manager₂ hm₂ r _ i j b hnn hb hb₂ hnone
  exact hstart (hbefore rfl)

omit [DecidableEq H] in
/-- New blocks are for positions from the start on. -/
theorem Grows.behind (hblockSize : 0 < blockSize)
    (h : Faithful blockSize policy reads entry count m) {manager : SingleTypeKVCacheManager}
    (hm : manager ∈ m.singleTypeManagers) {front new : List BlockId}
    (hlength : new.length = ceilDiv (min (start + n) m.maxModelLen) blockSize - front.length)
    (hfront : Front m request start blockSize count manager front) {i : ℕ}
    (hge : front.length ≤ i) (hlt : i < (front ++ new).length) : start ≤ i * blockSize := by
  have hle := Nat.mul_le_mul_right blockSize hge
  rcases hfront with ⟨rfl, hcount⟩ | ⟨heq, -⟩
  · rw [List.length_append] at hlt
    have hneeded : ¬ ceilDiv (min (start + n) m.maxModelLen) blockSize ≤ i := by omega
    rw [ceilDiv_le_iff hblockSize] at hneeded
    have hreach := h.reach manager hm request.requestId
    omega
  · omega

omit [DecidableEq H] in
/-- A request whose blocks are hashed has all the tokens of a block that has a hash. -/
theorem hashed_reach (hblockSize : 0 < blockSize)
    (hpolicy : ∀ hasher, policy = some hasher → hasher.blockSize = blockSize)
    (hhashed : request.HashedAs policy) {i : ℕ} {blockHash : H}
    (hhash : request.blockHashes[i]? = some blockHash) :
    (i + 1) * blockSize ≤ request.numTokens := by
  cases hsome : policy with
  | none =>
      rw [hsome] at hhashed
      rw [hhashed.2] at hhash
      cases hhash
  | some hasher =>
      rw [hsome] at hhashed
      obtain ⟨hlt, -⟩ := List.getElem?_eq_some_iff.mp hhash
      rw [Request.Hashed.length hhashed, hpolicy hasher hsome] at hlt
      exact (Nat.le_div_iff_mul_le hblockSize).mp (Nat.succ_le_of_lt hlt)

omit [DecidableEq H] in
/-- Requests hashed under a policy without collisions that have a hash in common. -/
theorem hashed_agree {a b : Request H} {i j : ℕ} {blockHash : H}
    (hpolicy : ∀ hasher, policy = some hasher →
      Function.Injective hasher.hashFn ∧ hasher.blockSize = blockSize)
    (ha : a.HashedAs policy) (hb : b.HashedAs policy)
    (hi : a.blockHashes[i]? = some blockHash) (hj : b.blockHashes[j]? = some blockHash) :
    i = j ∧ ∀ position < (i + 1) * blockSize,
      a.kvEntry [] blockSize position = b.kvEntry [] blockSize position := by
  cases hsome : policy with
  | none =>
      rw [hsome] at ha
      rw [ha.2] at hi
      cases hi
  | some hasher =>
      rw [hsome] at ha hb
      obtain ⟨hinjective, rfl⟩ := hpolicy hasher hsome
      exact Request.kvEntry_agree hinjective ha hb hi hj

omit [DecidableEq H] in
theorem Faithful.grows_tables (h : Faithful blockSize policy reads entry count m)
    (hgrows : Grows m m' request start n blockSize count news mid) (hblockSize : 0 < blockSize)
    (hpolicy : ∀ hasher, policy = some hasher → hasher.blockSize = blockSize)
    (hhashed : request.HashedAs policy)
    (hentry : ∀ position < request.numTokens,
      entry request.requestId position = request.kvEntry [] blockSize position)
    (hrewrites : Rewrites m' request.requestId start n blockSize entry reads reads')
    {manager' : SingleTypeKVCacheManager} (hm' : manager' ∈ m'.singleTypeManagers)
    {r : RequestId} {i : ℕ} {b : BlockId} (hb : (manager'.getBlocks r)[i]? = some b)
    (hnn : (m'.blockPool.blocks b).isNull = false) {offset : ℕ} (hoffset : offset < blockSize)
    (hlt : i * blockSize + offset <
      Function.update count request.requestId (start + n) r) :
    reads' b offset (entry r (i * blockSize + offset)) := by
  rw [(hgrows.nulls b).1] at hnn
  have hmid := (hgrows.nulls b).2.trans hnn
  obtain ⟨manager, hm, hothers, front, new, htable, hnews, hlength, hfront⟩ :=
    hgrows.table manager' hm'
  by_cases hr : r = request.requestId
  · subst hr
    rw [Function.update_self] at hlt
    rcases Nat.lt_or_ge (i * blockSize + offset) start with hbefore | hbehind
    · -- before the start: in the front, where it was read already
      refine hgrows.undisturbed h hrewrites hm' hb hmid hoffset (fun _ => hbefore) ?_
      rw [htable] at hb
      have hin : i < front.length := by
        by_contra hge
        have hstart := Grows.behind hblockSize h hm hlength hfront (Nat.le_of_not_lt hge)
          (List.getElem?_eq_some_iff.mp hb).1
        omega
      rw [List.getElem?_append_left hin] at hb
      rcases hfront with ⟨rfl, hcount⟩ | ⟨-, hhits⟩
      · exact h.tables manager hm _ i b hb hnn offset hoffset (hcount ▸ hbefore)
      · obtain ⟨key, hkey, hhash⟩ := hhits i b hb hnn
        have hreach := hashed_reach hblockSize hpolicy hhashed hhash
        rw [Nat.succ_mul] at hreach
        rw [hentry _ (by omega)]
        exact h.cached b key hkey request hhashed i hhash offset hoffset
    · exact hrewrites.writes manager' hm' i b hb offset hoffset hbehind hlt
  · rw [Function.update_of_ne hr] at hlt
    refine hgrows.undisturbed h hrewrites hm' hb hmid hoffset (fun heq => absurd heq hr) ?_
    exact h.tables manager hm r i b (hothers r hr ▸ hb) hnn offset hoffset hlt

omit [DecidableEq H] in
theorem Faithful.grows_cached (h : Faithful blockSize policy reads entry count m)
    (hgrows : Grows m m' request start n blockSize count news mid) (hblockSize : 0 < blockSize)
    (hnull : ∀ c, (m'.blockPool.blocks c).isNull = true → (m'.blockPool.blocks c).blockHash = none)
    (hpolicy : ∀ hasher, policy = some hasher →
      Function.Injective hasher.hashFn ∧ hasher.blockSize = blockSize)
    (hhashed : request.HashedAs policy)
    (hentry : ∀ position < request.numTokens,
      entry request.requestId position = request.kvEntry [] blockSize position)
    (hrewrites : Rewrites m' request.requestId start n blockSize entry reads reads')
    {b : BlockId} {key : BlockHashWithGroupId H}
    (hkey : (m'.blockPool.blocks b).blockHash = some key) {other : Request H}
    (hother : other.HashedAs policy) {i : ℕ} (hi : other.blockHashes[i]? = some key.1) {offset : ℕ}
    (hoffset : offset < blockSize) :
    reads' b offset (other.kvEntry [] blockSize (i * blockSize + offset)) := by
  rcases hgrows.published b key hkey with hmid | ⟨hnone, manager', hm', j, hle, hb, hj⟩
  · have hne : (mid.blocks b).blockHash ≠ none := by
      rw [hmid]
      exact Option.some_ne_none _
    exact hgrows.clear h hrewrites hne hoffset
      (h.cached b key ((hgrows.old hne).2.trans hmid) other hother i hi offset hoffset)
  · -- the block was published for the request, and is read as the table of the request is
    obtain ⟨rfl, hagree⟩ := hashed_agree hpolicy hhashed hother hj hi
    have hsize := fun hasher hsome => (hpolicy hasher hsome).2
    have hreach := hashed_reach hblockSize hsize hhashed hj
    have hposition : j * blockSize + offset < (j + 1) * blockSize := by
      rw [Nat.succ_mul]
      omega
    rw [← hagree _ hposition, ← hentry _ (by omega)]
    refine h.grows_tables hgrows hblockSize hsize hhashed hentry hrewrites hm' hb
      (hashed_not_null hnull hkey) hoffset ?_
    rw [Function.update_self]
    omega

omit [DecidableEq H] in
theorem Faithful.grows_below (h : Faithful blockSize policy reads entry count m)
    (hgrows : Grows m m' request start n blockSize count news mid)
    (hnull : ∀ c, (m'.blockPool.blocks c).isNull = true → (m'.blockPool.blocks c).blockHash = none)
    {manager' : SingleTypeKVCacheManager} (hm' : manager' ∈ m'.singleTypeManagers)
    {r : RequestId} {i : ℕ} {b : BlockId} (hb : (manager'.getBlocks r)[i]? = some b)
    (hhash : (m'.blockPool.blocks b).blockHash ≠ none) :
    (i + 1) * blockSize ≤ Function.update count request.requestId (start + n) r := by
  obtain ⟨key, hkey⟩ := Option.ne_none_iff_exists'.mp hhash
  rcases hgrows.published b key hkey with hbefore | ⟨hnone, manager₂, hm₂, j, hle, hb₂, -⟩
  · obtain ⟨manager, hm, hothers, front, new, htable, hnews, -, hfront⟩ := hgrows.table manager' hm'
    have hne : (mid.blocks b).blockHash ≠ none := by
      rw [hbefore]
      exact Option.some_ne_none _
    obtain ⟨hold, hsame⟩ := hgrows.old hne
    rw [← hsame] at hne
    by_cases hr : r = request.requestId
    · subst hr
      rw [Function.update_self]
      rw [htable, List.getElem?_append] at hb
      split at hb
      · rename_i hlt
        rcases hfront with ⟨rfl, rfl⟩ | ⟨rfl, -⟩
        · exact (h.below manager hm _ i b hb hne).trans (Nat.le_add_right _ _)
        · exact (Nat.mul_le_mul_right _ (Nat.succ_le_of_lt hlt)).trans (Nat.le_add_right _ _)
      · exact absurd (hnews b (List.mem_of_getElem? hb)) hold
    · rw [Function.update_of_ne hr]
      exact h.below manager hm r i b (hothers r hr ▸ hb) hne
  · -- the block was published for the request, and is in no other place
    have hmid : (mid.blocks b).isNull = false := by
      rw [(hgrows.nulls b).2, ← (hgrows.nulls b).1]
      exact hashed_not_null hnull hkey
    obtain ⟨-, rfl, rfl⟩ := hgrows.marked manager' hm' manager₂ hm₂ r _ i j b hmid hb hb₂ hnone
    rw [Function.update_self]
    exact hle

omit [DecidableEq H] in
/-- Slots that are given, and then written, read what they are taken for. -/
theorem Faithful.grows (h : Faithful blockSize policy reads entry count m)
    (hgrows : Grows m m' request start n blockSize count news mid) (hblockSize : 0 < blockSize)
    (hnull : ∀ c, (m'.blockPool.blocks c).isNull = true → (m'.blockPool.blocks c).blockHash = none)
    (hpolicy : ∀ hasher, policy = some hasher →
      Function.Injective hasher.hashFn ∧ hasher.blockSize = blockSize)
    (hhashed : request.HashedAs policy)
    (hentry : ∀ position < request.numTokens,
      entry request.requestId position = request.kvEntry [] blockSize position)
    (hrewrites : Rewrites m' request.requestId start n blockSize entry reads reads') :
    Faithful blockSize policy reads' entry
      (Function.update count request.requestId (start + n)) m' where
  tables manager' hm' r i b hb hnn offset hoffset hlt :=
    h.grows_tables hgrows hblockSize (fun hasher hsome => (hpolicy hasher hsome).2) hhashed hentry
      hrewrites hm' hb hnn hoffset hlt
  cached b key hkey other hother i hi offset hoffset :=
    h.grows_cached hgrows hblockSize hnull hpolicy hhashed hentry hrewrites hkey hother hi hoffset
  below manager' hm' r i b hb hhash := h.grows_below hgrows hnull hm' hb hhash
  reach manager' hm' r := by
    obtain ⟨manager, hm, hothers, front, new, htable, -, hlength, -⟩ := hgrows.table manager' hm'
    rw [hgrows.maxModelLen]
    by_cases hr : r = request.requestId
    · subst hr
      rw [Function.update_self, htable, List.length_append, ← ceilDiv_le_iff hblockSize]
      omega
    · rw [Function.update_of_ne hr, hothers r hr]
      exact h.reach manager hm r

end Grows

/-! ### What allocation does to the tables -/

section Allocates

variable {per news : List (List BlockId)} {numTokens start n : ℕ} {published : Option ℕ}
  {adopted : List SingleTypeKVCacheManager} {mid : BlockPool H}

/-- A table after an allocation: what it was, or where hits were taken over the hits, and
behind that as many new blocks as it is short of. -/
theorem Allocates.front {P : SingleTypeKVCacheManager → List BlockId → Prop}
    (halloc : Allocates m m' free free' request per news numTokens published adopted mid)
    (hper : List.Forall₂ P m.singleTypeManagers per)
    {manager' : SingleTypeKVCacheManager} (hm : manager' ∈ m'.singleTypeManagers) :
    ∃ manager ∈ m.singleTypeManagers,
      (∀ r, r ≠ request.requestId → manager'.getBlocks r = manager.getBlocks r) ∧
      ∃ front new, manager'.getBlocks request.requestId = front ++ new ∧
        (∀ b ∈ new, b ∈ news.flatten) ∧
        new.length = ceilDiv numTokens manager.kvCacheSpec.blockSize - front.length ∧
        (m.cachedBlocks per = [] ∧ front = manager.getBlocks request.requestId ∨
          m.cachedBlocks per ≠ [] ∧ P manager front) := by
  rw [halloc.managers_eq] at hm
  obtain ⟨i, hi, rfl⟩ := List.mem_iff_getElem.mp hm
  rw [List.length_zipWith, lt_min_iff] at hi
  have hlength := congrArg (fun l => l[i]?) halloc.news_length
  simp only [List.getElem?_map, List.getElem?_eq_getElem hi.1, List.getElem?_eq_getElem hi.2,
    Option.map_some, Option.some.injEq] at hlength
  rw [List.getElem_zipWith]
  have hnew : ∀ b ∈ news[i], b ∈ news.flatten := fun b hb =>
    List.mem_flatten.mpr ⟨_, List.getElem_mem hi.2, hb⟩
  rcases halloc.adopted_eq with ⟨hnone, rfl⟩ | ⟨hsome, hper_length, -, rfl⟩
  · refine ⟨m.singleTypeManagers[i], List.getElem_mem hi.1, fun r hr => ?_, _, news[i], ?_, hnew,
      hlength, Or.inl ⟨hnone, rfl⟩⟩
    · rw [SingleTypeKVCacheManager.getBlocks_extend, if_neg hr]
    · rw [SingleTypeKVCacheManager.getBlocks_extend, if_pos rfl]
  · have hi₁ := hi.1
    rw [List.length_zipWith, lt_min_iff] at hi₁
    rw [List.getElem_zipWith] at hlength
    refine ⟨m.singleTypeManagers[i], List.getElem_mem hi₁.1, fun r hr => ?_, per[i], news[i], ?_,
      hnew, ?_, Or.inr ⟨hsome, (List.forall₂_iff_get.mp hper).2 i hi₁.1 hi₁.2⟩⟩
    · rw [List.getElem_zipWith, SingleTypeKVCacheManager.getBlocks_extend, if_neg hr,
        SingleTypeKVCacheManager.getBlocks_setBlocks, if_neg hr]
    · rw [List.getElem_zipWith, SingleTypeKVCacheManager.getBlocks_extend, if_pos rfl,
        SingleTypeKVCacheManager.getBlocks_setBlocks, if_pos rfl]
    · rw [hlength, SingleTypeKVCacheManager.numMissingBlocks,
        SingleTypeKVCacheManager.getBlocks_setBlocks, if_pos rfl]
      rfl

/-- An allocation for the tokens from `start` on, behind the fronts that are due. -/
theorem Allocates.grows {P : SingleTypeKVCacheManager → List BlockId → Prop}
    (halloc : Allocates m m' free free' request per news numTokens published adopted mid)
    (h : m.InOrder free) (hmarks : m.Marks hashes)
    (hsame : hashes request.requestId = request.blockHashes)
    (hhits : m.Hits request per) (hfilled : m.Filled per)
    (hsize : m.kvCacheConfig.blockSize = blockSize)
    (hper : List.Forall₂ P m.singleTypeManagers per)
    (hfront : ∀ manager ∈ m.singleTypeManagers, ∀ front,
      (m.cachedBlocks per = [] ∧ front = manager.getBlocks request.requestId ∨
        m.cachedBlocks per ≠ [] ∧ P manager front) →
      Front m request start blockSize count manager front)
    (hnumTokens : numTokens = min (start + n) m.maxModelLen)
    (hpublished : ∀ k, published = some k → k * blockSize ≤ start + n) :
    Grows m m' request start n blockSize count news.flatten mid where
  table manager' hm' := by
    obtain ⟨manager, hm, hothers, front, new, htable, hnews, hlength, hcases⟩ :=
      halloc.front hper hm'
    rw [h.blockSize_eq hm, hsize, hnumTokens] at hlength
    exact ⟨manager, hm, hothers, front, new, htable, hnews, hlength, hfront manager hm front hcases⟩
  maxModelLen := halloc.setup.maxModelLen
  fresh b hb := by
    refine ⟨?_, fun manager hm r hheld => halloc.held_not_new h hm hheld hb⟩
    rw [halloc.mid_blocks, if_pos hb]
  stale b hb := by
    rw [halloc.mid_blocks, if_neg hb]
    rfl
  nulls b := by
    have hnull := isNull_congr h halloc.order halloc.setup b
    refine ⟨hnull, ?_⟩
    cases hp : published with
    | none =>
        have hpool := halloc.pool_eq
        rw [hp] at hpool
        exact hpool ▸ hnull
    | some k =>
        have hpool := halloc.pool_eq
        rw [hp] at hpool
        exact (hpool.same b).2.symm.trans hnull
  marked manager hm manager' hm' r r' i i' b hnn hb hb' hnone :=
    (hmarks.adopts h hsame hhits hfilled halloc).published_of_two halloc.mid_books hm hm' hnn hb
      hb' hnone
  published b key hkey := by
    cases hp : published with
    | none =>
        have hpool := halloc.pool_eq
        rw [hp] at hpool
        exact Or.inl (hpool ▸ hkey)
    | some k =>
        have hpool := halloc.pool_eq
        rw [hp] at hpool
        by_cases hnone : (mid.blocks b).blockHash = none
        · -- it had no hash before, so it is published now and lies in what is full
          obtain ⟨manager, hm, i, hi, hb, hhash, -⟩ := hpool.sound b key hkey hnone
          refine Or.inr ⟨hnone, manager, hm, i, ?_, hb, hhash⟩
          exact (Nat.mul_le_mul_right _ (Nat.succ_le_of_lt hi)).trans (hpublished k hp)
        · rw [hpool.keeps b hnone] at hkey
          exact Or.inl hkey

omit [DecidableEq H] in
theorem publishedBlocks_le {k numNewTokens numNewComputedTokens : ℕ} {delay : Bool}
    (hsize : m.kvCacheConfig.blockSize = blockSize)
    (h : m.publishedBlocks request numNewTokens numNewComputedTokens delay = some k) :
    k * blockSize ≤ request.numComputedTokens + numNewComputedTokens + numNewTokens := by
  unfold publishedBlocks at h
  split at h
  · rw [← Option.some.inj h, numFullBlocks, hsize]
    exact (Nat.mul_le_mul_right _ (Nat.min_le_left _ _)).trans (Nat.div_mul_le_self _ _)
  · cases h

/-- Slots for a running request go behind its tables. -/
theorem allocateSlots_grows {blocks : List (List BlockId)} (h : m.InOrder free)
    (hmarks : m.Marks hashes) (hsame : hashes request.requestId = request.blockHashes)
    (hsize : m.kvCacheConfig.blockSize = blockSize)
    (hcount : count request.requestId = request.numComputedTokens)
    (hok : m.allocateSlots request n 0 none 0 false = .ok (some blocks, m')) :
    ∃ news mid, Grows m m' request request.numComputedTokens n blockSize count news mid := by
  have hhits : ∀ hits, none = some hits → Hits m request hits := fun _ hnone => by cases hnone
  have hper := perGroupCached_hits hhits fun _ hnone => by cases hnone
  rcases allocateSlots_ok h (cachedBlocks_lt h hhits) hok with
    ⟨hnone, -⟩ | ⟨news, free', adopted, mid, -, halloc⟩
  · cases hnone
  have hnone : m.cachedBlocks (m.perGroupCached none) = [] := by
    unfold cachedBlocks perGroupCached
    simp [emptyBlocks]
  refine ⟨news.flatten, mid, halloc.grows h hmarks hsame hper.1 hper.2 hsize
    (P := fun _ _ => True) ?_ (fun manager hm front hcases => ?_) ?_ fun k hk => ?_⟩
  · exact hper.1.imp fun _ _ _ => trivial
  · rcases hcases with ⟨-, rfl⟩ | ⟨hsome, -⟩
    · exact Or.inl ⟨rfl, hcount.symm⟩
    · exact absurd hnone hsome
  · rfl
  · exact publishedBlocks_le hsize hk

/-- Slots for a request that is let in go behind its hits. -/
theorem allocateSlots_grows_admitted {hits blocks : List (List BlockId)} {k : ℕ}
    (h : m.InOrder free) (hmarks : m.Marks hashes)
    (hsame : hashes request.requestId = request.blockHashes)
    (hsize : m.kvCacheConfig.blockSize = blockSize) (hidle : m.Idle request.requestId)
    (hhits : m.Hits request hits) (hfound : m.FoundBlocks k hits) (hfilled : m.Filled hits)
    (hcount : request.numComputedTokens = 0)
    (hok : m.allocateSlots request n (k * blockSize) (some hits) 0 false =
      .ok (some blocks, m')) :
    ∃ news mid, Grows m m' request (k * blockSize) n blockSize count news mid := by
  rcases allocateSlots_ok h (cachedBlocks_lt h fun _ heq => Option.some.inj heq ▸ hhits) hok with
    ⟨hnone, -⟩ | ⟨news, free', adopted, mid, -, halloc⟩
  · cases hnone
  rw [hfound.perGroupCached_eq] at halloc
  have hboth : List.Forall₂ (fun manager blocks => blocks.length = k ∧ ∀ i b, blocks[i]? = some b →
      (m.blockPool.blocks b).isNull = false →
        cachedAt m.blockPool manager.kvCacheGroupId request.blockHashes i = some b)
      m.singleTypeManagers hits :=
    List.forall₂_iff_get.mpr ⟨hfound.length_eq, fun i hi hi' =>
      ⟨((List.forall₂_iff_get.mp hfound).2 i hi hi').1, (List.forall₂_iff_get.mp hhits).2 i hi hi'⟩⟩
  refine ⟨news.flatten, mid, halloc.grows h hmarks hsame hhits hfilled hsize hboth
    (fun manager hm front hcases => Or.inr ?_) ?_ fun j hj => ?_⟩
  · rcases hcases with ⟨hnone, rfl⟩ | ⟨-, hlength, hcached⟩
    · rw [hidle manager hm]
      have hempty := hfound.of_cachedBlocks_nil hnone
      obtain ⟨i, hi, -⟩ := List.mem_iff_getElem.mp hm
      have hi' : i < hits.length := hfound.length_eq ▸ hi
      obtain ⟨hlength, -⟩ := (List.forall₂_iff_get.mp hfound).2 i hi hi'
      have hzero : k = 0 := by
        rw [← hlength]
        simp [hempty, emptyBlocks]
      exact ⟨by rw [hzero]; simp, fun i b hb => by simp at hb⟩
    · refine ⟨by rw [hlength], fun i b hb hnn => ?_⟩
      obtain ⟨blockHash, hhash, hkey⟩ := cachedAt_hash h.books.wf.toIndexed (hcached i b hb hnn)
      exact ⟨_, hkey, hhash⟩
  · unfold numTokensNeedingSlots
    rw [hcount, Nat.zero_add, Nat.add_zero]
  · have hle := publishedBlocks_le hsize hj
    omega

end Allocates

end KVCacheManager

end Pvllm
