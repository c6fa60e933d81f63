import Pvllm.Core.Tables
import Pvllm.Core.Accounting
import Pvllm.Core.HitShape

/-!
The tables of a request that is admitted.

An admission starts from empty tables. What its lookup found goes in front, group by
group, and the blocks taken off the queue behind; none of these is among the hits.
-/

namespace Pvllm

namespace KVCacheManager

variable {H : Type} [DecidableEq H] {m m' : KVCacheManager H} {free : List BlockId}
  {request : Request H} {hits : List (List BlockId)} {k : ℕ}

/-- What a lookup that found `k` blocks for each group answers. -/
def FoundBlocks (m : KVCacheManager H) (k : ℕ) (hits : List (List BlockId)) : Prop :=
  List.Forall₂ (fun manager blocks =>
    blocks.length = k ∧ Shaped m.blockPool manager.kvCacheSpec blocks) m.singleTypeManagers hits

omit [DecidableEq H] in
/-- Hits without a block are no hits. -/
theorem FoundBlocks.of_cachedBlocks_nil (h : m.FoundBlocks k hits)
    (hnone : m.cachedBlocks hits = []) : hits = m.emptyBlocks := by
  have hall : ∀ blocks ∈ hits, blocks = [] := by
    intro blocks hblocks
    obtain ⟨i, hi, rfl⟩ := List.mem_iff_getElem.mp hblocks
    have hlen := h.length_eq
    obtain ⟨-, hshaped⟩ := List.forall₂_iff_get.mp h |>.2 i (by omega) hi
    by_contra hne
    obtain ⟨b, hb⟩ : ∃ b, hits[i].getLast? = some b :=
      ⟨_, List.getLast?_eq_some_getLast hne⟩
    have hnull := hshaped.last b hb
    have hmem : b ∈ m.cachedBlocks hits := by
      unfold cachedBlocks
      rw [List.mem_filter]
      exact ⟨List.mem_flatten.mpr ⟨_, hblocks, List.mem_of_getLast? hb⟩, by simp [hnull]⟩
    rw [hnone] at hmem
    cases hmem
  unfold emptyBlocks
  apply List.ext_getElem
  · rw [List.length_map, h.length_eq]
  · intro i hi hi'
    rw [hall _ (List.getElem_mem hi), List.getElem_map]

omit [DecidableEq H] in
/-- An allocation works with the hits a lookup answered. -/
theorem FoundBlocks.perGroupCached_eq (h : m.FoundBlocks k hits) :
    m.perGroupCached (some hits) = hits := by
  unfold perGroupCached
  dsimp only
  split
  · rfl
  · rename_i hzero
    rw [not_not] at hzero
    refine (h.of_cachedBlocks_nil ?_).symm
    have hflat : hits.flatten = [] := by
      rw [← List.length_eq_zero_iff, List.length_flatten, hzero]
    unfold cachedBlocks
    rw [hflat, List.filter_nil]

/-- The tables an admission leaves: the hits, and behind them blocks that were
free. -/
theorem allocateSlots_getBlocks (h : m.InOrder free) (hidle : m.Idle request.requestId)
    (hhits : m.Hits request hits) (hfound : m.FoundBlocks k hits)
    {n numComputed : ℕ} {blocks : List (List BlockId)}
    (hok : m.allocateSlots request n numComputed (some hits) 0 false = .ok (some blocks, m')) :
    ∃ news, m'.getBlocks request.requestId = hits.zipWith (· ++ ·) news ∧
      news.length = hits.length ∧ ∀ b ∈ hits.flatten, b ∉ news.flatten := by
  rcases allocateSlots_ok h (cachedBlocks_lt h fun _ heq => Option.some.inj heq ▸ hhits) hok with
    ⟨hnone, -⟩ | ⟨news, free', adopted, mid, -, halloc⟩
  · cases hnone
  rw [hfound.perGroupCached_eq] at halloc
  refine ⟨news, ?_, ?_, fun b hb hnew => ?_⟩
  · rw [halloc.getBlocks_self]
    rcases halloc.adopted_getBlocks with ⟨hnone, heq⟩ | ⟨-, heq⟩
    · rw [heq, hfound.of_cachedBlocks_nil hnone]
      congr 1
      unfold getBlocks emptyBlocks
      exact List.map_congr_left fun manager hm => hidle manager hm
    · rw [heq]
  · have hlen := congrArg List.length halloc.news_length
    rw [List.length_map, List.length_map] at hlen
    rw [hlen, ← hfound.length_eq]
    rcases halloc.adopted_eq with ⟨-, rfl⟩ | ⟨-, hlength, -, rfl⟩
    · rfl
    · rw [List.length_zipWith, hlength, Nat.min_self]
  · rw [halloc.news_flatten] at hnew
    have hdiff := List.mem_of_mem_take hnew
    have hfree := (List.diff_sublist ..).subset hdiff
    have hnull := h.books.wf.not_null_of_mem hfree
    have hcached : b ∈ m.cachedBlocks hits := by
      unfold cachedBlocks
      rw [List.mem_filter]
      exact ⟨hb, by simp [hnull]⟩
    rw [h.books.wf.queue.nodup.mem_sdiff_iff] at hdiff
    exact hdiff.2 hcached

end KVCacheManager

end Pvllm
