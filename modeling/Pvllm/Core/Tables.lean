import Pvllm.Core.Allocation

/-!
The tables of a request after each call.

`getBlocks` is the list of a request's tables, one for each group. A call
touches the tables of the request it is for and of no other; `Idle` says that a
request holds nothing.
-/

namespace Pvllm

variable {H : Type} [DecidableEq H]

namespace KVCacheManager

variable {m m' : KVCacheManager H} {free free' : List BlockId} {request : Request H}
  {r : RequestId}

/-- The request holds no block in any group. -/
def Idle (m : KVCacheManager H) (r : RequestId) : Prop :=
  ∀ manager ∈ m.singleTypeManagers, manager.getBlocks r = []

omit [DecidableEq H] in
theorem idle_iff : m.Idle r ↔ ∀ blocks ∈ m.getBlocks r, blocks = [] := by
  simp [Idle, getBlocks]

omit [DecidableEq H] in
theorem Idle.of_getBlocks_eq (h : m.Idle r) (heq : m'.getBlocks r = m.getBlocks r) :
    m'.Idle r := by
  rw [idle_iff, heq]
  exact idle_iff.mp h

theorem map_getBlocks_zipWith {β : Type*}
    {f : SingleTypeKVCacheManager → β → SingleTypeKVCacheManager}
    (hf : ∀ manager b, (f manager b).getBlocks r = manager.getBlocks r)
    {managers : List SingleTypeKVCacheManager} {l : List β} (hlen : l.length = managers.length) :
    (managers.zipWith f l).map (·.getBlocks r) = managers.map (·.getBlocks r) := by
  induction managers generalizing l with
  | nil => simp
  | cons manager managers ih =>
      cases l with
      | nil => cases hlen
      | cons b l =>
          rw [List.zipWith_cons_cons, List.map_cons, List.map_cons, hf, ih (by simpa using hlen)]

section Allocates

variable {hits news : List (List BlockId)} {numTokens : ℕ} {published : Option ℕ}
  {adopted : List SingleTypeKVCacheManager} {mid : BlockPool H}

/-- An allocation leaves the tables of every other request alone. -/
theorem Allocates.getBlocks_of_ne
    (h : Allocates m m' free free' request hits news numTokens published adopted mid)
    (hr : r ≠ request.requestId) : m'.getBlocks r = m.getBlocks r := by
  have hlen : news.length = adopted.length := by simpa using congrArg List.length h.news_length
  unfold getBlocks
  rw [h.managers_eq, map_getBlocks_zipWith (fun manager blocks => by simp [hr]) hlen]
  rcases h.adopted_eq with ⟨-, rfl⟩ | ⟨-, hlen', -, rfl⟩
  · rfl
  · exact map_getBlocks_zipWith (fun manager blocks => by simp [hr]) hlen'

/-- The request's tables after an allocation: what they were, or the hits where these
were adopted, and then the new blocks. -/
theorem Allocates.getBlocks_self
    (h : Allocates m m' free free' request hits news numTokens published adopted mid) :
    m'.getBlocks request.requestId =
      ((adopted.map (·.getBlocks request.requestId)).zipWith (· ++ ·) news) := by
  unfold getBlocks
  rw [h.managers_eq, List.map_zipWith, List.zipWith_map_left]
  simp

/-- The tables the new blocks go behind. -/
theorem Allocates.adopted_getBlocks
    (h : Allocates m m' free free' request hits news numTokens published adopted mid) :
    m.cachedBlocks hits = [] ∧
        adopted.map (·.getBlocks request.requestId) = m.getBlocks request.requestId ∨
      m.cachedBlocks hits ≠ [] ∧ adopted.map (·.getBlocks request.requestId) = hits := by
  rcases h.adopted_eq with ⟨hnone, rfl⟩ | ⟨hsome, hlen, -, rfl⟩
  · exact Or.inl ⟨hnone, rfl⟩
  · refine Or.inr ⟨hsome, ?_⟩
    rw [List.map_zipWith]
    simp only [SingleTypeKVCacheManager.getBlocks_setBlocks, if_true]
    rw [← List.map_uncurry_zip_eq_zipWith]
    exact List.map_snd_zip hlen.le

end Allocates

theorem getComputedBlocks_getBlocks {result : List (List BlockId) × ℕ} (h : m.InOrder free)
    (hok : m.getComputedBlocks request = .ok (result, m')) (r : RequestId) :
    m'.getBlocks r = m.getBlocks r := by
  obtain ⟨hits, n⟩ := result
  obtain ⟨-, -, hmanagers, -⟩ := getComputedBlocks_ok h hok
  rw [getBlocks, getBlocks, hmanagers]

theorem free_getBlocks (h : m.InOrder free) (hok : m.free r = .ok m') (r' : RequestId) :
    m'.getBlocks r' = if r' = r then m.emptyBlocks else m.getBlocks r' := by
  obtain ⟨m₁, -, hok', -, -, -, hmanagers⟩ := free_spec h r
  rw [hok, Except.ok.injEq] at hok'
  subst hok'
  rw [getBlocks, hmanagers, List.map_map]
  split
  · rename_i hr
    exact List.map_congr_left fun manager _ => by simp [hr]
  · rename_i hr
    exact List.map_congr_left fun manager _ => by simp [hr]

theorem free_idle (h : m.InOrder free) (hok : m.free r = .ok m') : m'.Idle r := by
  rw [idle_iff, free_getBlocks h hok, if_pos rfl]
  simp [emptyBlocks]

theorem free_getBlocks_of_ne (h : m.InOrder free) (hok : m.free r = .ok m') {r' : RequestId}
    (hr : r' ≠ r) : m'.getBlocks r' = m.getBlocks r' := by
  rw [free_getBlocks h hok, if_neg hr]

theorem removeSkippedBlocks_getBlocks_of_ne (h : m.InOrder free)
    (hok : m.removeSkippedBlocks request = .ok m') (hr : r ≠ request.requestId) :
    m'.getBlocks r = m.getBlocks r := by
  obtain ⟨m₁, free₁, hok', -, -, -, hsheds⟩ := removeSkippedBlocks_spec h request
  rw [hok, Except.ok.injEq] at hok'
  subst hok'
  rcases hsheds with ⟨-, rfl, -⟩ | hsheds
  · rfl
  · rw [getBlocks, getBlocks, ← List.forall₂_eq_eq_eq, List.forall₂_map_left_iff,
      List.forall₂_map_right_iff]
    refine hsheds.flip.imp fun manager' manager hshed => ?_
    obtain ⟨-, -, -, -, ⟨-, rfl⟩ | rfl⟩ := hshed
    · rfl
    · simp [hr]

/-! ### In order, whatever is called -/

theorem free_inOrder (h : m.InOrder free) (hok : m.free r = .ok m') :
    ∃ free', m'.InOrder free' ∧ SameSetup m m' := by
  obtain ⟨m₁, free', hok', h', hsetup, -⟩ := free_spec h r
  rw [hok, Except.ok.injEq] at hok'
  subst hok'
  exact ⟨free', h', hsetup⟩

theorem removeSkippedBlocks_inOrder (h : m.InOrder free)
    (hok : m.removeSkippedBlocks request = .ok m') :
    ∃ free', m'.InOrder free' ∧ SameSetup m m' := by
  obtain ⟨m₁, free', hok', h', hsetup, -⟩ := removeSkippedBlocks_spec h request
  rw [hok, Except.ok.injEq] at hok'
  subst hok'
  exact ⟨free', h', hsetup⟩

theorem getComputedBlocks_inOrder {result : List (List BlockId) × ℕ} (h : m.InOrder free)
    (hok : m.getComputedBlocks request = .ok (result, m')) :
    m'.InOrder free ∧ SameSetup m m' := by
  obtain ⟨hits, n⟩ := result
  obtain ⟨hsetup, hpool, hmanagers, -⟩ := getComputedBlocks_ok h hok
  exact ⟨h.of_sameSetup hsetup (by rw [hpool, hmanagers]; exact h.books), hsetup⟩

end KVCacheManager

end Pvllm
