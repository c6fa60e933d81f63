import Pvllm.Core.Sched.Update

/-!
Where each request is.

`Partition` says that the known requests are the running and the waiting ones,
each once, that a status tells which, and that only running requests hold
blocks. It speaks of the parts of a scheduler it is about rather than of the
scheduler: `schedule` and `update_from_output` pass through states in which the
lists are between two values. The lemmas of the section say what each change to
these parts keeps.
-/

namespace Pvllm

variable {H : Type} [DecidableEq H]

omit [DecidableEq H] in
/-- The request waits, with nothing computed. -/
structure Request.Queued (request : Request H) : Prop where
  status : request.status = .waiting ∨ request.status = .waitingForStructuredOutputGrammar ∨
    request.status = .preempted
  numComputedTokens : request.numComputedTokens = 0

omit [DecidableEq H] in
theorem Request.Queued.not_running {request : Request H} (h : request.Queued) :
    request.status ≠ .running := by
  rcases h.status with hs | hs | hs <;> rw [hs] <;> decide

omit [DecidableEq H] in
theorem Request.Queued.not_finished {request : Request H} (h : request.Queued) :
    request.isFinished = false := by
  unfold Request.isFinished
  rcases h.status with hs | hs | hs <;> rw [hs] <;> rfl

structure Partition (request : RequestId → Request H) (kv : KVCacheManager H)
    (requests running waiting : List RequestId) : Prop where
  requestId : ∀ r, (request r).requestId = r
  nodup : requests.Nodup
  perm : requests.Perm (running ++ waiting)
  status : ∀ r ∈ running, (request r).status = .running
  queued : ∀ r ∈ waiting, (request r).Queued
  gone : ∀ r, r ∉ requests → (request r).isFinished = true
  idle : ∀ r, r ∉ running → kv.Idle r
  order : ∃ free, kv.InOrder free

namespace Partition

variable {request : RequestId → Request H} {kv kv' : KVCacheManager H}
  {requests running waiting running' waiting' : List RequestId} {r : RequestId}

theorem nodup_append (h : Partition request kv requests running waiting) :
    (running ++ waiting).Nodup :=
  h.perm.nodup_iff.mp h.nodup

theorem not_running_of_waiting (h : Partition request kv requests running waiting)
    (hr : r ∈ waiting) : r ∉ running := by
  intro hrun
  have hne := h.status r hrun
  exact (h.queued r hr).not_running hne

theorem known_of_running (h : Partition request kv requests running waiting) (hr : r ∈ running) :
    r ∈ requests :=
  h.perm.mem_iff.mpr (List.mem_append_left _ hr)

theorem known_of_waiting (h : Partition request kv requests running waiting) (hr : r ∈ waiting) :
    r ∈ requests :=
  h.perm.mem_iff.mpr (List.mem_append_right _ hr)

theorem running_nodup (h : Partition request kv requests running waiting) : running.Nodup :=
  (List.nodup_append.mp h.nodup_append).1

theorem waiting_nodup (h : Partition request kv requests running waiting) : waiting.Nodup :=
  (List.nodup_append.mp h.nodup_append).2.1

/-- The status of a known request tells where it is. -/
theorem status_iff (h : Partition request kv requests running waiting) :
    (request r).status = .running ↔ r ∈ running := by
  constructor
  · intro hstatus
    by_contra hnot
    by_cases hknown : r ∈ requests
    · have hwait := (List.mem_append.mp (h.perm.mem_iff.mp hknown)).resolve_left hnot
      exact (h.queued r hwait).not_running hstatus
    · have hfinished := h.gone r hknown
      rw [Request.isFinished, hstatus] at hfinished
      cases hfinished
  · exact h.status r

/-- The order of the lists does not matter. -/
theorem congr_perm (h : Partition request kv requests running waiting)
    (hrunning : running.Perm running') (hwaiting : waiting.Perm waiting') :
    Partition request kv requests running' waiting' where
  requestId := h.requestId
  nodup := h.nodup
  perm := h.perm.trans (hrunning.append hwaiting)
  status r hr := h.status r (hrunning.mem_iff.mpr hr)
  queued r hr := h.queued r (hwaiting.mem_iff.mpr hr)
  gone := h.gone
  idle r hr := h.idle r fun hmem => hr (hrunning.mem_iff.mp hmem)
  order := h.order

/-- A call on the manager for a running request. -/
theorem manager_running (h : Partition request kv requests running waiting) (hr : r ∈ running)
    (hother : ∀ r', r' ≠ r → kv'.getBlocks r' = kv.getBlocks r')
    (horder : ∃ free, kv'.InOrder free) : Partition request kv' requests running waiting :=
  { h with
    idle := fun r' hr' =>
      (h.idle r' hr').of_getBlocks_eq (hother r' fun heq => hr' (heq ▸ hr))
    order := horder }

/-- A call on the manager that touches no table. -/
theorem manager_same (h : Partition request kv requests running waiting)
    (hsame : ∀ r, kv'.getBlocks r = kv.getBlocks r) (horder : ∃ free, kv'.InOrder free) :
    Partition request kv' requests running waiting :=
  { h with
    idle := fun r hr => (h.idle r hr).of_getBlocks_eq (hsame r)
    order := horder }

/-- A change to requests that keeps their ids, their statuses, and the computed
counts of those that wait. -/
theorem congr_request (h : Partition request kv requests running waiting)
    (request' : RequestId → Request H)
    (hid : ∀ r, (request' r).requestId = (request r).requestId)
    (hstatus : ∀ r, (request' r).status = (request r).status)
    (hcomputed : ∀ r ∈ waiting, (request' r).numComputedTokens = (request r).numComputedTokens) :
    Partition request' kv requests running waiting where
  requestId r := (hid r).trans (h.requestId r)
  nodup := h.nodup
  perm := h.perm
  status r hr := (hstatus r).trans (h.status r hr)
  queued r hr := ⟨by rw [hstatus]; exact (h.queued r hr).status,
    (hcomputed r hr).trans (h.queued r hr).numComputedTokens⟩
  gone r hr := by
    rw [Request.isFinished, hstatus]
    exact h.gone r hr
  idle := h.idle
  order := h.order

/-- A change to one request that keeps its id, its status and its computed count. -/
theorem update_same (h : Partition request kv requests running waiting) (request' : Request H)
    (hid : request'.requestId = (request r).requestId)
    (hstatus : request'.status = (request r).status)
    (hcomputed : request'.numComputedTokens = (request r).numComputedTokens) :
    Partition (Function.update request r request') kv requests running waiting := by
  refine h.congr_request _ (fun r' => ?_) (fun r' => ?_) fun r' _ => ?_
  all_goals
    by_cases heq : r' = r
    · subst heq
      rwa [Function.update_self]
    · rw [Function.update_of_ne heq]

/-- A waiting request that changes and goes on waiting. -/
theorem update_waiting (h : Partition request kv requests running waiting) (hr : r ∈ waiting)
    {request' : Request H} (hid : request'.requestId = r) (hqueued : request'.Queued) :
    Partition (Function.update request r request') kv requests running waiting where
  requestId r' := by
    by_cases heq : r' = r
    · subst heq
      rw [Function.update_self, hid]
    · rw [Function.update_of_ne heq, h.requestId]
  nodup := h.nodup
  perm := h.perm
  status r' hr' := by
    have heq : r' ≠ r := fun e => h.not_running_of_waiting hr (e ▸ hr')
    rw [Function.update_of_ne heq]
    exact h.status r' hr'
  queued r' hr' := by
    by_cases heq : r' = r
    · subst heq
      rwa [Function.update_self]
    · rw [Function.update_of_ne heq]
      exact h.queued r' hr'
  gone r' hr' := by
    have heq : r' ≠ r := fun e => hr' (e ▸ h.known_of_waiting hr)
    rw [Function.update_of_ne heq]
    exact h.gone r' hr'
  idle := h.idle
  order := h.order

/-- A running request that changes and goes on running. -/
theorem update_running (h : Partition request kv requests running waiting) (hr : r ∈ running)
    {request' : Request H} (hid : request'.requestId = r) (hstatus : request'.status = .running) :
    Partition (Function.update request r request') kv requests running waiting := by
  refine h.congr_request _ (fun r' => ?_) (fun r' => ?_) fun r' hr' => ?_
  · by_cases heq : r' = r
    · subst heq
      rw [Function.update_self, hid, h.requestId]
    · rw [Function.update_of_ne heq]
  · by_cases heq : r' = r
    · subst heq
      rw [Function.update_self, hstatus, h.status r' hr]
    · rw [Function.update_of_ne heq]
  · have heq : r' ≠ r := fun e => h.not_running_of_waiting hr' (e ▸ hr)
    rw [Function.update_of_ne heq]

/-- A new request waits. -/
theorem add (h : Partition request kv requests running waiting) (hfresh : r ∉ requests)
    {request' : Request H} (hid : request'.requestId = r) (hqueued : request'.Queued) :
    Partition (Function.update request r request') kv (requests ++ [r]) running (r :: waiting) := by
  have hne : ∀ r' ∈ requests, r' ≠ r := fun r' hr' e => hfresh (e ▸ hr')
  refine ⟨fun r' => ?_, ?_, ?_, fun r' hr' => ?_, fun r' hr' => ?_, fun r' hr' => ?_, h.idle,
    h.order⟩
  · by_cases heq : r' = r
    · subst heq
      rw [Function.update_self, hid]
    · rw [Function.update_of_ne heq, h.requestId]
  · refine List.nodup_append.mpr ⟨h.nodup, by simp, fun a ha b hb => ?_⟩
    rw [List.mem_singleton.mp hb]
    exact hne a ha
  · refine (List.perm_append_singleton r requests).trans ?_
    exact (h.perm.cons r).trans List.perm_middle.symm
  · rw [Function.update_of_ne (hne r' (h.known_of_running hr'))]
    exact h.status r' hr'
  · by_cases heq : r' = r
    · subst heq
      rwa [Function.update_self]
    · rw [Function.update_of_ne heq]
      exact h.queued r' ((List.mem_cons.mp hr').resolve_left heq)
  · rw [List.mem_append, not_or, List.mem_singleton] at hr'
    rw [Function.update_of_ne hr'.2]
    exact h.gone r' hr'.1

/-- A running request is preempted: it waits, and holds nothing. -/
theorem preempt (h : Partition request kv requests (r :: running) waiting) (request' : Request H)
    (hid : request'.requestId = r) (hqueued : request'.Queued) (hfree : kv.free r = .ok kv') :
    Partition (Function.update request r request') kv' requests running (r :: waiting) where
  requestId r' := by
    by_cases heq : r' = r
    · subst heq
      rw [Function.update_self, hid]
    · rw [Function.update_of_ne heq, h.requestId]
  nodup := h.nodup
  perm := h.perm.trans (by rw [List.cons_append]; exact List.perm_middle.symm)
  status r' hr' := by
    have heq : r' ≠ r := fun e => (List.nodup_cons.mp h.running_nodup).1 (e ▸ hr')
    rw [Function.update_of_ne heq]
    exact h.status r' (List.mem_cons_of_mem _ hr')
  queued r' hr' := by
    by_cases heq : r' = r
    · subst heq
      rwa [Function.update_self]
    · rw [Function.update_of_ne heq]
      exact h.queued r' ((List.mem_cons.mp hr').resolve_left heq)
  gone r' hr' := by
    have heq : r' ≠ r := fun e => hr' (e ▸ h.known_of_running List.mem_cons_self)
    rw [Function.update_of_ne heq]
    exact h.gone r' hr'
  idle r' hr' := by
    obtain ⟨free, horder⟩ := h.order
    by_cases heq : r' = r
    · subst heq
      exact KVCacheManager.free_idle horder hfree
    · exact (h.idle r' fun hmem => hr' ((List.mem_cons.mp hmem).resolve_left heq)).of_getBlocks_eq
        (KVCacheManager.free_getBlocks_of_ne horder hfree heq)
  order := by
    obtain ⟨free, horder⟩ := h.order
    obtain ⟨free', horder', -⟩ := KVCacheManager.free_inOrder horder hfree
    exact ⟨free', horder'⟩

/-- A waiting request is let in, with slots. -/
theorem accept (h : Partition request kv requests running (r :: waiting)) (request' : Request H)
    (hid : request'.requestId = r) (hstatus : request'.status = .running)
    (hother : ∀ r', r' ≠ r → kv'.getBlocks r' = kv.getBlocks r')
    (horder : ∃ free, kv'.InOrder free) :
    Partition (Function.update request r request') kv' requests (running ++ [r]) waiting where
  requestId r' := by
    by_cases heq : r' = r
    · subst heq
      rw [Function.update_self, hid]
    · rw [Function.update_of_ne heq, h.requestId]
  nodup := h.nodup
  perm := by rw [List.append_assoc, List.singleton_append]; exact h.perm
  status r' hr' := by
    by_cases heq : r' = r
    · subst heq
      rwa [Function.update_self]
    · rw [Function.update_of_ne heq]
      exact h.status r' ((List.mem_append.mp hr').resolve_right (by simpa using heq))
  queued r' hr' := by
    have heq : r' ≠ r := fun e => (List.nodup_cons.mp h.waiting_nodup).1 (e ▸ hr')
    rw [Function.update_of_ne heq]
    exact h.queued r' (List.mem_cons_of_mem _ hr')
  gone r' hr' := by
    have heq : r' ≠ r := fun e => hr' (e ▸ h.known_of_waiting List.mem_cons_self)
    rw [Function.update_of_ne heq]
    exact h.gone r' hr'
  idle r' hr' := by
    rw [List.mem_append, not_or, List.mem_singleton] at hr'
    exact (h.idle r' hr'.1).of_getBlocks_eq (hother r' hr'.2)
  order := horder

/-- A request ends: it is in neither list, is known no more, and holds nothing. -/
theorem release (h : Partition request kv requests running waiting) {request' : Request H}
    (hid : request'.requestId = r) (hfinished : request'.isFinished = true)
    (hperm : (running ++ waiting).Perm (r :: (running' ++ waiting')))
    (hrunning : ∀ r' ∈ running', r' ∈ running) (hwaiting : ∀ r' ∈ waiting', r' ∈ waiting)
    (hkept : ∀ r' ∈ running, r' ≠ r → r' ∈ running') (hfree : kv.free r = .ok kv') :
    Partition (Function.update request r request') kv' (requests.erase r) running' waiting' := by
  have hnodup := hperm.nodup_iff.mp h.nodup_append
  rw [List.nodup_cons] at hnodup
  have hne : ∀ r' ∈ running' ++ waiting', r' ≠ r := fun r' hr' e => hnodup.1 (e ▸ hr')
  obtain ⟨free, horder⟩ := h.order
  refine ⟨fun r' => ?_, h.nodup.erase r, ?_, fun r' hr' => ?_, fun r' hr' => ?_, fun r' hr' => ?_,
    fun r' hr' => ?_, ?_⟩
  · by_cases heq : r' = r
    · subst heq
      rw [Function.update_self, hid]
    · rw [Function.update_of_ne heq, h.requestId]
  · have herase := (h.perm.trans hperm).erase r
    rwa [List.erase_cons_head] at herase
  · rw [Function.update_of_ne (hne r' (List.mem_append_left _ hr'))]
    exact h.status r' (hrunning r' hr')
  · rw [Function.update_of_ne (hne r' (List.mem_append_right _ hr'))]
    exact h.queued r' (hwaiting r' hr')
  · by_cases heq : r' = r
    · subst heq
      rwa [Function.update_self]
    · rw [Function.update_of_ne heq]
      exact h.gone r' fun hmem => hr' ((List.mem_erase_of_ne heq).mpr hmem)
  · by_cases heq : r' = r
    · subst heq
      exact KVCacheManager.free_idle horder hfree
    · exact (h.idle r' fun hmem => hr' (hkept r' hmem heq)).of_getBlocks_eq
        (KVCacheManager.free_getBlocks_of_ne horder hfree heq)
  · obtain ⟨free', horder', -⟩ := KVCacheManager.free_inOrder horder hfree
    exact ⟨free', horder'⟩

end Partition

end Pvllm
