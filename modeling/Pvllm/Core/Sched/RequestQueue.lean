import Pvllm.Core.Request
import Mathlib.Data.List.Sort

/-!
The waiting queue, under each policy.

A queue is the list of ids it would yield. Under `fcfs` that is arrival order,
with preempted requests at the front; under `priority` it is the order of the
heap's keys, which are total because ids break ties. Requests are found under
their id in the scheduler's table, here the parameter `request`.
-/

namespace Pvllm

inductive SchedulingPolicy where
  | fcfs
  | priority
deriving Repr, DecidableEq

/-- `Request.__lt__`: priority, then arrival, then id. -/
def Request.before {H : Type} (a b : Request H) : Bool :=
  if a.priority ≠ b.priority then a.priority < b.priority
  else if a.arrivalTime ≠ b.arrivalTime then a.arrivalTime < b.arrivalTime
  else a.requestId < b.requestId

structure RequestQueue where
  policy : SchedulingPolicy
  items : List RequestId
deriving Repr, DecidableEq

namespace RequestQueue

/-- `create_request_queue`. -/
def create (policy : SchedulingPolicy) : RequestQueue := ⟨policy, []⟩

variable {H : Type} (request : RequestId → Request H)

def insertKey (r : RequestId) : List RequestId → List RequestId
  | [] => [r]
  | other :: rest =>
    if (request r).before (request other) then r :: other :: rest
    else other :: insertKey r rest

def addRequest (queue : RequestQueue) (r : RequestId) : RequestQueue :=
  match queue.policy with
  | .fcfs => { queue with items := queue.items ++ [r] }
  | .priority => { queue with items := insertKey request r queue.items }

def peekRequest (queue : RequestQueue) : Except PyError RequestId :=
  match queue.items with
  | [] => .error (.indexError "peek_request from an empty queue")
  | r :: _ => .ok r

def popRequest (queue : RequestQueue) : Except PyError (RequestId × RequestQueue) :=
  match queue.items with
  | [] => .error (.indexError "pop_request from an empty queue")
  | r :: rest => .ok (r, { queue with items := rest })

/-- To the front; a priority queue has none, so by key. -/
def prependRequest (queue : RequestQueue) (r : RequestId) : RequestQueue :=
  match queue.policy with
  | .fcfs => { queue with items := r :: queue.items }
  | .priority => queue.addRequest request r

def prependRequests (queue others : RequestQueue) : RequestQueue :=
  match queue.policy with
  | .fcfs => { queue with items := others.items ++ queue.items }
  | .priority => others.items.foldl (addRequest request) queue

def removeRequest (queue : RequestQueue) (r : RequestId) : Except PyError RequestQueue :=
  match queue.policy with
  | .fcfs =>
    if r ∈ queue.items then .ok { queue with items := queue.items.erase r }
    else .error (.valueError "deque.remove(x): x not in deque")
  | .priority => .ok { queue with items := queue.items.filter fun other => other ≠ r }

/-! ### What a queue holds -/

theorem insertKey_perm (r : RequestId) (l : List RequestId) :
    (insertKey request r l).Perm (r :: l) := by
  induction l with
  | nil => exact List.Perm.refl _
  | cons other rest ih =>
      unfold insertKey
      split
      · exact List.Perm.refl _
      · exact (ih.cons other).trans (List.Perm.swap r other rest)

theorem addRequest_perm (queue : RequestQueue) (r : RequestId) :
    (queue.addRequest request r).items.Perm (r :: queue.items) := by
  unfold addRequest
  cases queue.policy with
  | fcfs => exact List.perm_append_singleton r queue.items
  | priority => exact insertKey_perm request r queue.items

theorem prependRequest_perm (queue : RequestQueue) (r : RequestId) :
    (queue.prependRequest request r).items.Perm (r :: queue.items) := by
  unfold prependRequest
  cases queue.policy with
  | fcfs => exact List.Perm.refl _
  | priority => exact addRequest_perm request queue r

theorem foldl_addRequest_perm (l : List RequestId) (queue : RequestQueue) :
    (l.foldl (addRequest request) queue).items.Perm (l ++ queue.items) := by
  induction l generalizing queue with
  | nil => exact List.Perm.refl _
  | cons r l ih =>
      refine (ih (queue.addRequest request r)).trans ?_
      exact ((addRequest_perm request queue r).append_left l).trans List.perm_middle

theorem prependRequests_perm (queue others : RequestQueue) :
    (queue.prependRequests request others).items.Perm (others.items ++ queue.items) := by
  unfold prependRequests
  cases queue.policy with
  | fcfs => exact List.Perm.refl _
  | priority => exact foldl_addRequest_perm request others.items queue

/-! ### The policy of a queue -/

@[simp] theorem addRequest_policy (queue : RequestQueue) (r : RequestId) :
    (queue.addRequest request r).policy = queue.policy := by
  unfold addRequest
  split <;> rfl

@[simp] theorem prependRequest_policy (queue : RequestQueue) (r : RequestId) :
    (queue.prependRequest request r).policy = queue.policy := by
  unfold prependRequest
  split
  · rfl
  · exact addRequest_policy request queue r

@[simp] theorem prependRequests_policy (queue others : RequestQueue) :
    (queue.prependRequests request others).policy = queue.policy := by
  have hfold : ∀ (l : List RequestId) (queue : RequestQueue),
      (l.foldl (addRequest request) queue).policy = queue.policy := by
    intro l
    induction l with
    | nil => exact fun _ => rfl
    | cons r l ih =>
        intro queue
        rw [List.foldl_cons, ih, addRequest_policy]
  unfold prependRequests
  split
  · rfl
  · exact hfold others.items queue

theorem popRequest_policy {queue queue' : RequestQueue} {r : RequestId}
    (h : queue.popRequest = .ok (r, queue')) : queue'.policy = queue.policy := by
  unfold popRequest at h
  split at h
  · cases h
  · obtain ⟨-, rfl⟩ := Prod.mk.inj (Except.ok.inj h)
    rfl

theorem removeRequest_policy {queue queue' : RequestQueue} {r : RequestId}
    (h : queue.removeRequest r = .ok queue') : queue'.policy = queue.policy := by
  unfold removeRequest at h
  split at h
  · split at h
    · obtain rfl := Except.ok.inj h
      rfl
    · cases h
  · obtain rfl := Except.ok.inj h
    rfl

/-! ### Taking requests off -/

theorem popRequest_eq_ok {queue queue' : RequestQueue} {r : RequestId}
    (h : queue.popRequest = .ok (r, queue')) :
    queue.items = r :: queue'.items := by
  unfold popRequest at h
  split at h
  · cases h
  · rename_i hitems
    obtain ⟨rfl, rfl⟩ := Prod.mk.inj (Except.ok.inj h)
    exact hitems

theorem popRequest_of_peek {queue : RequestQueue} {r : RequestId}
    (h : queue.peekRequest = .ok r) :
    ∃ queue', queue.popRequest = .ok (r, queue') := by
  unfold peekRequest at h
  split at h
  · cases h
  · rename_i rest hitems
    obtain rfl := Except.ok.inj h
    exact ⟨{ queue with items := rest }, by simp [popRequest, hitems]⟩

theorem head_of_pop {queue queue' : RequestQueue} {r r' : RequestId}
    (hhead : queue.items.head? = some r) (hpop : queue.popRequest = .ok (r', queue')) :
    r' = r := by
  rw [popRequest_eq_ok hpop] at hhead
  exact Option.some.inj hhead

theorem removeRequest_eq_ok {queue queue' : RequestQueue} {r : RequestId}
    (hnd : queue.items.Nodup) (h : queue.removeRequest r = .ok queue') :
    queue'.items = queue.items.erase r := by
  unfold removeRequest at h
  split at h
  · split at h
    · obtain rfl := Except.ok.inj h
      rfl
    · cases h
  · obtain rfl := Except.ok.inj h
    rw [hnd.erase_eq_filter]
    exact List.filter_congr fun other _ => by rw [Bool.eq_iff_iff]; simp

theorem removeRequest_exists {queue : RequestQueue} {r : RequestId} (h : r ∈ queue.items) :
    ∃ queue', queue.removeRequest r = .ok queue' := by
  unfold removeRequest
  split
  · exact ⟨_, if_pos h⟩
  · exact ⟨_, rfl⟩

end RequestQueue

end Pvllm
