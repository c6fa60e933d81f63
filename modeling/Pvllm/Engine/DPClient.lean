import Pvllm.Engine.EncoderAgreement
import Pvllm.Engine.Stepping

/-!
Data parallelism: several engine cores behind one router.

The client keeps a ledger of its own: which replica holds each request in flight, and
how many each holds. It learns of an end from the outputs of a step, and of an abort
from the caller. The ledger is compared with the requests the replicas know.
-/

namespace Pvllm

variable {H : Type} [DecidableEq H]

/-! ### What the router reads -/

omit [DecidableEq H] in
def BlockPool.getUsage (pool : BlockPool H) : ℚ :=
  1 - (pool.getNumFreeBlocks : ℚ) / pool.numUsableBlocks

namespace ServingCore

variable (core : ServingCore H)

omit [DecidableEq H]

/-- A store that other replicas write to as well. -/
def withStore (store : SimKVStore H) : ServingCore H :=
  { core with scheduler := { core.scheduler with
      connector := core.scheduler.connector.map ({ · with store := store }) } }

/-- A forward pass over one token, with nothing scheduled. -/
def executeDummyBatch : ServingCore H :=
  { core with scheduler := { core.scheduler with stepIndex := core.scheduler.stepIndex + 1 } }

end ServingCore

/-! ### The client -/

structure DPInprocClient (H : Type) where
  engineCores : List (ServingCore H)
  requestToEngine : Dict RequestId ℕ
  engineInflight : List ℕ
  lockstep : Bool
  lockstepRounds : ℕ

namespace DPInprocClient

omit [DecidableEq H] in
/-- Replicas that nothing was routed to yet. They run in lockstep under expert parallelism. -/
def init (engineCores : List (ServingCore H)) (enableExpertParallel : Bool) :
    DPInprocClient H where
  engineCores := engineCores
  requestToEngine := .empty
  engineInflight := List.replicate engineCores.length 0
  lockstep := enableExpertParallel && decide (1 < engineCores.length)
  lockstepRounds := 0

variable (client : DPInprocClient H)

omit [DecidableEq H] in
/-- Upstream's score: the load, and a penalty for a queue under pressure. -/
def score (index : ℕ) (core : ServingCore H) : ℚ :=
  let waiting := core.scheduler.waiting.items.length
  let running := core.scheduler.running.length
  let usage := core.scheduler.kvCacheManager.blockPool.getUsage
  ((max (client.engineInflight.getD index 0) (waiting + running) : ℕ) : ℚ) +
    if waiting ≠ 0 then waiting * 6 * max 0 (usage - 1 / 2) else 0

omit [DecidableEq H] in
def leastLoaded : ℕ :=
  ((client.engineCores.zipIdx).foldl (fun (best : ℚ × ℕ) entry =>
    let score := client.score entry.2 entry.1
    if score < best.1 then (score, entry.2) else best) (9223372036854775807, 0)).2

omit [DecidableEq H] in
/-- Which replica should serve a request, which the ledger notes. -/
def getCoreEngineForRequest (requestId : RequestId) (dataParallelRank : Option ℤ) :
    Except PyError (ℕ × DPInprocClient H) :=
  let size := client.engineCores.length
  let chosen : Except PyError ℕ :=
    match dataParallelRank with
    | none => .ok client.leastLoaded
    | some rank =>
      if 0 ≤ rank ∧ rank < size then .ok rank.toNat
      else .error (.valueError
        s!"data_parallel_rank {rank} is out of range for data_parallel_size {size}")
  match chosen with
  | .error e => .error e
  | .ok chosen =>
    if chosen < client.engineInflight.length then
      .ok (chosen, { client with
        requestToEngine := client.requestToEngine.store requestId chosen
        engineInflight := client.engineInflight.modify chosen (· + 1) })
    else .error (.indexError "list index out of range")

omit [DecidableEq H] in
/-- A replica was called. What it wrote to the shared store the others see. -/
def called (index : ℕ) (core : ServingCore H) : DPInprocClient H :=
  { client with engineCores :=
      match core.scheduler.connector with
      | none => client.engineCores.set index core
      | some connector => (client.engineCores.set index core).map (·.withStore connector.store) }

def engineCore (index : ℕ) : Except PyError (ServingCore H) :=
  match client.engineCores[index]? with
  | none => .error (.indexError "list index out of range")
  | some core => .ok core

def addRequest (args : RequestArgs) (dataParallelRank : Option ℤ) :
    Except PyError (DPInprocClient H) := do
  let (chosen, client) ← client.getCoreEngineForRequest args.requestId dataParallelRank
  let core ← client.engineCore chosen
  let core ← core.addRequest args
  return client.called chosen core

omit [DecidableEq H] in
def release (requestId : RequestId) : DPInprocClient H :=
  match client.requestToEngine.find requestId with
  | none => client
  | some index => { client with
      requestToEngine := client.requestToEngine.delete requestId
      engineInflight := client.engineInflight.modify index (· - 1) }

omit [DecidableEq H] in
def releaseAll (requestIds : List RequestId) : DPInprocClient H :=
  requestIds.foldl release client

omit [DecidableEq H] in
def byEngine (requestIds : List RequestId) : Dict ℕ (List RequestId) :=
  requestIds.foldl (fun groups requestId =>
    match client.requestToEngine.find requestId with
    | none => groups
    | some index => groups.store index (groups.findD index [] ++ [requestId])) .empty

def abortAt (index : ℕ) (requestIds : List RequestId) : Except PyError (DPInprocClient H) := do
  let core ← client.engineCore index
  let core ← core.abortRequests requestIds
  return (client.called index core).releaseAll requestIds

def abortGroups (client : DPInprocClient H) :
    List (ℕ × List RequestId) → Except PyError (DPInprocClient H)
  | [] => .ok client
  | (index, requestIds) :: rest => do
    let client ← client.abortAt index requestIds
    abortGroups client rest

def abortRequests (requestIds : List RequestId) : Except PyError (DPInprocClient H) :=
  client.abortGroups (client.byEngine requestIds).items

/-! ### Rounds -/

def merge (merged outputs : Dict ℕ (List EngineCoreOutput)) : Dict ℕ (List EngineCoreOutput) :=
  outputs.items.foldl (fun merged entry =>
    merged.store entry.1 (merged.findD entry.1 [] ++ entry.2)) merged

def stepAt (draws : ℕ → RequestId → List Bool) (index : ℕ)
    (merged : Dict ℕ (List EngineCoreOutput)) :
    Except PyError (Dict ℕ (List EngineCoreOutput) × DPInprocClient H) := do
  let core ← client.engineCore index
  let (outputs, core) ← core.step (draws index)
  return (merge merged outputs,
    (client.called index core).releaseAll (finishedIn (outputsOf outputs)))

def round (draws : ℕ → RequestId → List Bool) :
    List ℕ → DPInprocClient H → Dict ℕ (List EngineCoreOutput) →
    Except PyError (Dict ℕ (List EngineCoreOutput) × DPInprocClient H)
  | [], client, merged => .ok (merged, client)
  | index :: rest, client, merged => do
    let core ← client.engineCore index
    if core.scheduler.hasRequests then
      let (merged, client) ← client.stepAt draws index merged
      round draws rest client merged
    else round draws rest client merged

/-- Every replica steps, or runs a dummy batch where it had no work before the round. -/
def lockstepRound (draws : ℕ → RequestId → List Bool) :
    List (Bool × ℕ) → DPInprocClient H → Dict ℕ (List EngineCoreOutput) →
    Except PyError (Dict ℕ (List EngineCoreOutput) × DPInprocClient H)
  | [], client, merged => .ok (merged, client)
  | (hasWork, index) :: rest, client, merged => do
    if hasWork then
      let (merged, client) ← client.stepAt draws index merged
      lockstepRound draws rest client merged
    else
      let core ← client.engineCore index
      lockstepRound draws rest (client.called index core.executeDummyBatch) merged

/-- Step every replica that has work, and merge what they produced. -/
def getOutput (draws : ℕ → RequestId → List Bool) :
    Except PyError (Dict ℕ (List EngineCoreOutput) × DPInprocClient H) :=
  if client.lockstep then
    let localWork := client.engineCores.map (·.scheduler.hasRequests)
    if localWork.any id then
      lockstepRound draws localWork.zipIdx
        { client with lockstepRounds := client.lockstepRounds + 1 } .empty
    else .ok (.empty, client)
  else
    round draws (List.range client.engineCores.length) client .empty

/-! ### Calls -/

/-- What happens to a client: its calls, and grammars that get compiled. -/
inductive Call where
  | addRequest (args : RequestArgs) (dataParallelRank : Option ℤ)
  | abortRequests (requestIds : List RequestId)
  | getOutput (draws : ℕ → RequestId → List Bool)
  | compileGrammar (index : ℕ) (r : RequestId) (result : Grammar)

def call : Call → Except PyError (DPInprocClient H)
  | .addRequest args dataParallelRank => client.addRequest args dataParallelRank
  | .abortRequests requestIds => client.abortRequests requestIds
  | .getOutput draws => (client.getOutput draws).map Prod.snd
  | .compileGrammar index r result => (client.engineCore index).map fun core =>
    client.called index (core.compileGrammar r result)

/-- A call that returns. A request is added under an id that none in flight has. -/
structure Step (client : DPInprocClient H) (c : Call) (client' : DPInprocClient H) : Prop where
  fresh : ∀ args dataParallelRank, c = .addRequest args dataParallelRank →
    args.requestId ∉ client.requestToEngine.keys
  ok : client.call c = .ok client'

/-! ### Calls on one replica -/

end DPInprocClient

namespace ServingCore

variable {core core' : ServingCore H}

theorem AtRest.withStore (h : core.AtRest) (store : SimKVStore H) : (core.withStore store).AtRest :=
  ⟨⟨h.settled.partition, h.settled.skipped⟩, h.failures⟩

theorem AtRest.executeDummyBatch (h : core.AtRest) : core.executeDummyBatch.AtRest :=
  ⟨⟨h.settled.partition, h.settled.skipped⟩, h.failures⟩

end ServingCore

namespace DPInprocClient

variable {client client' : DPInprocClient H}

/-! ### The ledger -/

omit [DecidableEq H] in
def known (client : DPInprocClient H) : List (List RequestId) :=
  client.engineCores.map (·.scheduler.requests)

omit [DecidableEq H] in
/-- The ids the ledger maps to a replica. -/
def heldBy (client : DPInprocClient H) (index : ℕ) : List RequestId :=
  (client.requestToEngine.items.filter (·.2 = index)).map Prod.fst

omit [DecidableEq H] in
theorem mem_heldBy {index : ℕ} {r : RequestId} :
    r ∈ client.heldBy index ↔ client.requestToEngine.find r = some index := by
  rw [Dict.find_eq_some_iff]
  simp [heldBy]

omit [DecidableEq H] in
theorem heldBy_nodup (client : DPInprocClient H) (index : ℕ) : (client.heldBy index).Nodup :=
  client.requestToEngine.keys_nodup.sublist (List.filter_sublist.map Prod.fst)

omit [DecidableEq H] in
theorem length_heldBy (client : DPInprocClient H) (index : ℕ) :
    (client.heldBy index).length =
      client.requestToEngine.total fun index' => if index' = index then 1 else 0 := by
  unfold heldBy Dict.total
  rw [List.length_map]
  induction client.requestToEngine.items with
  | nil => rfl
  | cons entry rest ih =>
      rw [List.filter_cons, List.map_cons, List.sum_cons, ← ih]
      by_cases h : entry.2 = index
      · simp [h, Nat.add_comm]
      · simp [h]

/-- The count of each replica is the number of ids the ledger maps to it. -/
structure Counted (client : DPInprocClient H) : Prop where
  size : client.engineInflight.length = client.engineCores.length
  inflight : ∀ index < client.engineInflight.length,
    client.engineInflight[index]? = some (client.heldBy index).length

omit [DecidableEq H] in
@[simp] theorem release_engineCores (r : RequestId) :
    (client.release r).engineCores = client.engineCores := by
  unfold release
  split <;> rfl

omit [DecidableEq H] in
theorem release_find (r r' : RequestId) : (client.release r).requestToEngine.find r' =
    if r' = r then none else client.requestToEngine.find r' := by
  unfold release
  split
  · rename_i hnone
    split
    · rename_i heq
      rw [heq, hnone]
    · rfl
  · exact Dict.find_delete ..

omit [DecidableEq H] in
/-- A request that is dropped is taken off the count of its replica. -/
theorem Counted.release (h : client.Counted) (r : RequestId) : (client.release r).Counted := by
  cases hfind : client.requestToEngine.find r with
  | none =>
      have hsame : client.release r = client := by
        unfold DPInprocClient.release
        rw [hfind]
      rw [hsame]
      exact h
  | some owner =>
      have hreleased : client.release r = { client with
          requestToEngine := client.requestToEngine.delete r
          engineInflight := client.engineInflight.modify owner (· - 1) } := by
        unfold DPInprocClient.release
        rw [hfind]
      refine ⟨by rw [hreleased]; simpa using h.size, fun index hindex => ?_⟩
      have hlength : index < client.engineInflight.length := by
        rw [hreleased] at hindex
        simpa using hindex
      have htotal := client.requestToEngine.total_delete r
        fun index' => if index' = index then 1 else 0
      rw [hfind, ← length_heldBy] at htotal
      have hheld : (client.release r).requestToEngine.total
          (fun index' => if index' = index then 1 else 0) =
            ((client.release r).heldBy index).length := (length_heldBy ..).symm
      rw [hreleased] at hheld ⊢
      rw [hheld] at htotal
      rw [List.getElem?_modify, h.inflight index hlength]
      by_cases howner : owner = index
      · simp [howner] at htotal ⊢
        omega
      · simp [howner] at htotal ⊢
        omega

omit [DecidableEq H] in
theorem releaseAll_spec (told : List RequestId) (h : client.Counted) :
    (client.releaseAll told).Counted ∧
      (client.releaseAll told).engineCores = client.engineCores ∧
      ∀ r, (client.releaseAll told).requestToEngine.find r =
        if r ∈ told then none else client.requestToEngine.find r := by
  induction told generalizing client with
  | nil => exact ⟨h, rfl, fun r => (if_neg List.not_mem_nil).symm⟩
  | cons r₀ rest ih =>
      obtain ⟨hcounted, hcores, hfind⟩ := ih (h.release r₀)
      refine ⟨hcounted, hcores.trans (release_engineCores r₀), fun r => (hfind r).trans ?_⟩
      rw [release_find]
      by_cases heq : r = r₀
      · simp [heq]
      · simp [heq]

omit [DecidableEq H] in
theorem called_known (index : ℕ) (core : ServingCore H) :
    (client.called index core).known = client.known.set index core.scheduler.requests := by
  unfold called known
  dsimp only
  split
  · rw [List.map_set]
  · rw [List.map_map, List.map_set]
    rfl

omit [DecidableEq H] in
theorem Counted.called (h : client.Counted) (index : ℕ) (core : ServingCore H) :
    (client.called index core).Counted := by
  refine ⟨h.size.trans ?_, h.inflight⟩
  unfold DPInprocClient.called
  dsimp only
  split
  · rw [List.length_set]
  · rw [List.length_map, List.length_set]

/-- The ledger is right: it maps to each replica the requests the replica knows. -/
structure Owns (client : DPInprocClient H) : Prop where
  counted : client.Counted
  atRest : ∀ core ∈ client.engineCores, core.AtRest
  owner : ∀ r index, client.requestToEngine.find r = some index ↔
    ∃ requests, client.known[index]? = some requests ∧ r ∈ requests

theorem called_atRest (h : ∀ core ∈ client.engineCores, core.AtRest) {core : ServingCore H}
    (hcore : core.AtRest) (index : ℕ) :
    ∀ core' ∈ (client.called index core).engineCores, core'.AtRest := by
  have hset : ∀ core' ∈ client.engineCores.set index core, core'.AtRest := by
    intro core' hmem
    rcases List.mem_or_eq_of_mem_set hmem with hmem | rfl
    · exact h core' hmem
    · exact hcore
  unfold called
  dsimp only
  split
  · exact hset
  · intro core' hmem
    obtain ⟨before, hbefore, rfl⟩ := List.mem_map.mp hmem
    exact (hset before hbefore).withStore _

theorem Owns.settle (h : client.Owns) {index : ℕ} {core core' : ServingCore H}
    (hcore : client.engineCores[index]? = some core) (hrest : core'.AtRest) {told : List RequestId}
    (htold : ∀ r ∈ told, client.requestToEngine.find r = some index)
    (hafter : ∀ r, r ∈ core'.scheduler.requests ↔ r ∈ core.scheduler.requests ∧ r ∉ told) :
    ((client.called index core').releaseAll told).Owns ∧
      ∀ r, ((client.called index core').releaseAll told).requestToEngine.find r =
        if r ∈ told then none else client.requestToEngine.find r := by
  obtain ⟨hcounted, hcores, hfind⟩ := releaseAll_spec told (h.counted.called index core')
  have hlt : index < client.known.length := by
    rw [known, List.length_map]
    exact (List.getElem?_eq_some_iff.mp hcore).1
  have hknown : client.known[index]? = some core.scheduler.requests := by
    rw [known, List.getElem?_map, hcore]
    rfl
  refine ⟨⟨hcounted, hcores ▸ called_atRest h.atRest hrest index, fun r index' => ?_⟩, hfind⟩
  have hknown' : ((client.called index core').releaseAll told).known =
      client.known.set index core'.scheduler.requests := by
    rw [← called_known, known, hcores]
    rfl
  have hown := h.owner r
  rw [hfind, hknown', List.getElem?_set]
  show (if r ∈ told then none else client.requestToEngine.find r) = some index' ↔ _
  by_cases hmem : r ∈ told
  · have howner := htold r hmem
    rw [if_pos hmem]
    refine iff_of_false nofun ?_
    rintro ⟨requests, hrequests, hr⟩
    split at hrequests
    · obtain rfl := Option.some.inj hrequests
      exact ((hafter r).mp hr).2 hmem
    · rename_i hne
      have := (hown index').mpr ⟨requests, hrequests, hr⟩
      exact hne (Option.some.inj (howner.symm.trans this))
  · rw [if_neg hmem, hown]
    by_cases heq : index = index'
    · subst heq
      rw [if_pos rfl, if_pos hlt, hknown]
      simp [hafter, hmem]
    · rw [if_neg heq]

omit [DecidableEq H] in
theorem engineCore_ok {index : ℕ} {core : ServingCore H} :
    client.engineCore index = .ok core ↔ client.engineCores[index]? = some core := by
  unfold engineCore
  split
  · rename_i hnone
    rw [hnone]
    exact ⟨nofun, nofun⟩
  · rename_i found hfound
    rw [hfound, Except.ok.injEq, Option.some.injEq]

/-- A replica's requests are the ones the ledger maps to it. -/
theorem Owns.find_iff (h : client.Owns) {index : ℕ} {core : ServingCore H}
    (hcore : client.engineCores[index]? = some core) (r : RequestId) :
    client.requestToEngine.find r = some index ↔ r ∈ core.scheduler.requests := by
  have hknown : client.known[index]? = some core.scheduler.requests := by
    rw [known, List.getElem?_map, hcore]
    rfl
  rw [h.owner, hknown]
  simp

/-! ### Each call -/

/-- A replica was called and no request went from it. -/
theorem Owns.unchanged (h : client.Owns) {index : ℕ} {core core' : ServingCore H}
    (hcore : client.engineCores[index]? = some core) (hrest : core'.AtRest)
    (hsame : core'.scheduler.requests = core.scheduler.requests) :
    (client.called index core').Owns := by
  have hafter (r : RequestId) :
      r ∈ core'.scheduler.requests ↔ r ∈ core.scheduler.requests ∧ r ∉ ([] : List RequestId) := by
    simp [hsame]
  exact (h.settle hcore hrest (fun _ hr => absurd hr List.not_mem_nil) hafter).1

theorem addRequest_owns (h : client.Owns) {args : RequestArgs} {dataParallelRank : Option ℤ}
    (hfresh : args.requestId ∉ client.requestToEngine.keys)
    (hok : client.addRequest args dataParallelRank = .ok client') : client'.Owns := by
  unfold addRequest at hok
  obtain ⟨⟨chosen, noted⟩, hroute, hok⟩ := except_bind_iff.mp hok
  obtain ⟨core, hcore, hok⟩ := except_bind_iff.mp hok
  obtain ⟨core', hadd, hok⟩ := except_bind_iff.mp hok
  obtain rfl := Except.ok.inj hok
  have hnone := (client.requestToEngine.find_eq_none_iff args.requestId).mpr hfresh
  obtain ⟨hlt, rfl⟩ : chosen < client.engineInflight.length ∧ noted = { client with
      requestToEngine := client.requestToEngine.store args.requestId chosen
      engineInflight := client.engineInflight.modify chosen (· + 1) } := by
    unfold getCoreEngineForRequest at hroute
    dsimp only at hroute
    split at hroute
    · cases hroute
    split at hroute
    · rename_i hlt
      obtain ⟨rfl, rfl⟩ := Prod.mk.inj (Except.ok.inj hroute)
      exact ⟨hlt, rfl⟩
    · cases hroute
  have hcores : client.engineCores[chosen]? = some core := engineCore_ok.mp hcore
  -- a replica knows no request that the ledger does not map to it
  have hnew : args.requestId ∉ core.scheduler.requests := by
    intro hmem
    rw [← h.find_iff hcores, hnone] at hmem
    cases hmem
  have hrequests := ServingCore.addRequest_requests hadd
  have hrest := (h.atRest core (List.mem_of_getElem? hcores)).addRequest hnew hadd
  have hcounted : Counted { client with
      requestToEngine := client.requestToEngine.store args.requestId chosen
      engineInflight := client.engineInflight.modify chosen (· + 1) } := by
    refine ⟨by simpa using h.counted.size, fun index hindex => ?_⟩
    have hlength : index < client.engineInflight.length := by simpa using hindex
    have htotal := client.requestToEngine.total_store args.requestId chosen
      fun index' => if index' = index then 1 else 0
    rw [hnone, ← length_heldBy] at htotal
    have hheld := length_heldBy { client with
      requestToEngine := client.requestToEngine.store args.requestId chosen
      engineInflight := client.engineInflight.modify chosen (· + 1) } index
    rw [hheld]
    dsimp only
    rw [List.getElem?_modify, h.counted.inflight index hlength]
    -- the count goes up where the ledger has one entry more
    by_cases hchosen : chosen = index
    · simp [hchosen] at htotal ⊢
      omega
    · simp [hchosen] at htotal ⊢
      omega
  refine ⟨hcounted.called chosen core', called_atRest h.atRest hrest chosen, fun r index => ?_⟩
  have hlt' : chosen < client.known.length := by
    rw [known, List.length_map]
    exact h.counted.size ▸ hlt
  have hknown : client.known[chosen]? = some core.scheduler.requests := by
    rw [known, List.getElem?_map, hcores]
    rfl
  have hown := h.owner r index
  rw [called_known]
  show (client.requestToEngine.store args.requestId chosen).find r = some index ↔
    ∃ requests, (client.known.set chosen core'.scheduler.requests)[index]? = some requests ∧
      r ∈ requests
  rw [Dict.find_store, List.getElem?_set]
  by_cases hr : r = args.requestId
  · subst hr
    rw [if_pos rfl]
    by_cases heq : chosen = index
    · subst heq
      simp [hlt', hrequests]
    · rw [if_neg heq]
      rw [hnone] at hown
      simpa [heq] using hown
  · rw [if_neg hr, hown]
    by_cases heq : chosen = index
    · subst heq
      rw [if_pos rfl, if_pos hlt', hknown]
      simp [hrequests, hr]
    · rw [if_neg heq]

omit [DecidableEq H] in
theorem byEngine_spec (client : DPInprocClient H) (requestIds : List RequestId) (index : ℕ)
    (r : RequestId) :
    r ∈ (client.byEngine requestIds).findD index [] ↔
      r ∈ requestIds ∧ client.requestToEngine.find r = some index := by
  suffices hfold : ∀ groups : Dict ℕ (List RequestId),
      r ∈ (requestIds.foldl (fun groups requestId =>
      match client.requestToEngine.find requestId with
      | none => groups
      | some index => groups.store index (groups.findD index [] ++ [requestId]))
        groups).findD index [] ↔ r ∈ groups.findD index [] ∨
          (r ∈ requestIds ∧ client.requestToEngine.find r = some index) by
    rw [byEngine, hfold]
    simp [Dict.findD, Dict.find, Dict.empty, Dict.findIn]
  induction requestIds with
  | nil => simp
  | cons requestId rest ih =>
      intro groups
      rw [List.foldl_cons, ih]
      cases hfind : client.requestToEngine.find requestId with
      | none =>
          dsimp only
          rw [List.mem_cons]
          by_cases hr : r = requestId
          · subst hr
            simp [hfind]
          · simp [hr]
      | some owner =>
          dsimp only
          rw [Dict.findD, Dict.find_store]
          by_cases heq : index = owner
          · subst heq
            rw [if_pos rfl, Option.getD_some, List.mem_append, List.mem_singleton, List.mem_cons]
            by_cases hr : r = requestId
            · subst hr
              simp [hfind]
            · simp [hr]
          · rw [if_neg heq, ← Dict.findD, List.mem_cons]
            by_cases hr : r = requestId
            · subst hr
              simp [hfind, Ne.symm heq]
            · simp [hr]

theorem abortGroups_owns {groups : List (ℕ × List RequestId)} (h : client.Owns)
    (hdistinct : (groups.map Prod.fst).Nodup)
    (hgroups : ∀ group ∈ groups, ∀ r ∈ group.2, client.requestToEngine.find r = some group.1)
    (hok : client.abortGroups groups = .ok client') :
    client'.Owns ∧ ∀ r, client'.requestToEngine.find r =
      if ∃ group ∈ groups, r ∈ group.2 then none else client.requestToEngine.find r := by
  induction groups generalizing client with
  | nil =>
      obtain rfl := Except.ok.inj hok
      exact ⟨h, fun r => (if_neg (by simp)).symm⟩
  | cons group rest ih =>
      obtain ⟨index, requestIds⟩ := group
      obtain ⟨hfirst, hrest⟩ := List.forall_mem_cons.mp hgroups
      rw [List.map_cons, List.nodup_cons] at hdistinct
      unfold abortGroups at hok
      obtain ⟨between, habort, hok⟩ := except_bind_iff.mp hok
      unfold abortAt at habort
      obtain ⟨core, hcore, habort⟩ := except_bind_iff.mp habort
      obtain ⟨core', haborted, habort⟩ := except_bind_iff.mp habort
      obtain rfl := Except.ok.inj habort
      rw [engineCore_ok] at hcore
      have hatRest := h.atRest core (List.mem_of_getElem? hcore)
      obtain ⟨howns, hfind⟩ := h.settle hcore (hatRest.abortRequests haborted) hfirst
        (ServingCore.abortRequests_requests hatRest.settled haborted)
      -- a request of a later group is another replica's
      have hlater : ∀ group ∈ rest, ∀ r ∈ group.2,
          ((client.called index core').releaseAll requestIds).requestToEngine.find r =
            some group.1 := by
        intro group hgroup r hr
        have hnot : r ∉ requestIds := by
          intro hmem
          have heq := Option.some.inj ((hfirst r hmem).symm.trans (hrest group hgroup r hr))
          exact hdistinct.1 (List.mem_map.mpr ⟨group, hgroup, heq.symm⟩)
        exact ((hfind r).trans (if_neg hnot)).trans (hrest group hgroup r hr)
      obtain ⟨howns', hfind'⟩ := ih howns hdistinct.2 hlater hok
      refine ⟨howns', fun r => ?_⟩
      rw [hfind', hfind]
      by_cases hr : r ∈ requestIds
      · rw [if_pos hr, ite_self, if_pos ⟨_, List.mem_cons_self, hr⟩]
      · rw [if_neg hr]
        refine if_congr ⟨fun ⟨group, hgroup, hmem⟩ => ⟨group, List.mem_cons_of_mem _ hgroup, hmem⟩,
          fun ⟨group, hgroup, hmem⟩ => ?_⟩ rfl rfl
        rcases List.mem_cons.mp hgroup with rfl | hgroup
        · exact absurd hmem hr
        · exact ⟨group, hgroup, hmem⟩

theorem abortRequests_owns (h : client.Owns) {requestIds : List RequestId}
    (hok : client.abortRequests requestIds = .ok client') :
    client'.Owns ∧ ∀ r, client'.requestToEngine.find r =
      if r ∈ requestIds then none else client.requestToEngine.find r := by
  have hgroup (group : ℕ × List RequestId) (hmem : group ∈ (client.byEngine requestIds).items)
      (r : RequestId) : r ∈ group.2 ↔
        r ∈ requestIds ∧ client.requestToEngine.find r = some group.1 := by
    have hfind := (Dict.find_eq_some_iff _ _ _).mpr hmem
    rw [← byEngine_spec, Dict.findD, hfind, Option.getD_some]
  obtain ⟨howns, hfind⟩ := abortGroups_owns h (client.byEngine requestIds).nodup_keys
    (fun group hmem r hr => ((hgroup group hmem r).mp hr).2) hok
  refine ⟨howns, fun r => (hfind r).trans ?_⟩
  by_cases hr : r ∈ requestIds
  · cases howner : client.requestToEngine.find r with
    | none => simp
    | some index =>
        have hmem := (byEngine_spec client requestIds index r).mpr ⟨hr, howner⟩
        rw [if_pos hr, if_pos]
        unfold Dict.findD at hmem
        cases hitem : (client.byEngine requestIds).find index with
        | none => rw [hitem] at hmem; cases hmem
        | some group =>
            rw [hitem] at hmem
            exact ⟨(index, group), (Dict.find_eq_some_iff _ _ _).mp hitem, hmem⟩
  · rw [if_neg hr, if_neg]
    rintro ⟨group, hmem, hgroupMem⟩
    exact hr ((hgroup group hmem r).mp hgroupMem).1

/-! ### Rounds -/

/-- What a round has told so far is what went, each request once. -/
structure Told (before client : DPInprocClient H) (merged : Dict ℕ (List EngineCoreOutput)) :
    Prop where
  owns : client.Owns
  nodup : (finishedIn (outputsOf merged)).Nodup
  known : ∀ r ∈ finishedIn (outputsOf merged), r ∈ before.requestToEngine.keys
  find : ∀ r, client.requestToEngine.find r =
    if r ∈ finishedIn (outputsOf merged) then none else before.requestToEngine.find r

omit [DecidableEq H] in
theorem perm_merge (merged outputs : Dict ℕ (List EngineCoreOutput)) :
    (outputsOf (merge merged outputs)).Perm (outputsOf merged ++ outputsOf outputs) := by
  unfold merge
  suffices hfold : ∀ entries : List (ℕ × List EngineCoreOutput), (outputsOf (entries.foldl
      (fun merged entry => merged.store entry.1 (merged.findD entry.1 [] ++ entry.2)) merged)).Perm
        (outputsOf merged ++ entries.flatMap Prod.snd) from hfold outputs.items
  intro entries
  induction entries generalizing merged with
  | nil => simp
  | cons entry rest ih =>
      have hone := merged.perm_flatMap_store entry.1 entry.2
      have hall := (ih _).trans (hone.append_right (rest.flatMap Prod.snd))
      rwa [List.append_assoc] at hall

theorem Told.stepAt {before : DPInprocClient H} {merged merged' : Dict ℕ (List EngineCoreOutput)}
    (h : Told before client merged) {draws : ℕ → RequestId → List Bool} {index : ℕ}
    (hok : client.stepAt draws index merged = .ok (merged', client')) :
    Told before client' merged' := by
  unfold DPInprocClient.stepAt at hok
  obtain ⟨core, hcore, hok⟩ := except_bind_iff.mp hok
  obtain ⟨⟨outputs, core'⟩, hstep, hok⟩ := except_bind_iff.mp hok
  obtain ⟨rfl, rfl⟩ := Prod.mk.inj (Except.ok.inj hok)
  rw [engineCore_ok] at hcore
  have hatRest := h.owns.atRest core (List.mem_of_getElem? hcore)
  obtain ⟨hrest, hfinishes⟩ := hatRest.step hstep
  have howned : ∀ r ∈ finishedIn (outputsOf outputs),
      client.requestToEngine.find r = some index := fun r hr =>
    (h.owns.find_iff hcore r).mpr (hfinishes.known r hr)
  obtain ⟨howns, hfind⟩ := h.owns.settle hcore hrest howned hfinishes.after
  have hperm : (finishedIn (outputsOf (merge merged outputs))).Perm
      (finishedIn (outputsOf merged) ++ finishedIn (outputsOf outputs)) := by
    rw [← finishedIn_append]
    exact ((perm_merge merged outputs).filter _).map _
  have hnew : ∀ r ∈ finishedIn (outputsOf outputs), r ∉ finishedIn (outputsOf merged) ∧
      before.requestToEngine.find r = some index := by
    intro r hr
    have hheld := howned r hr
    rw [h.find] at hheld
    split at hheld
    · cases hheld
    · rename_i hnot
      exact ⟨hnot, hheld⟩
  refine ⟨howns, ?_, fun r hr => ?_, fun r => ?_⟩
  · rw [hperm.nodup_iff, List.nodup_append']
    exact ⟨h.nodup, hfinishes.nodup, fun r hr hr' => (hnew r hr').1 hr⟩
  · rcases List.mem_append.mp (hperm.mem_iff.mp hr) with hr | hr
    · exact h.known r hr
    · exact (Dict.mem_keys_iff _ _).mpr ⟨index, (hnew r hr).2⟩
  · rw [hfind, h.find]
    simp only [hperm.mem_iff, List.mem_append]
    by_cases hr : r ∈ finishedIn (outputsOf outputs)
    · simp [hr]
    · simp [hr]

theorem Told.called {before : DPInprocClient H} {merged : Dict ℕ (List EngineCoreOutput)}
    (h : Told before client merged) {index : ℕ} {core core' : ServingCore H}
    (hcore : client.engineCores[index]? = some core) (hrest : core'.AtRest)
    (hsame : core'.scheduler.requests = core.scheduler.requests) :
    Told before (client.called index core') merged :=
  ⟨h.owns.unchanged hcore hrest hsame, h.nodup, h.known, h.find⟩

theorem Told.round {before : DPInprocClient H} {merged merged' : Dict ℕ (List EngineCoreOutput)}
    {draws : ℕ → RequestId → List Bool} {indexes : List ℕ} (h : Told before client merged)
    (hok : DPInprocClient.round draws indexes client merged = .ok (merged', client')) :
    Told before client' merged' := by
  induction indexes generalizing client merged with
  | nil =>
      obtain ⟨rfl, rfl⟩ := Prod.mk.inj (Except.ok.inj hok)
      exact h
  | cons index rest ih =>
      unfold DPInprocClient.round at hok
      obtain ⟨core, hcore, hok⟩ := except_bind_iff.mp hok
      split at hok
      · obtain ⟨⟨merged₁, client₁⟩, hstep, hok⟩ := except_bind_iff.mp hok
        exact ih (h.stepAt hstep) hok
      · exact ih h hok

theorem Told.lockstepRound {before : DPInprocClient H}
    {merged merged' : Dict ℕ (List EngineCoreOutput)} {draws : ℕ → RequestId → List Bool}
    {work : List (Bool × ℕ)} (h : Told before client merged)
    (hok : DPInprocClient.lockstepRound draws work client merged = .ok (merged', client')) :
    Told before client' merged' := by
  induction work generalizing client merged with
  | nil =>
      obtain ⟨rfl, rfl⟩ := Prod.mk.inj (Except.ok.inj hok)
      exact h
  | cons entry rest ih =>
      obtain ⟨hasWork, index⟩ := entry
      unfold DPInprocClient.lockstepRound at hok
      split at hok
      · obtain ⟨⟨merged₁, client₁⟩, hstep, hok⟩ := except_bind_iff.mp hok
        exact ih (h.stepAt hstep) hok
      · obtain ⟨core, hcore, hok⟩ := except_bind_iff.mp hok
        rw [engineCore_ok] at hcore
        have hatRest := h.owns.atRest core (List.mem_of_getElem? hcore)
        exact ih (h.called hcore hatRest.executeDummyBatch rfl) hok

theorem getOutput_told (h : client.Owns) {draws : ℕ → RequestId → List Bool}
    {merged : Dict ℕ (List EngineCoreOutput)}
    (hok : client.getOutput draws = .ok (merged, client')) : Told client client' merged := by
  have hstart : Told client client .empty :=
    ⟨h, List.nodup_nil, nofun, fun r => (if_neg List.not_mem_nil).symm⟩
  unfold getOutput at hok
  split at hok
  · dsimp only at hok
    split at hok
    · have hcounted : Told client
          { client with lockstepRounds := client.lockstepRounds + 1 } .empty :=
        ⟨⟨⟨h.counted.size, h.counted.inflight⟩, h.atRest, h.owner⟩, hstart.nodup, hstart.known,
          hstart.find⟩
      exact hcounted.lockstepRound hok
    · obtain ⟨rfl, rfl⟩ := Prod.mk.inj (Except.ok.inj hok)
      exact hstart
  · exact hstart.round hok

theorem Step.owns {c : Call} (hstep : Step client c client') (h : client.Owns) :
    client'.Owns := by
  have hok := hstep.ok
  cases c with
  | addRequest args dataParallelRank =>
      exact addRequest_owns h (hstep.fresh args dataParallelRank rfl) hok
  | abortRequests requestIds => exact (abortRequests_owns h hok).1
  | getOutput draws =>
      change (client.getOutput draws).map Prod.snd = .ok client' at hok
      cases hget : client.getOutput draws with
      | error e => rw [hget] at hok; cases hok
      | ok result =>
          rw [hget] at hok
          obtain rfl := Except.ok.inj hok
          exact (getOutput_told h hget).owns
  | compileGrammar index r result =>
      change (client.engineCore index).map (fun core =>
        client.called index (core.compileGrammar r result)) = .ok client' at hok
      cases hcore : client.engineCore index with
      | error e => rw [hcore] at hok; cases hok
      | ok core =>
          rw [hcore] at hok
          obtain rfl := Except.ok.inj hok
          have hcores := engineCore_ok.mp hcore
          exact h.unchanged hcores
            ((h.atRest core (List.mem_of_getElem? hcores)).compileGrammar r result)
            (ServingCore.compileGrammar_requests r result)

theorem init_owns {engineCores : List (ServingCore H)} {enableExpertParallel : Bool}
    (hstarted : ∀ core ∈ engineCores, core.Started) :
    (init engineCores enableExpertParallel).Owns := by
  refine ⟨⟨List.length_replicate, fun index hindex => ?_⟩,
    fun core hcore => (hstarted core hcore).atRest.1, fun r index => ⟨nofun, ?_⟩⟩
  · show (List.replicate engineCores.length 0)[index]? = some 0
    rw [List.getElem?_replicate_of_lt (by simpa [init] using hindex)]
  · rintro ⟨requests, hrequests, hr⟩
    obtain ⟨core, hcore, rfl⟩ := List.mem_map.mp (List.mem_of_getElem? hrequests)
    rw [(hstarted core hcore).atRest.2] at hr
    cases hr

theorem run_owns {start : DPInprocClient H} {calls : List Call} (h : start.Owns)
    (hrun : Run Step start calls client) : client.Owns :=
  hrun.invariant (P := fun _ client => client.Owns) h fun _ _ _ _ _ h hstep => hstep.owns h

/-- After any calls that return, each count is that of the ids the ledger maps to a replica, and
these are the requests the replica has not finished. Aborts go to the replica that holds the
request; and the requests that a call ends, by an abort or an output, leave the ledger, of which
a round tells once each. -/
theorem ledger_run {engineCores : List (ServingCore H)} {enableExpertParallel : Bool}
    {calls : List Call} (hstarted : ∀ core ∈ engineCores, core.Started)
    (hrun : Run Step (init engineCores enableExpertParallel) calls client) :
    (∀ index core, client.engineCores[index]? = some core →
      client.engineInflight[index]? = some (client.heldBy index).length ∧
      (client.heldBy index).length = core.getNumUnfinishedRequests ∧
      ∀ r, r ∈ client.heldBy index ↔ r ∈ core.scheduler.requests) ∧
    (∀ requestIds index r, r ∈ (client.byEngine requestIds).findD index [] →
      client.requestToEngine.find r = some index) ∧
    (∀ requestIds client', client.abortRequests requestIds = .ok client' →
      ∀ r, client'.requestToEngine.find r =
        if r ∈ requestIds then none else client.requestToEngine.find r) ∧
    ∀ draws merged client', client.getOutput draws = .ok (merged, client') →
      (finishedIn (outputsOf merged)).Nodup ∧
      (∀ r ∈ finishedIn (outputsOf merged), r ∈ client.requestToEngine.keys) ∧
      ∀ r, client'.requestToEngine.find r =
        if r ∈ finishedIn (outputsOf merged) then none else client.requestToEngine.find r := by
  have howns := run_owns (init_owns hstarted) hrun
  refine ⟨fun index core hcore => ?_, fun requestIds index r hr => ?_,
    fun requestIds client' hok => (abortRequests_owns howns hok).2,
    fun draws merged client' hok => ?_⟩
  · have hlt := (List.getElem?_eq_some_iff.mp hcore).1
    have hatRest := howns.atRest core (List.mem_of_getElem? hcore)
    have hmem (r : RequestId) : r ∈ client.heldBy index ↔ r ∈ core.scheduler.requests :=
      mem_heldBy.trans (howns.find_iff hcore r)
    refine ⟨howns.counted.inflight index (howns.counted.size ▸ hlt), ?_, hmem⟩
    rw [hatRest.getNumUnfinishedRequests]
    exact ((List.perm_ext_iff_of_nodup (client.heldBy_nodup index)
      hatRest.settled.partition.nodup).mpr hmem).length_eq
  · exact ((byEngine_spec client requestIds index r).mp hr).2
  · have htold := getOutput_told howns hok
    exact ⟨htold.nodup, htold.known, htold.find⟩

theorem Step.add {args : RequestArgs} {dataParallelRank : Option ℤ}
    (hfresh : args.requestId ∉ client.requestToEngine.keys)
    (hok : client.addRequest args dataParallelRank = .ok client') :
    Step client (.addRequest args dataParallelRank) client' where
  fresh args' rank heq := by
    cases heq
    exact hfresh
  ok := hok

theorem Step.abort {requestIds : List RequestId}
    (hok : client.abortRequests requestIds = .ok client') :
    Step client (.abortRequests requestIds) client' where
  fresh args' rank heq := by cases heq
  ok := hok

/-- Two replicas are given a request each; one is aborted, and the other ends in a round. -/
def twoReplicas : Except PyError (ServingCore Digest × DPInprocClient Digest ×
    DPInprocClient Digest × DPInprocClient Digest × Dict ℕ (List EngineCoreOutput) ×
    DPInprocClient Digest) := do
  let engine ← EngineCore.smallCore (Scheduler.shortConfig .fcfs) 8
  let core : ServingCore Digest := ⟨engine, ⟨"auto", false⟩⟩
  let client₁ ← (init [core, core] false).addRequest (.text 1 [1, 2, 3, 4, 5] 1) none
  let client₂ ← client₁.addRequest (.text 2 [1, 2, 3] 4) none
  let client₃ ← client₂.abortRequests [2, 7]
  let (merged, client₄) ← client₃.getOutput fun _ _ => []
  return (core, client₁, client₂, client₃, merged, client₄)

theorem ledger_twoReplicas : ∃ (client client₂ client' : DPInprocClient Digest)
    (merged : Dict ℕ (List EngineCoreOutput)),
    client₂.engineInflight = [1, 1] ∧ client.engineInflight = [1, 0] ∧
      client.getOutput (fun _ _ => []) = .ok (merged, client') ∧ client'.engineInflight = [0, 0] ∧
      finishedIn (outputsOf merged) = [1] ∧ (finishedIn (outputsOf merged)).Nodup := by
  obtain ⟨⟨core, client₁, client₂, client₃, merged, client₄⟩, hrun, hcheck⟩ :=
    exists_of_okAnd (x := twoReplicas) (p := fun (_, client₁, client₂, client₃, merged, client₄) =>
      decide (2 ∉ client₁.requestToEngine.keys ∧ client₂.engineInflight = [1, 1] ∧
        client₃.engineInflight = [1, 0] ∧ client₄.engineInflight = [0, 0] ∧
        finishedIn (outputsOf merged) = [1])) (by decide +kernel)
  obtain ⟨hfresh, hboth, hone, hnone, htold⟩ := of_decide_eq_true hcheck
  unfold twoReplicas at hrun
  obtain ⟨engine, hengine, hrun⟩ := except_bind_iff.mp hrun
  dsimp only at hrun
  obtain ⟨_, hfirst, hrun⟩ := except_bind_iff.mp hrun
  obtain ⟨_, hsecond, hrun⟩ := except_bind_iff.mp hrun
  obtain ⟨_, habort, hrun⟩ := except_bind_iff.mp hrun
  obtain ⟨⟨told, final⟩, houtput, hrun⟩ := except_bind_iff.mp hrun
  cases hrun
  have hstarted : ∀ core ∈ [(⟨engine, ⟨"auto", false⟩⟩ : ServingCore Digest),
      ⟨engine, ⟨"auto", false⟩⟩], core.Started := by
    intro core hcore
    rw [show core = ⟨engine, ⟨"auto", false⟩⟩ by simpa using hcore]
    exact ⟨_, _, _, _, _, _, _, _, _, hengine⟩
  have hsteps := ((Run.nil.snoc (Step.add List.not_mem_nil hfirst)).snoc
    (Step.add hfresh hsecond)).snoc (Step.abort habort)
  exact ⟨client₃, client₂, final, told, hboth, hone, houtput, hnone, htold,
    ((ledger_run hstarted hsteps).2.2.2 _ _ _ houtput).1⟩

end DPInprocClient

end Pvllm
