import Pvllm.Core.Request
import Pvllm.Library.Dict

/-!
The worker's memory of the requests it is serving.

Every request in service has a slot. The arrays of the source that are indexed by
slot are one record for each slot here. Free slots are a stack: the slot released
last is taken first.
-/

namespace Pvllm

/-- What the arrays say of one slot. -/
structure RequestRow where
  promptLen : ℕ
  prefillLen : ℕ
  totalLen : ℕ
  numComputedTokens : ℕ
  numComputedPrefillTokens : ℕ
  maxSeqLen : ℕ
  numOutputTokens : ℕ
  allTokenIds : List TokenId
deriving Repr, DecidableEq

structure RequestState where
  maxNumReqs : ℕ
  reqIdToIndex : Dict RequestId ℕ
  freeIndices : List ℕ
  row : ℕ → RequestRow
  mmFeatures : Dict RequestId (List MultiModalFeatureSpec)

namespace RequestState

def init (maxNumReqs : ℕ) : RequestState where
  maxNumReqs := maxNumReqs
  reqIdToIndex := .empty
  freeIndices := List.range maxNumReqs
  row := fun _ => ⟨0, 0, 0, 0, 0, 0, 0, []⟩
  mmFeatures := .empty

variable (states : RequestState)

def numReqs : ℕ := states.reqIdToIndex.keys.length

def modifyRow (reqIdx : ℕ) (f : RequestRow → RequestRow) : RequestState :=
  { states with row := Function.update states.row reqIdx (f (states.row reqIdx)) }

/-- What a slot says of a request that has just taken it. -/
def freshRow (promptLen : ℕ) (allTokenIds : List TokenId) (numComputedTokens maxTokens : ℕ) :
    RequestRow where
  promptLen := promptLen
  prefillLen := allTokenIds.length
  totalLen := allTokenIds.length
  numComputedTokens := numComputedTokens
  numComputedPrefillTokens := numComputedTokens
  maxSeqLen := promptLen + maxTokens
  numOutputTokens := allTokenIds.length - promptLen
  allTokenIds := allTokenIds

def addRequest (reqId : RequestId) (promptLen : ℕ) (allTokenIds : List TokenId)
    (numComputedTokens maxTokens : ℕ) : Except PyError (ℕ × RequestState) :=
  match states.freeIndices.getLast? with
  | none => .error (.runtimeError
      (s!"no free request slots: the worker holds {states.numReqs} requests and max_num_seqs is "
        ++ s!"{states.maxNumReqs}. The scheduler should not have admitted another (R5.3)."))
  | some reqIdx =>
    if allTokenIds.length < promptLen then
      .error (.assertionError
        s!"request {reqId} has prefill_len {allTokenIds.length} < prompt_len {promptLen}")
    else
      .ok (reqIdx, { states with
        reqIdToIndex := states.reqIdToIndex.store reqId reqIdx
        freeIndices := states.freeIndices.dropLast
        row := Function.update states.row reqIdx
          (freshRow promptLen allTokenIds numComputedTokens maxTokens) })

variable {states} in
theorem addRequest_ok {states' : RequestState} {reqId : RequestId} {promptLen reqIdx : ℕ}
    {allTokenIds : List TokenId} {numComputedTokens maxTokens : ℕ}
    (h : states.addRequest reqId promptLen allTokenIds numComputedTokens maxTokens =
      .ok (reqIdx, states')) :
    states.freeIndices.getLast? = some reqIdx ∧ promptLen ≤ allTokenIds.length ∧
      states' = { states with
        reqIdToIndex := states.reqIdToIndex.store reqId reqIdx
        freeIndices := states.freeIndices.dropLast
        row := Function.update states.row reqIdx
          (freshRow promptLen allTokenIds numComputedTokens maxTokens) } := by
  unfold addRequest at h
  split at h
  · cases h
  rename_i hlast
  split at h
  · cases h
  · rename_i hlen
    cases h
    exact ⟨hlast, not_lt.mp hlen, rfl⟩

def appendTokens (reqIdx : ℕ) (tokenIds : List TokenId) : RequestState :=
  states.modifyRow reqIdx fun row => { row with
    allTokenIds := row.allTokenIds ++ tokenIds
    totalLen := row.totalLen + tokenIds.length
    numOutputTokens := row.numOutputTokens + tokenIds.length }

def setNumComputedTokens (reqIdx numComputed : ℕ) : RequestState :=
  states.modifyRow reqIdx fun row => { row with
    numComputedTokens := numComputed
    numComputedPrefillTokens := min numComputed row.prefillLen }

/-- Release a request's slot. Returns the freed index, or none if unknown. -/
def removeRequest (reqId : RequestId) : Option ℕ × RequestState :=
  match states.reqIdToIndex.find reqId with
  | none => (none, states)
  | some reqIdx => (some reqIdx, { states with
      reqIdToIndex := states.reqIdToIndex.delete reqId
      freeIndices := states.freeIndices ++ [reqIdx]
      row := Function.update states.row reqIdx
        { states.row reqIdx with allTokenIds := [] } })

end RequestState

end Pvllm
