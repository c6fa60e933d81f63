import Pvllm.Core.Sched.Coverage
import Pvllm.Worker.ModelRunner

/-!
What a step of the worker does with its multimodal items and its encoder outputs.

Items are stored with a request that is new to the worker and dropped when it is
finished. Outputs are dropped and produced by a step that has something to run: a step
without tokens ends before it comes to them.
-/

namespace Pvllm

namespace SimModelRunner

variable {runner runner' : SimModelRunner} {output : SchedulerOutput}

/-! ### The halves of a step -/

/-- What the first half of a step does. -/
theorem planStep_ok {batch : Option InputBatch}
    (h : runner.planStep output = .ok (runner', batch)) :
    (output.totalNumScheduledTokens = 0 ∧ batch = none ∧
        runner' = (runner.finishRequests output).freeStates output) ∨
      (output.totalNumScheduledTokens ≠ 0 ∧ ∃ added updated rows,
        ((runner.finishRequests output).freeStates output).addRequests output = .ok added ∧
        added.updateRequests output = .ok updated ∧ updated.prepareInputs output = .ok rows ∧
        batch = some rows ∧
        runner' = (updated.discardEncoderOutputs output).encodeInputs output) := by
  unfold planStep at h
  dsimp only at h
  split at h
  · rename_i hzero
    cases h
    exact Or.inl ⟨hzero, rfl, rfl⟩
  · rename_i hsome
    obtain ⟨added, hadded, h⟩ := except_bind_iff.mp h
    obtain ⟨updated, hupdated, h⟩ := except_bind_iff.mp h
    obtain ⟨rows, hrows, h⟩ := except_bind_iff.mp h
    obtain ⟨_, -, h⟩ := except_bind_iff.mp h
    cases h
    exact Or.inr ⟨hsome, added, updated, rows, hadded, hupdated, hrows, rfl, rfl⟩

/-! ### The encoder's part -/

/-- The items and the encoder outputs stay. -/
structure SameEncoder (runner runner' : SimModelRunner) : Prop where
  mmFeatures : runner'.reqStates.mmFeatures = runner.reqStates.mmFeatures
  encoderOutputs : runner'.encoderOutputs = runner.encoderOutputs

theorem SameEncoder.refl (runner : SimModelRunner) : SameEncoder runner runner := ⟨rfl, rfl⟩

theorem SameEncoder.trans {runner'' : SimModelRunner} (h : SameEncoder runner runner')
    (h' : SameEncoder runner' runner'') : SameEncoder runner runner'' :=
  ⟨h'.mmFeatures.trans h.mmFeatures, h'.encoderOutputs.trans h.encoderOutputs⟩

theorem removeOne_sameEncoder (runner : SimModelRunner) (r : RequestId) :
    SameEncoder runner (runner.removeOne r) := by
  unfold removeOne RequestState.removeRequest
  cases runner.reqStates.reqIdToIndex.find r with
  | none => exact ⟨rfl, rfl⟩
  | some reqIdx => exact ⟨rfl, rfl⟩

theorem freeStates_sameEncoder (runner : SimModelRunner) (output : SchedulerOutput) :
    SameEncoder runner (runner.freeStates output) := by
  unfold freeStates
  generalize output.preemptedReqIds.getD [] = reqIds
  induction reqIds generalizing runner with
  | nil => exact .refl runner
  | cons r reqIds ih => exact (removeOne_sameEncoder runner r).trans (ih _)

theorem updateOne_sameEncoder {r : RequestId} {newTokenIds : List TokenId} {n m : ℕ}
    {newBlockIds : Option (List (List BlockId))}
    (h : runner.updateOne r newTokenIds n m newBlockIds = .ok runner') :
    SameEncoder runner runner' := by
  unfold updateOne at h
  split at h
  · cases h
  · obtain ⟨tables, -, h⟩ := except_bind_iff.mp h
    cases h
    exact ⟨rfl, rfl⟩

theorem updateFrom_sameEncoder {cached : CachedRequestData} {i : ℕ} {reqIds : List RequestId}
    (h : updateFrom cached runner i reqIds = .ok runner') : SameEncoder runner runner' := by
  induction reqIds generalizing runner i with
  | nil =>
      cases h
      exact .refl _
  | cons r reqIds ih =>
      unfold updateFrom at h
      split at h
      · cases h
      rename_i next hnext
      exact (updateOne_sameEncoder hnext).trans (ih h)

theorem finishRequests_encoder (runner : SimModelRunner) (output : SchedulerOutput) :
    (∀ r, (runner.finishRequests output).reqStates.mmFeatures.find r =
        if r ∈ output.finishedReqIds then none else runner.reqStates.mmFeatures.find r) ∧
      (runner.finishRequests output).encoderOutputs = runner.encoderOutputs := by
  unfold finishRequests
  generalize output.finishedReqIds = reqIds
  induction reqIds generalizing runner with
  | nil => exact ⟨fun r => rfl, rfl⟩
  | cons r reqIds ih =>
      obtain ⟨hfind, houtputs⟩ := ih (runner.finishOne r)
      have hsame := removeOne_sameEncoder { runner with
        reqStates := { runner.reqStates with
          mmFeatures := runner.reqStates.mmFeatures.delete r }
        poolingRequests := runner.poolingRequests.delete r } r
      refine ⟨fun r' => ?_, houtputs.trans hsame.encoderOutputs⟩
      rw [List.foldl_cons, hfind, finishOne, hsame.mmFeatures, Dict.find_delete]
      by_cases heq : r' = r
      · simp [heq]
      · simp [heq]

theorem addRequests_encoder {features : RequestId → List MultiModalFeatureSpec}
    (hfeatures : ∀ new ∈ output.scheduledNewReqs, new.mmFeatures = features new.reqId)
    (h : runner.addRequests output = .ok runner') :
    (∀ r, runner'.reqStates.mmFeatures.find r =
        if r ∈ output.scheduledNewReqs.map (·.reqId) ∧ features r ≠ [] then some (features r)
        else runner.reqStates.mmFeatures.find r) ∧
      runner'.encoderOutputs = runner.encoderOutputs := by
  unfold addRequests at h
  revert hfeatures h
  generalize output.scheduledNewReqs = newReqs
  intro hfeatures h
  induction newReqs generalizing runner with
  | nil =>
      cases h
      exact ⟨fun r => by simp, rfl⟩
  | cons new newReqs ih =>
      rw [List.foldlM_cons] at h
      obtain ⟨next, hnext, h⟩ := except_bind_iff.mp h
      obtain ⟨hnew, hrest⟩ := List.forall_mem_cons.mp hfeatures
      obtain ⟨hfind, houtputs⟩ := ih hrest h
      unfold addOne at hnext
      obtain ⟨⟨reqIdx, states⟩, hadd, hnext⟩ := except_bind_iff.mp hnext
      obtain ⟨tables, -, hnext⟩ := except_bind_iff.mp hnext
      cases hnext
      obtain ⟨-, -, rfl⟩ := RequestState.addRequest_ok hadd
      refine ⟨fun r => ?_, houtputs⟩
      rw [hfind, hnew]
      dsimp only
      by_cases hin : r ∈ newReqs.map (·.reqId) ∧ features r ≠ []
      · rw [if_pos hin, if_pos ⟨List.mem_cons_of_mem _ hin.1, hin.2⟩]
      · rw [if_neg hin]
        by_cases heq : r = new.reqId
        · subst heq
          by_cases hnone : features new.reqId = []
          · simp [hnone]
          · simp [hnone]
        · have hnot : ¬ (r ∈ (new :: newReqs).map (·.reqId) ∧ features r ≠ []) := by
            simpa [heq] using hin
          rw [if_neg hnot]
          split
          · rfl
          · exact Dict.find_store_of_ne _ _ heq

theorem mem_foldl_insertNew {l l' : List String} {mmHash : String} :
    mmHash ∈ l.foldl EncoderCacheManager.insertNew l' ↔ mmHash ∈ l' ∨ mmHash ∈ l := by
  induction l generalizing l' with
  | nil => simp
  | cons a l ih =>
      rw [List.foldl_cons, ih, EncoderCacheManager.mem_insertNew, List.mem_cons]
      tauto

def itemsFor (runner : SimModelRunner) (r : RequestId) : List MultiModalFeatureSpec :=
  runner.reqStates.mmFeatures.findD r []

def encodesIn (runner : SimModelRunner) (output : SchedulerOutput) : List String :=
  output.scheduledEncoderInputs.items.flatMap fun entry =>
    hashesOf (runner.itemsFor entry.1) entry.2

/-- What a step leaves of the items and the encoder outputs. -/
structure Encoded (features : RequestId → List MultiModalFeatureSpec) (output : SchedulerOutput)
    (runner runner' : SimModelRunner) : Prop where
  items : ∀ r, runner'.reqStates.mmFeatures.find r =
    if output.totalNumScheduledTokens ≠ 0 ∧ r ∈ output.scheduledNewReqs.map (·.reqId) ∧
      features r ≠ [] then some (features r)
    else if r ∈ output.finishedReqIds then none
    else runner.reqStates.mmFeatures.find r
  idle : output.totalNumScheduledTokens = 0 → runner'.encoderOutputs = runner.encoderOutputs
  outputs : output.totalNumScheduledTokens ≠ 0 → ∀ mmHash, mmHash ∈ runner'.encoderOutputs ↔
    mmHash ∈ runner.encoderOutputs ∧ mmHash ∉ output.freeEncoderMmHashes ∨
      mmHash ∈ runner'.encodesIn output

theorem planStep_encoded {features : RequestId → List MultiModalFeatureSpec}
    {batch : Option InputBatch}
    (hfeatures : ∀ new ∈ output.scheduledNewReqs, new.mmFeatures = features new.reqId)
    (h : runner.planStep output = .ok (runner', batch)) :
    Encoded features output runner runner' := by
  obtain ⟨hfinished, hkept⟩ := finishRequests_encoder runner output
  have hfreed := freeStates_sameEncoder (runner.finishRequests output) output
  rcases planStep_ok h with ⟨hzero, -, rfl⟩ | ⟨hsome, added, updated, rows, hadded,
    hupdated, -, -, rfl⟩
  · refine ⟨fun r => ?_, fun _ => hfreed.encoderOutputs.trans hkept, fun hsome => ?_⟩
    · rw [if_neg fun h => h.1 hzero, hfreed.mmFeatures, hfinished]
    · exact absurd hzero hsome
  · obtain ⟨hfind, houtputs⟩ := addRequests_encoder hfeatures hadded
    have hsame := updateFrom_sameEncoder hupdated
    refine ⟨fun r => ?_, fun hzero => absurd hzero hsome, fun _ mmHash => ?_⟩
    · show updated.reqStates.mmFeatures.find r = _
      rw [hsame.mmFeatures, hfind, hfreed.mmFeatures, hfinished]
      simp [hsome]
    · show mmHash ∈ List.foldl _ _ _ ↔ _
      rw [mem_foldl_insertNew]
      show mmHash ∈ List.filter _ updated.encoderOutputs ∨ _ ↔ _
      rw [hsame.encoderOutputs, houtputs, hfreed.encoderOutputs, hkept, List.mem_filter,
        decide_eq_true_eq]
      rfl

/-- The second half of a step leaves the encoder alone. -/
theorem finishStep_sameEncoder {draws : RequestId → List Bool} {batch : Option InputBatch}
    {modelRunnerOutput : ModelRunnerOutput}
    (h : runner.finishStep output draws batch = (modelRunnerOutput, runner')) :
    SameEncoder runner runner' := by
  cases batch with
  | none =>
      cases h
      exact .refl runner
  | some rows =>
      cases h
      refine ⟨?_, rfl⟩
      show (rows.foldl _ runner.reqStates).mmFeatures = _
      generalize runner.reqStates = states
      induction rows generalizing states with
      | nil => rfl
      | cons row rows ih => exact ih _

end SimModelRunner

end Pvllm
