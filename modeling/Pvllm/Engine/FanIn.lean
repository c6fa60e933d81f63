import Pvllm.Engine.StopStrings
import Pvllm.Library.Separated

/-!
Parallel sampling: what a client gets of a request for several completions.

`Fan` follows each of the children on its own: the completions its outputs make, and its
state until it finishes or the request is aborted. It knows nothing of the parent. The
run of the processor is then compared with it: what goes out under the parent's id is
what the children make, gathered in the order of their indices or sent on as it comes.
-/

namespace Pvllm.Frontend

variable {σ : Type}

/-! ### The ids of children -/

theorem underscore_not_mem_digits (n : ℕ) : '_' ∉ digits n :=
  not_mem_toDigits (by decide) n

theorem digits_injective : Function.Injective digits := toDigits_injective

theorem childId_inj {requestId requestId' : Text} {index index' : ℕ} :
    ParentRequest.childId requestId index = ParentRequest.childId requestId' index' ↔
      requestId = requestId' ∧ index = index' := by
  unfold ParentRequest.childId
  rw [append_cons_inj_of_not_mem_left (underscore_not_mem_digits _) (underscore_not_mem_digits _),
    digits_injective.eq_iff, and_comm]

/-- The ids of the children of a request for `n` completions. -/
def childIds (requestId : Text) (n : ℕ) : List Text :=
  (List.range n).map (ParentRequest.childId requestId)

theorem mem_childIds {requestId id : Text} {n : ℕ} :
    id ∈ childIds requestId n ↔ ∃ i < n, ParentRequest.childId requestId i = id := by
  simp [childIds]

/-! ### The children on their own -/

/-- The completions of a child so far, and its state while it is in flight. -/
structure Child (σ : Type) where
  chunks : List CompletionOutput
  state : Option (RequestState σ)

def Child.finished (child : Child σ) : Bool :=
  child.chunks.getLast?.any (·.finishReason.isSome)

/-- An output of the child makes a completion. -/
def Child.output (decoder : Decoder σ) (now : ℚ) (output : EngineCoreOutput) (child : Child σ) :
    Child σ :=
  match child.state with
  | none => child
  | some state =>
    match state.kind with
    | .pool => child
    | .generate params =>
      let turn := state.prefilled.turn decoder params now output
      ⟨child.chunks ++ [turn.completion],
        if turn.finishReason.isSome then none else some turn.state⟩

/-- The children of a request, and whether it was aborted. -/
structure Fan (σ : Type) where
  children : ℕ → Child σ
  aborted : Bool

namespace Fan

variable (detokenizing : Detokenizing σ) (requestId : Text)

def abort (fan : Fan σ) : Fan σ := ⟨fun i => { fan.children i with state := none }, true⟩

def step (fan : Fan σ) : Call → Fan σ
  | .processOutput now output =>
    { fan with children := fun i =>
        if output.requestId = ParentRequest.childId requestId i then
          (fan.children i).output detokenizing.toDecoder now output
        else fan.children i }
  | .abortRequests requestIds => if requestIds.contains requestId then fan.abort else fan
  | _ => fan

theorem step_abortRequests (fan : Fan σ) (requestIds : List Text) :
    fan.step detokenizing requestId (.abortRequests requestIds) =
      if requestId ∈ requestIds then fan.abort else fan := by
  simp [step]

def run (fan : Fan σ) (calls : List Call) : Fan σ := calls.foldl (step detokenizing requestId) fan

def finished (fan : Fan σ) (n : ℕ) : Bool := (List.range n).all fun i => (fan.children i).finished

def unfinished (fan : Fan σ) (n : ℕ) : List Text :=
  ((List.range n).filter fun i => !(fan.children i).finished).map (ParentRequest.childId requestId)

end Fan

/-! ### What goes out -/

def reports (requestId : Text) (emitted : List ClientOutput) : List RequestOutput :=
  emitted.filterMap fun
    | .request output => if output.requestId = requestId then some output else none
    | .pooling _ => none

def fanOut (ref n : ℕ) (prompt : Option Text) (promptTokenIds : List TokenId)
    (arrivalTime : ℕ → ℚ) : List Call :=
  (List.range n).map fun i => .addChild ref i prompt promptTokenIds (arrivalTime i)

/-- No request in flight has the id, or one of its children's, and none reports under it. -/
structure Fresh (processor : OutputProcessor σ) (requestId : Text) (n : ℕ) : Prop where
  own : processor.requestStates.find requestId = none
  children : ∀ i < n, processor.requestStates.find (ParentRequest.childId requestId i) = none
  parent : processor.parentRequests.find requestId = none
  reports : ∀ id state ref parent, processor.requestStates.find id = some state →
    state.parentRequest = some ref → processor.parents[ref]? = some parent →
    parent.requestId ≠ requestId

/-- A call of others: it registers nothing under the id of the request or of a child, and
aborts no child by its own id. -/
def Call.Apart (requestId : Text) (n : ℕ) (processor : OutputProcessor σ) : Call → Prop
  | .addRequest id .. => id ≠ requestId ∧ id ∉ childIds requestId n
  | .newParent .. => True
  | .addChild ref index .. => ∀ parent, processor.parents[ref]? = some parent →
      parent.requestId ≠ requestId ∧ ParentRequest.childId parent.requestId index ≠ requestId
  | .abortRequests requestIds => ∀ id ∈ requestIds, id ∉ childIds requestId n
  | .processOutput .. => True
  | .takeStoppedByString => True

def Session.Apart (detokenizing : Detokenizing σ) (requestId : Text) (n : ℕ) :
    Session σ → List Call → Prop
  | _, [] => True
  | session, c :: calls =>
    c.Apart requestId n session.processor ∧
      Apart detokenizing requestId n (session.call detokenizing c) calls

theorem Session.Apart.append {detokenizing : Detokenizing σ} {requestId : Text} {n : ℕ}
    {session : Session σ} {calls earlier later : List Call}
    (h : session.Apart detokenizing requestId n calls) (heq : calls = earlier ++ later) :
    session.Apart detokenizing requestId n earlier ∧
      (session.run detokenizing earlier).Apart detokenizing requestId n later := by
  subst heq
  induction earlier generalizing session with
  | nil => exact ⟨trivial, h⟩
  | cons c earlier ih => exact ⟨⟨h.1, (ih h.2).1⟩, (ih h.2).2⟩

def Fan.finals (fan : Fan σ) (n : ℕ) : List (Option CompletionOutput) :=
  (List.range n).map fun i => (fan.children i).chunks.getLast?

/-- What a client is given of the completions of `n` children. -/
structure Gathered (params : SamplingParams) (prompt : Option Text)
    (promptTokenIds : List TokenId) (fan : Fan σ) (outputs : List RequestOutput) : Prop where
  prompts : ∀ output ∈ outputs, output.prompt = prompt ∧ output.promptTokenIds = promptTokenIds
  delta : params.outputKind = .delta →
    (∀ output ∈ outputs, ∃ completion, output.outputs = [completion] ∧
      completion.index < params.n) ∧
    ∀ i < params.n, (outputs.flatMap (·.outputs)).filter (·.index = i) = (fan.children i).chunks
  gathered : params.outputKind ≠ .delta →
    outputs.map (fun output => output.outputs.map some) =
      if fan.finished params.n then [fan.finals params.n] else []
  last : if fan.finished params.n then
      ∃ before output, outputs = before ++ [output] ∧ output.finished = true ∧
        ∀ earlier ∈ before, earlier.finished = false
    else ∀ output ∈ outputs, output.finished = false

def Fan.parent (requestId : Text) (params : SamplingParams) (fan : Fan σ) : ParentRequest where
  requestId := requestId
  samplingParams := params
  childRequests := fan.unfinished requestId params.n
  outputAggregator := if params.outputKind = .delta then [] else fan.finals params.n

/-- The processor holds of a request what its children need. -/
structure Fanned (requestId : Text) (params : SamplingParams) (prompt : Option Text)
    (promptTokenIds : List TokenId) (ref : ℕ) (fan : Fan σ) (processor : OutputProcessor σ) :
    Prop where
  beyond : ∀ i, params.n ≤ i → (fan.children i).state = none
  live : ∀ i < params.n, processor.requestStates.find (ParentRequest.childId requestId i) =
    (fan.children i).state
  child : ∀ i < params.n, ∀ state, (fan.children i).state = some state →
    (fan.children i).finished = false ∧ fan.aborted = false ∧
      state.kind = .generate ((ParentRequest.init requestId params).childParams i) ∧
      state.prompt = prompt ∧ state.promptTokenIds = promptTokenIds ∧
      state.parentRequest = some ref ∧ state.index = i
  gone : ∀ i < params.n, (fan.children i).state = none →
    (fan.children i).finished = true ∨ fan.aborted = true
  parent : processor.parents[ref]? = some (fan.parent requestId params)
  registry : processor.parentRequests.find requestId =
    if fan.aborted || fan.finished params.n then none else some ref
  own : processor.requestStates.find requestId = none
  foreign : ∀ id state ref' parent, processor.requestStates.find id = some state →
    state.parentRequest = some ref' → processor.parents[ref']? = some parent →
    parent.requestId = requestId → ref' = ref

/-! ### Calls of others -/

section Frame

variable {detokenizing : Detokenizing σ} {requestId : Text} {params : SamplingParams}
  {prompt : Option Text} {promptTokenIds : List TokenId} {ref : ℕ} {fan : Fan σ}
  {processor : OutputProcessor σ}

/-- What a call of others may change. -/
theorem Fanned.frame (h : Fanned requestId params prompt promptTokenIds ref fan processor)
    {new : OutputProcessor σ}
    (hlive : ∀ i < params.n, new.requestStates.find (ParentRequest.childId requestId i) =
      processor.requestStates.find (ParentRequest.childId requestId i))
    (hparent : new.parents[ref]? = processor.parents[ref]?)
    (hregistry : new.parentRequests.find requestId = processor.parentRequests.find requestId)
    (hown : new.requestStates.find requestId = none)
    (hforeign : ∀ id state ref' parent, new.requestStates.find id = some state →
      state.parentRequest = some ref' → ref' ≠ ref → new.parents[ref']? = some parent →
      parent.requestId ≠ requestId) :
    Fanned requestId params prompt promptTokenIds ref fan new where
  beyond := h.beyond
  live i hi := (hlive i hi).trans (h.live i hi)
  child := h.child
  gone := h.gone
  parent := hparent.trans h.parent
  registry := hregistry.trans h.registry
  own := hown
  foreign id state ref' parent hstate href hparent hid :=
    by_contra fun hne => hforeign id state ref' parent hstate href hne hparent hid

/-- A request in flight that is no child of this one has another parent, if any. -/
theorem Fanned.other (h : Fanned requestId params prompt promptTokenIds ref fan processor)
    (hsound : processor.Sound) {id : Text} {state : RequestState σ} {ref' : ℕ}
    (hid : id ∉ childIds requestId params.n) (hstate : processor.requestStates.find id = some state)
    (href : state.parentRequest = some ref') :
    ref' ≠ ref ∧
      ∃ parent, processor.parents[ref']? = some parent ∧ parent.requestId ≠ requestId := by
  obtain ⟨parent, hparent, -, hchild, hlt⟩ := hsound.child id state ref' hstate href
  have hne : ref' ≠ ref := by
    rintro rfl
    obtain rfl := Option.some.inj (hparent.symm.trans h.parent)
    exact hid (mem_childIds.mpr ⟨state.index, hlt, hchild.symm⟩)
  exact ⟨hne, parent, hparent,
    fun heq => hne (h.foreign id state ref' parent hstate href hparent heq)⟩

/-- The parents after a call are those before it, by their ids. -/
def SameParents (old new : OutputProcessor σ) : Prop :=
  ∀ (ref : ℕ) (parent : ParentRequest), new.parents[ref]? = some parent →
    ∃ before, old.parents[ref]? = some before ∧ parent.requestId = before.requestId

theorem SameParents.of_eq {old new : OutputProcessor σ} (h : new.parents = old.parents) :
    SameParents old new :=
  fun _ parent hparent => ⟨parent, h ▸ hparent, rfl⟩

theorem SameParents.of_set {old new : OutputProcessor σ} {ref : ℕ} {before after : ParentRequest}
    (h : new.parents = old.parents.set ref after) (hbefore : old.parents[ref]? = some before)
    (hid : after.requestId = before.requestId) : SameParents old new := by
  intro ref' parent hparent
  rw [h, List.getElem?_set] at hparent
  split at hparent
  · rename_i heq
    split at hparent
    · obtain rfl := Option.some.inj hparent
      exact ⟨before, heq ▸ hbefore, hid⟩
    · cases hparent
  · exact ⟨parent, hparent, rfl⟩

theorem SameParents.of_kept {old new : OutputProcessor σ} (h : OutputProcessor.ParentsKept old new)
    (hlength : new.parents.length = old.parents.length) : SameParents old new := by
  intro ref parent hparent
  have hlt := (List.getElem?_eq_some_iff.mp hparent).1
  obtain ⟨after, hafter, hkeeps⟩ := h ref _ (List.getElem?_eq_getElem (hlength ▸ hlt))
  obtain rfl := Option.some.inj (hafter.symm.trans hparent)
  exact ⟨_, List.getElem?_eq_getElem (hlength ▸ hlt), hkeeps.requestId⟩

theorem Fanned.foreign_keep (h : Fanned requestId params prompt promptTokenIds ref fan processor)
    {new : OutputProcessor σ} (hparents : SameParents processor new)
    (hstates : ∀ id state, new.requestStates.find id = some state →
      ∃ before, processor.requestStates.find id = some before ∧ state.Same before) :
    ∀ id state ref' parent, new.requestStates.find id = some state →
      state.parentRequest = some ref' → ref' ≠ ref → new.parents[ref']? = some parent →
      parent.requestId ≠ requestId := by
  intro id state ref' parent hstate href hne hparent hid
  obtain ⟨before, hbefore, hsame⟩ := hstates id state hstate
  obtain ⟨parent', hparent', heq⟩ := hparents ref' parent hparent
  exact hne (h.foreign id before ref' parent' hbefore (hsame.parentRequest ▸ href) hparent'
    (heq ▸ hid))

theorem childId_mem {i : ℕ} (hi : i < params.n) :
    ParentRequest.childId requestId i ∈ childIds requestId params.n :=
  mem_childIds.mpr ⟨i, hi, rfl⟩

theorem unfinished_subset (fan : Fan σ) {id : Text} (h : id ∈ fan.unfinished requestId params.n) :
    id ∈ childIds requestId params.n := by
  obtain ⟨i, hi, rfl⟩ := List.mem_map.mp h
  exact childId_mem (List.mem_range.mp (List.mem_of_mem_filter hi))

theorem Fanned.find_unfinished
    (h : Fanned requestId params prompt promptTokenIds ref fan processor)
    (haborted : fan.aborted = false) {id : Text} (hid : id ∈ fan.unfinished requestId params.n) :
    (processor.requestStates.find id).isSome = true := by
  obtain ⟨i, hi, rfl⟩ := List.mem_map.mp hid
  obtain ⟨hlt, hunfinished⟩ := List.mem_filter.mp hi
  rw [List.mem_range] at hlt
  rw [h.live i hlt, Option.isSome_iff_ne_none]
  intro hnone
  rcases h.gone i hlt hnone with hfinished | hgone
  · rw [hfinished] at hunfinished
    cases hunfinished
  · rw [haborted] at hgone
    cases hgone

theorem unfinished_eq_nil_of_finished {n : ℕ} (h : fan.finished n = true) :
    fan.unfinished requestId n = [] := by
  unfold Fan.unfinished
  rw [List.map_eq_nil_iff, List.filter_eq_nil_iff]
  intro i hi
  have hfinished := List.all_eq_true.mp h i hi
  simp [hfinished]

theorem finished_iff_unfinished {n : ℕ} :
    fan.finished n = true ↔ fan.unfinished requestId n = [] := by
  refine ⟨unfinished_eq_nil_of_finished, fun h => List.all_eq_true.mpr fun i hi => ?_⟩
  rw [Fan.unfinished, List.map_eq_nil_iff, List.filter_eq_nil_iff] at h
  simpa using h i hi

/-- Nothing is left of an aborted request but the parent. -/
theorem Fanned.abort (h : Fanned requestId params prompt promptTokenIds ref fan processor)
    {new : OutputProcessor σ}
    (hlive : ∀ i < params.n, new.requestStates.find (ParentRequest.childId requestId i) = none)
    (hparent : new.parents = processor.parents)
    (hregistry : new.parentRequests.find requestId = none)
    (hstates : ∀ id state, new.requestStates.find id = some state →
      processor.requestStates.find id = some state) :
    Fanned requestId params prompt promptTokenIds ref fan.abort new where
  beyond _ _ := rfl
  live i hi := hlive i hi
  child _ _ _ hstate := by cases hstate
  gone _ _ _ := Or.inr rfl
  parent := by
    rw [hparent]
    exact h.parent
  registry := hregistry
  own := by
    rw [Option.eq_none_iff_forall_ne_some]
    intro state hstate
    have hbefore := hstates requestId state hstate
    rw [h.own] at hbefore
    cases hbefore
  foreign id state ref' parent hstate href hparent' hid :=
    h.foreign id state ref' parent (hstates id state hstate) href (hparent ▸ hparent') hid

/-- Aborting the request: its outstanding children are dropped, and are what the engine core
should abort. -/
theorem Fanned.abort_own (h : Fanned requestId params prompt promptTokenIds ref fan processor) :
    Fanned requestId params prompt promptTokenIds ref fan.abort
        (processor.abortRequest requestId).2 ∧
      (processor.abortRequest requestId).1 =
        if fan.aborted then [] else fan.unfinished requestId params.n := by
  have hregistry := h.registry
  unfold OutputProcessor.abortRequest
  rw [h.own]
  dsimp only
  cases hover : fan.aborted || fan.finished params.n with
  | true =>
      rw [hover, if_pos rfl] at hregistry
      rw [hregistry]
      refine ⟨h.abort (fun i hi => ?_) rfl hregistry fun _ _ => id, ?_⟩
      · -- a child in flight is neither finished nor aborted
        rw [h.live i hi, Option.eq_none_iff_forall_ne_some]
        intro state hstate
        obtain ⟨hfinished, haborted, -⟩ := h.child i hi state hstate
        rw [haborted, Bool.false_or] at hover
        have hdone := List.all_eq_true.mp hover i (List.mem_range.mpr hi)
        rw [hfinished] at hdone
        cases hdone
      · cases haborted : fan.aborted with
        | true => rfl
        | false =>
            rw [haborted, Bool.false_or] at hover
            exact (unfinished_eq_nil_of_finished hover).symm
  | false =>
      obtain ⟨haborted, hfinished⟩ := Bool.or_eq_false_iff.mp hover
      rw [hover, if_neg Bool.false_ne_true] at hregistry
      rw [hregistry, haborted]
      dsimp only
      rw [h.parent]
      dsimp only
      refine ⟨h.abort (fun i hi => ?_) rfl ?_ fun id state hstate => ?_, ?_⟩
      · rw [Dict.find_foldl_delete]
        split
        · rfl
        · rename_i hout
          -- a finished child is no longer in flight
          rw [h.live i hi, Option.eq_none_iff_forall_ne_some]
          intro state hstate
          have hrunning := (h.child i hi state hstate).1
          refine hout (List.mem_map.mpr ⟨i, List.mem_filter.mpr ⟨List.mem_range.mpr hi, ?_⟩, rfl⟩)
          rw [hrunning]
          rfl
      · rw [Dict.find_delete, if_pos rfl]
      · rw [Dict.find_foldl_delete] at hstate
        split at hstate
        · cases hstate
        · exact hstate
      · rw [if_neg Bool.false_ne_true]
        exact List.filter_eq_self.mpr fun id hid => h.find_unfinished haborted hid

theorem Fanned.abort_other (h : Fanned requestId params prompt promptTokenIds ref fan processor)
    (hsound : processor.Sound) {id : Text} (hid : id ∉ childIds requestId params.n)
    (hne : id ≠ requestId) :
    Fanned requestId params prompt promptTokenIds ref fan (processor.abortRequest id).2 ∧
      ∀ aborted ∈ (processor.abortRequest id).1, aborted ∉ childIds requestId params.n := by
  have hchild {i : ℕ} (hi : i < params.n) : ParentRequest.childId requestId i ≠ id :=
    fun heq => hid (heq ▸ childId_mem hi)
  have hgone (d : Dict Text (RequestState σ)) (found : Text) (state : RequestState σ)
      (hstate : (d.delete id).find found = some state) : ∃ before, d.find found = some before ∧
        state.Same before :=
    ⟨state, Dict.find_of_find_delete hstate, .rfl' state⟩
  have hown : (processor.requestStates.delete id).find requestId = none := by
    rw [Dict.find_delete, h.own, ite_self]
  have hlive (i : ℕ) (hi : i < params.n) :
      (processor.requestStates.delete id).find (ParentRequest.childId requestId i) =
        processor.requestStates.find (ParentRequest.childId requestId i) := by
    rw [Dict.find_delete, if_neg (hchild hi)]
  unfold OutputProcessor.abortRequest
  cases hstate : processor.requestStates.find id with
  | some state =>
      dsimp only
      cases href : state.parentRequest with
      | none =>
          refine ⟨h.frame hlive rfl rfl hown (h.foreign_keep (.of_eq rfl) (hgone _)), ?_⟩
          exact List.forall_mem_singleton.mpr hid
      | some ref' =>
          -- its parent is another one, so it stands at another place
          obtain ⟨href, parent, hparent, hparentId⟩ := h.other hsound hid hstate href
          have hmodify : (processor.parents.modify ref' (·.discard id))[ref']? =
              some (parent.discard id) := by
            rw [List.getElem?_modify, hparent]
            simp
          have hsame : (processor.parents.modify ref' (·.discard id))[ref]? =
              processor.parents[ref]? := by
            rw [List.getElem?_modify_ne _ _ href]
          dsimp only
          rw [hmodify]
          dsimp only
          have hparents (new : OutputProcessor σ)
              (hnew : new.parents = processor.parents.modify ref' (·.discard id)) :
              SameParents processor new :=
            .of_set (hnew.trans (OutputProcessor.modify_eq_set_of hparent _)) hparent rfl
          refine ⟨?_, List.forall_mem_singleton.mpr hid⟩
          split
          · refine h.frame hlive hsame ?_ hown (h.foreign_keep (hparents _ rfl) (hgone _))
            rw [Dict.find_delete]
            exact if_neg hparentId.symm
          · exact h.frame hlive hsame rfl hown (h.foreign_keep (hparents _ rfl) (hgone _))
  | none =>
      dsimp only
      cases href : processor.parentRequests.find id with
      | none => exact ⟨h, fun aborted haborted => absurd haborted List.not_mem_nil⟩
      | some ref' =>
          obtain ⟨parent, hparent, hparentId⟩ := hsound.registered id ref' href
          -- an abort of another parent's id takes that parent's children
          have hchildren : ∀ child ∈ parent.childRequests,
              child ∉ childIds requestId params.n := by
            intro child hmem hours
            obtain ⟨j, rfl⟩ := hsound.ids ref' parent hparent child hmem
            obtain ⟨i, hi, heq⟩ := mem_childIds.mp hours
            exact hne (hparentId ▸ (childId_inj.mp heq).1.symm)
          dsimp only
          rw [hparent]
          dsimp only
          refine ⟨h.frame (fun i hi => ?_) rfl ?_ ?_ (h.foreign_keep (.of_eq rfl) ?_), ?_⟩
          · rw [Dict.find_foldl_delete, if_neg fun hmem => hchildren _ hmem (childId_mem hi)]
          · rw [Dict.find_delete, if_neg hne.symm]
          · rw [Dict.find_foldl_delete, h.own, ite_self]
          · intro found state hstate
            rw [Dict.find_foldl_delete] at hstate
            split at hstate
            · cases hstate
            · exact ⟨state, hstate, .rfl' state⟩
          · exact fun child hmem => hchildren child (List.mem_of_mem_filter hmem)

/-- The engine core is to abort the outstanding children, once, and only if the client's id is
among those aborted. -/
theorem Fanned.abortRequests (h : Fanned requestId params prompt promptTokenIds ref fan processor)
    (hsound : processor.Sound) {requestIds : List Text}
    (hids : ∀ id ∈ requestIds, id ∉ childIds requestId params.n) :
    Fanned requestId params prompt promptTokenIds ref
        (if requestId ∈ requestIds then fan.abort else fan)
        (processor.abortRequests requestIds).2 ∧
      (processor.abortRequests requestIds).1.filter (· ∈ childIds requestId params.n) =
        if requestId ∈ requestIds ∧ fan.aborted = false then fan.unfinished requestId params.n
        else [] := by
  induction requestIds generalizing fan processor with
  | nil => exact ⟨h, rfl⟩
  | cons id rest ih =>
      obtain ⟨hid, hrest⟩ := List.forall_mem_cons.mp hids
      have hsound' := hsound.abortRequest id
      unfold OutputProcessor.abortRequests
      dsimp only
      rw [List.filter_append]
      by_cases heq : id = requestId
      · subst heq
        obtain ⟨hfan, hreply⟩ := h.abort_own
        obtain ⟨hfan', hreply'⟩ := ih hfan hsound' hrest
        have habort : (if id ∈ rest then fan.abort.abort else fan.abort) = fan.abort := by
          split <;> rfl
        rw [habort] at hfan'
        rw [if_pos List.mem_cons_self, hreply, hreply']
        refine ⟨hfan', ?_⟩
        cases haborted : fan.aborted with
        | true => simp [Fan.abort]
        | false =>
            have hself : (fan.unfinished id params.n).filter (· ∈ childIds id params.n) =
                fan.unfinished id params.n :=
              List.filter_eq_self.mpr fun child hchild =>
                decide_eq_true (unfinished_subset fan hchild)
            simp [Fan.abort, hself]
      · obtain ⟨hfan, hreply⟩ := h.abort_other hsound hid heq
        obtain ⟨hfan', hreply'⟩ := ih hfan hsound' hrest
        have hnone : (processor.abortRequest id).1.filter (· ∈ childIds requestId params.n) = [] :=
          List.filter_eq_nil_iff.mpr fun child hchild => by simpa using hreply child hchild
        have hmem : requestId ∈ id :: rest ↔ requestId ∈ rest := by
          simp [Ne.symm heq]
        rw [hnone, List.nil_append, hreply']
        simp only [hmem]
        exact ⟨hfan', trivial⟩

/-! ### Outputs of others -/

theorem reports_append (first second : List ClientOutput) :
    reports requestId (first ++ second) = reports requestId first ++ reports requestId second :=
  List.filterMap_append ..

theorem reports_request {output : RequestOutput} (h : output.requestId ≠ requestId) :
    reports requestId [.request output] = [] := by
  simp [reports, h]

/-- Another request's output goes to another client, and leaves the request alone. -/
theorem Fanned.process_other
    (h : Fanned requestId params prompt promptTokenIds ref fan processor)
    (hsound : processor.Sound) (now : ℚ) (stats : IterationStats) {output : EngineCoreOutput}
    (hid : output.requestId ∉ childIds requestId params.n) :
    let result := processor.processOutput detokenizing now stats output
    Fanned requestId params prompt promptTokenIds ref fan result.2.1 ∧
      reports requestId result.1 = [] := by
  intro result
  cases hstate : processor.requestStates.find output.requestId with
  | none =>
      have hresult : result = ([], processor, stats) := OutputProcessor.processOutput_unknown hstate
      rw [hresult]
      exact ⟨h, rfl⟩
  | some state =>
      have hne : output.requestId ≠ requestId := by
        intro heq
        rw [heq, h.own] at hstate
        cases hstate
      have hlive (i : ℕ) (hi : i < params.n) :
          result.2.1.requestStates.find (ParentRequest.childId requestId i) =
            processor.requestStates.find (ParentRequest.childId requestId i) :=
        OutputProcessor.find_processOutput fun heq => hid (heq ▸ childId_mem hi)
      have hown : result.2.1.requestStates.find requestId = none :=
        (OutputProcessor.find_processOutput hne).trans h.own
      have hforeign := h.foreign_keep
        (.of_kept OutputProcessor.processOutput_parents.1
          OutputProcessor.processOutput_parents.2 : SameParents processor result.2.1)
        fun _ _ => OutputProcessor.processOutput_same
      -- if the other request has a parent at all, it is another one
      have hotherParent (new : OutputProcessor σ) (hnew : SameParents processor new)
          (later : RequestState σ) (hsame : later.Same state) (parent : ParentRequest)
          (hparent : later.parentRequest.bind (new.parents[·]?) = some parent) :
          parent.requestId ≠ requestId := by
        obtain ⟨ref', href, hparent⟩ := Option.bind_eq_some_iff.mp hparent
        obtain ⟨before, hbefore, hid'⟩ := hnew ref' parent hparent
        obtain ⟨-, parent', hparent', hne'⟩ :=
          h.other hsound hid hstate (hsame.parentRequest ▸ href)
        obtain rfl := Option.some.inj (hbefore.symm.trans hparent')
        exact hid' ▸ hne'
      suffices hrest : result.2.1.parents[ref]? = processor.parents[ref]? ∧
          result.2.1.parentRequests.find requestId = processor.parentRequests.find requestId ∧
          reports requestId result.1 = [] from
        ⟨h.frame hlive hrest.1 hrest.2.1 hown hforeign, hrest.2.2⟩
      cases hkind : state.kind with
      | pool =>
          have hresult : result = _ := OutputProcessor.processOutput_pool hstate hkind
          rw [hresult]
          dsimp only
          split
          · exact ⟨rfl, rfl, rfl⟩
          · refine ⟨rfl, OutputProcessor.retire_find _ _ _ _ _ _ ?_, rfl⟩
            exact hotherParent _ (.of_eq rfl) _ state.prefilled_same
      | generate params' =>
          have hresult : result = _ := OutputProcessor.processOutput_generate hstate hkind
          have hsame := (state.prefilled.turn_same detokenizing.toDecoder params' now output).trans
            state.prefilled_same
          rw [hresult]
          generalize state.prefilled.turn detokenizing.toDecoder params' now output = turn at hsame
          dsimp only
          cases href : state.parentRequest with
          | none =>
              rw [OutputProcessor.gather_none (hsame.parentRequest.trans href)]
              refine ⟨?_, ?_, ?_⟩
              · split <;> rfl
              · split
                · refine OutputProcessor.retire_find _ _ _ _ _ _ ?_
                  exact hotherParent _ (.of_eq rfl) _ hsame
                · rfl
              · split
                · rfl
                · exact reports_request hne
          | some ref' =>
              obtain ⟨hne', parent, hparent, hparentId⟩ := h.other hsound hid hstate href
              rw [OutputProcessor.gather_some (hsame.parentRequest.trans href)
                (show (processor.recordTurn output.requestId turn).parents[ref']? = some parent
                  from hparent)]
              have hkeeps : parent.Keeps (fun _ => False)
                  (parent.collect output.requestId turn.completion).2.2 :=
                parent.collect_keeps _ _ fun _ => not_false
              refine ⟨?_, ?_, ?_⟩
              · split <;> exact List.getElem?_set_ne hne'
              · split
                · refine OutputProcessor.retire_find _ _ _ _ _ _ ?_
                  exact hotherParent _ (.of_set rfl hparent hkeeps.requestId) _ hsame
                · rfl
              · split
                · rfl
                · exact reports_request hparentId

/-! ### Outputs of the children -/

def Fan.set (fan : Fan σ) (i : ℕ) (child : Child σ) : Fan σ :=
  { fan with children := Function.update fan.children i child }

section Set

variable {i : ℕ} {child : Child σ}

@[simp] theorem Fan.set_children_self : (fan.set i child).children i = child :=
  Function.update_self ..

theorem Fan.set_children_of_ne {j : ℕ} (h : j ≠ i) :
    (fan.set i child).children j = fan.children j :=
  Function.update_of_ne h ..

theorem Fan.set_unfinished (requestId : Text) (child : Child σ)
    (hi : (fan.children i).finished = false) (n : ℕ) :
    (fan.set i child).unfinished requestId n =
      if child.finished then
        (fan.unfinished requestId n).filter (· ≠ ParentRequest.childId requestId i)
      else fan.unfinished requestId n := by
  unfold Fan.unfinished
  rw [List.filter_map, List.filter_filter]
  split
  · rename_i hfinished
    congr 1
    apply List.filter_congr
    intro j _
    by_cases hj : j = i
    · subst hj
      simp [hfinished]
    · simp [Fan.set_children_of_ne hj, childId_inj, hj]
  · rename_i hgoes
    congr 1
    apply List.filter_congr
    intro j _
    by_cases hj : j = i
    · subst hj
      simp [hi, hgoes]
    · rw [Fan.set_children_of_ne hj]

theorem Fan.set_finals {n : ℕ} :
    (fan.set i child).finals n = (fan.finals n).set i child.chunks.getLast? := by
  unfold Fan.finals
  apply List.ext_getElem?
  intro j
  rw [List.getElem?_set]
  by_cases hj : i = j
  · subst hj
    by_cases hlt : i < n <;> simp [hlt]
  · rw [if_neg hj, List.getElem?_map, List.getElem?_map]
    by_cases hlt : j < n
    · simp [hlt, Fan.set_children_of_ne (Ne.symm hj)]
    · simp [hlt]

theorem Child.finished_concat (chunks : List CompletionOutput) (completion : CompletionOutput)
    (state : Option (RequestState σ)) :
    Child.finished ⟨chunks ++ [completion], state⟩ = completion.finishReason.isSome := by
  simp [Child.finished]

theorem Fan.collect_parent (requestId : Text) {completion : CompletionOutput} (hi : i < params.n)
    (hrunning : (fan.children i).finished = false) (hindex : completion.index = i)
    (hfinished : child.finished = completion.finishReason.isSome)
    (hchunk : child.chunks.getLast? = some completion) :
    (fan.parent requestId params).collect (ParentRequest.childId requestId i) completion =
      (if params.outputKind = .delta then [completion]
        else if (fan.set i child).finished params.n then
          ((fan.set i child).finals params.n).filterMap id else [],
        (fan.set i child).finished params.n, (fan.set i child).parent requestId params) := by
  have hmem : ParentRequest.childId requestId i ∈ fan.unfinished requestId params.n :=
    List.mem_map_of_mem (List.mem_filter.mpr ⟨List.mem_range.mpr hi, by rw [hrunning]; rfl⟩)
  have hchildren := Fan.set_unfinished requestId child hrunning params.n
  have hdone : ((fan.set i child).unfinished requestId params.n).isEmpty =
      (fan.set i child).finished params.n := by
    rw [Bool.eq_iff_iff, List.isEmpty_iff, finished_iff_unfinished]
  have hsettled : (if completion.finishReason.isSome then
        (fan.parent requestId params).discard (ParentRequest.childId requestId i)
      else fan.parent requestId params) =
      { fan.parent requestId params with
        childRequests := (fan.set i child).unfinished requestId params.n } := by
    rw [hchildren, hfinished]
    split <;> rfl
  unfold ParentRequest.collect
  dsimp only
  rw [hsettled]
  dsimp only
  rw [hdone]
  by_cases hdelta : params.outputKind = .delta
  · have hstreaming : ParentRequest.streaming { fan.parent requestId params with
        childRequests := (fan.set i child).unfinished requestId params.n } = true :=
      decide_eq_true hdelta
    rw [if_pos hstreaming, if_pos hdelta]
    simp [Fan.parent, hdelta, hmem]
  · have hstreaming : ¬ ParentRequest.streaming { fan.parent requestId params with
        childRequests := (fan.set i child).unfinished requestId params.n } = true :=
      fun h => hdelta (of_decide_eq_true h)
    rw [if_neg hstreaming, if_neg hdelta]
    simp only [Fan.parent, if_neg hdelta, hindex, Fan.set_finals, hchunk]

end Set

/-- What the client is sent of a completion. -/
def sent (requestId : Text) (params : SamplingParams) (prompt : Option Text)
    (promptTokenIds : List TokenId) (fan : Fan σ) (numCachedTokens : ℕ)
    (completion : CompletionOutput) : List RequestOutput :=
  if params.outputKind = .delta then
    [⟨requestId, prompt, promptTokenIds, [completion], fan.finished params.n, numCachedTokens⟩]
  else if fan.finished params.n then
    [⟨requestId, prompt, promptTokenIds, (fan.finals params.n).filterMap id, true,
      numCachedTokens⟩]
  else []

/-- A child's output makes a completion, which its parent gathers. -/
theorem Fanned.process_own (h : Fanned requestId params prompt promptTokenIds ref fan processor)
    (now : ℚ) (stats : IterationStats) {output : EngineCoreOutput} {i : ℕ} (hi : i < params.n)
    (hid : output.requestId = ParentRequest.childId requestId i) {state : RequestState σ}
    (hstate : (fan.children i).state = some state) :
    let result := processor.processOutput detokenizing now stats output
    let turn := state.prefilled.turn detokenizing.toDecoder
      ((ParentRequest.init requestId params).childParams i) now output
    let fan' := fan.set i ⟨(fan.children i).chunks ++ [turn.completion],
      if turn.finishReason.isSome then none else some turn.state⟩
    Fanned requestId params prompt promptTokenIds ref fan' result.2.1 ∧
      turn.completion.index = i ∧
      reports requestId result.1 = sent requestId params prompt promptTokenIds fan'
        turn.state.numCachedTokens turn.completion := by
  intro result turn fan'
  obtain ⟨hrunning, haborted, hkind, hprompt, hpromptIds, href, hindex⟩ := h.child i hi state hstate
  have hfind : processor.requestStates.find output.requestId = some state := by
    rw [hid, h.live i hi, hstate]
  have hsame : turn.state.Same state :=
    (state.prefilled.turn_same ..).trans state.prefilled_same
  have hturnIndex : turn.completion.index = i :=
    (state.prefilled.turn_index ..).trans hindex
  have hgone : turn.completion.finishReason = turn.finishReason := rfl
  have hchild' : (⟨(fan.children i).chunks ++ [turn.completion],
      if turn.finishReason.isSome then none else some turn.state⟩ : Child σ).finished =
        turn.finishReason.isSome :=
    Child.finished_concat ..
  have hcollect : (fan.parent requestId params).collect (ParentRequest.childId requestId i)
      turn.completion = (if params.outputKind = .delta then [turn.completion]
        else if fan'.finished params.n then (fan'.finals params.n).filterMap id else [],
        fan'.finished params.n, fan'.parent requestId params) :=
    Fan.collect_parent requestId hi hrunning hturnIndex (hchild'.trans rfl)
      (List.getLast?_concat ..)
  have hself : fan'.children i = _ := Fan.set_children_self
  have hothers {j : ℕ} (hj : j ≠ i) : fan'.children j = fan.children j :=
    Fan.set_children_of_ne hj
  have haborted' : fan'.aborted = fan.aborted := rfl
  clear_value fan'
  have hresult : result = _ := OutputProcessor.processOutput_generate hfind hkind
  rw [show state.prefilled.turn detokenizing.toDecoder
    ((ParentRequest.init requestId params).childParams i) now output = turn from rfl,
    OutputProcessor.gather_some (hsame.parentRequest.trans href)
    (show (processor.recordTurn output.requestId turn).parents[ref]? = _ from h.parent), hid,
    hcollect] at hresult
  dsimp only at hresult
  have hlength : ref < processor.parents.length := (List.getElem?_eq_some_iff.mp h.parent).1
  have hparents : result.2.1.parents[ref]? = some (fan'.parent requestId params) := by
    rw [hresult]
    dsimp only
    split <;> exact (List.getElem?_set_self hlength)
  have hforeign := h.foreign_keep
    (.of_kept OutputProcessor.processOutput_parents.1
      OutputProcessor.processOutput_parents.2 : SameParents processor result.2.1)
    fun _ _ => OutputProcessor.processOutput_same
  have hgoing (fan : Fan σ) (hi' : (fan.children i).finished = false) :
      fan.finished params.n = false :=
    Bool.eq_false_iff.mpr fun hall => by
      rw [List.all_eq_true.mp hall i (List.mem_range.mpr hi)] at hi'
      cases hi'
  refine ⟨⟨fun j hj => ?_, fun j hj => ?_, fun j hj later hlater => ?_, fun j hj hnone => ?_,
    hparents, ?_, ?_, fun id found ref' parent hfound href' hparent hparentId =>
      by_contra fun hne => hforeign id found ref' parent hfound href' hne hparent hparentId⟩,
    hturnIndex, ?_⟩
  · rw [hothers (by omega)]
    exact h.beyond j hj
  · -- the processor holds a child until it finishes
    by_cases heq : j = i
    · subst heq
      rw [hself, hresult]
      dsimp only
      cases hfinish : turn.finishReason.isSome with
      | true =>
          rw [if_pos rfl, OutputProcessor.retire_requestStates, Dict.find_delete, if_pos rfl]
          rfl
      | false =>
          rw [if_neg Bool.false_ne_true]
          exact Dict.find_store_self ..
    · rw [hothers heq, ← h.live j hj]
      exact OutputProcessor.find_processOutput fun hsame =>
        heq (childId_inj.mp (hid.symm.trans hsame)).2.symm
  · by_cases heq : j = i
    · subst heq
      rw [hself] at hlater ⊢
      rw [hchild']
      dsimp only at hlater
      split at hlater
      · cases hlater
      · rename_i hgoes
        obtain rfl := Option.some.inj hlater
        exact ⟨Bool.not_eq_true _ ▸ hgoes, haborted'.trans haborted, hsame.kind.trans hkind,
          hsame.prompt.trans hprompt, hsame.promptTokenIds.trans hpromptIds,
          hsame.parentRequest.trans href, hsame.index.trans hindex⟩
    · rw [hothers heq] at hlater ⊢
      rw [haborted']
      exact h.child j hj later hlater
  · by_cases heq : j = i
    · subst heq
      rw [hself] at hnone ⊢
      rw [hchild']
      dsimp only at hnone
      split at hnone
      · rename_i hfinish
        exact Or.inl hfinish
      · cases hnone
    · rw [hothers heq] at hnone ⊢
      rw [haborted']
      exact h.gone j hj hnone
  · -- the registry lets go of the parent with its last child
    have hregistry := h.registry
    rw [haborted, Bool.false_or, hgoing fan hrunning, if_neg Bool.false_ne_true] at hregistry
    rw [haborted', haborted, Bool.false_or, hresult]
    dsimp only
    cases hfinish : turn.finishReason.isSome with
    | false =>
        rw [hgoing fan' (by rw [hself, hchild', hfinish]), if_neg Bool.false_ne_true,
          if_neg Bool.false_ne_true]
        exact hregistry
    | true =>
        have hset : (processor.parents.set ref (fan'.parent requestId params))[ref]? =
            some (fan'.parent requestId params) := List.getElem?_set_self hlength
        have hdone : (fan'.parent requestId params).childRequests.isEmpty =
            fan'.finished params.n := by
          rw [Bool.eq_iff_iff, List.isEmpty_iff]
          exact finished_iff_unfinished.symm
        rw [if_pos rfl, OutputProcessor.retire_child _ _ _ _ _
          (hsame.parentRequest.trans href) hset, hdone]
        split
        · rw [Dict.find_delete]
          exact if_pos rfl
        · exact hregistry
  · rw [Option.eq_none_iff_forall_ne_some]
    intro found hfound
    obtain ⟨before, hbefore, -⟩ := OutputProcessor.processOutput_same hfound
    rw [h.own] at hbefore
    cases hbefore
  · -- deltas go out as they come, and else all at once when no child is left
    rw [hresult]
    dsimp only
    unfold sent
    by_cases hdelta : params.outputKind = .delta
    · rw [if_pos hdelta, if_pos hdelta]
      simp [reports, hsame.prompt, hsame.promptTokenIds, hprompt, hpromptIds, Fan.parent]
    · rw [if_neg hdelta, if_neg hdelta]
      cases hdone : fan'.finished params.n with
      | false => simp [reports]
      | true =>
          simp [reports, hsame.prompt, hsame.promptTokenIds, hprompt, hpromptIds, Fan.parent]

theorem map_some_finals {n : ℕ} (h : fan.finished n = true) :
    ((fan.finals n).filterMap id).map some = fan.finals n := by
  have hsome : ∀ final ∈ fan.finals n, final.isSome = true := by
    intro final hfinal
    obtain ⟨i, hi, rfl⟩ := List.mem_map.mp hfinal
    have hfinished := List.all_eq_true.mp h i hi
    unfold Child.finished at hfinished
    rw [Option.any_eq_true] at hfinished
    obtain ⟨completion, hlast, -⟩ := hfinished
    rw [hlast]
    rfl
  generalize fan.finals n = finals at hsome
  induction finals with
  | nil => rfl
  | cons final rest ih =>
      rw [List.forall_mem_cons] at hsome
      obtain ⟨completion, rfl⟩ := Option.isSome_iff_exists.mp hsome.1
      show some completion :: (rest.filterMap id).map some = _
      rw [ih hsome.2]

/-- What the client is given grows by what it is sent. -/
theorem Gathered.push {outputs : List RequestOutput}
    (h : Gathered params prompt promptTokenIds fan outputs) {i : ℕ} (hi : i < params.n)
    (hrunning : (fan.children i).finished = false) {completion : CompletionOutput}
    (hindex : completion.index = i) (state : Option (RequestState σ)) (numCachedTokens : ℕ) :
    let fan' := fan.set i ⟨(fan.children i).chunks ++ [completion], state⟩
    Gathered params prompt promptTokenIds fan'
      (outputs ++ sent requestId params prompt promptTokenIds fan' numCachedTokens completion) := by
  intro fan'
  have hgoing : fan.finished params.n = false :=
    Bool.eq_false_iff.mpr fun hall => by
      rw [List.all_eq_true.mp hall i (List.mem_range.mpr hi)] at hrunning
      cases hrunning
  have hself : fan'.children i = _ := Fan.set_children_self
  have hothers {j : ℕ} (hj : j ≠ i) : fan'.children j = fan.children j :=
    Fan.set_children_of_ne hj
  have hunfinished := h.last
  rw [if_neg (Bool.eq_false_iff.mp hgoing)] at hunfinished
  have hempty (hdelta : params.outputKind ≠ .delta) : outputs = [] := by
    have hgathered := h.gathered hdelta
    rw [if_neg (Bool.eq_false_iff.mp hgoing)] at hgathered
    exact List.map_eq_nil_iff.mp hgathered
  clear_value fan'
  unfold sent
  by_cases hdelta : params.outputKind = .delta
  · rw [if_pos hdelta]
    refine ⟨?_, fun _ => ⟨?_, fun j hj => ?_⟩, fun hne => absurd hdelta hne, ?_⟩
    · exact List.forall_mem_append.mpr ⟨h.prompts, List.forall_mem_singleton.mpr ⟨rfl, rfl⟩⟩
    · exact List.forall_mem_append.mpr ⟨(h.delta hdelta).1,
        List.forall_mem_singleton.mpr ⟨completion, rfl, hindex ▸ hi⟩⟩
    · rw [List.flatMap_append, List.filter_append, (h.delta hdelta).2 j hj]
      by_cases hj : j = i
      · subst hj
        rw [hself]
        simp [hindex]
      · rw [hothers hj]
        simp [hindex, Ne.symm hj]
    · split
      · rename_i hdone
        exact ⟨outputs, _, rfl, hdone, hunfinished⟩
      · rename_i hdone
        exact List.forall_mem_append.mpr ⟨hunfinished,
          List.forall_mem_singleton.mpr (Bool.eq_false_iff.mpr hdone)⟩
  · rw [if_neg hdelta, hempty hdelta, List.nil_append]
    cases hdone : fan'.finished params.n with
    | false =>
        refine ⟨fun output houtput => absurd houtput List.not_mem_nil,
          fun heq => absurd heq hdelta, fun _ => ?_, ?_⟩
        · rw [hdone]
          rfl
        · rw [hdone]
          exact fun output houtput => absurd houtput List.not_mem_nil
    | true =>
        refine ⟨List.forall_mem_singleton.mpr ⟨rfl, rfl⟩, fun heq => absurd heq hdelta,
          fun _ => ?_, ?_⟩
        · rw [if_pos hdone]
          exact congrArg (fun outputs => [outputs]) (map_some_finals hdone)
        · rw [if_pos hdone]
          exact ⟨[], _, rfl, rfl, fun output houtput => absurd houtput List.not_mem_nil⟩

/-! ### Runs -/

/-- Registering another request leaves the request alone. -/
theorem Fanned.tryAdd (h : Fanned requestId params prompt promptTokenIds ref fan processor)
    {args : OutputProcessor.AddArgs} (hne : args.requestId ≠ requestId)
    (hid : args.requestId ∉ childIds requestId params.n)
    (hargs : ∀ ref' parent, args.parentRequest = some ref' →
      processor.parents[ref']? = some parent → parent.requestId ≠ requestId) :
    Fanned requestId params prompt promptTokenIds ref fan
      (processor.tryAdd detokenizing args) := by
  unfold OutputProcessor.tryAdd
  split
  · rename_i processor' hok
    unfold OutputProcessor.addRequest at hok
    split at hok
    · cases hok
    split at hok
    · cases hok
    obtain rfl := Except.ok.inj hok
    refine h.frame (fun i hi => ?_) rfl ?_ ?_
      fun id state ref' parent hstate href hne' hparent => ?_
    · exact Dict.find_store_of_ne _ _ fun heq => hid (heq ▸ childId_mem hi)
    · show (processor.register args.parentRequest).find requestId = _
      unfold OutputProcessor.register
      split
      · rfl
      · split
        · rfl
        · rename_i ref' href _ parent hparent
          exact Dict.find_store_of_ne _ _ (hargs ref' parent href hparent).symm
    · exact (Dict.find_store_of_ne _ _ hne.symm).trans h.own
    · rw [Dict.find_store] at hstate
      split at hstate
      · obtain rfl := Option.some.inj hstate
        exact hargs ref' parent href hparent
      · exact fun heq => hne' (h.foreign id state ref' parent hstate href hparent heq)
  · exact h

theorem Fanned.newParent (h : Fanned requestId params prompt promptTokenIds ref fan processor)
    (hsound : processor.Sound) (id : Text) (params' : SamplingParams) :
    Fanned requestId params prompt promptTokenIds ref fan (processor.newParent id params').2 := by
  have hkept (ref' : ℕ) (hlt : ref' < processor.parents.length) :
      (processor.newParent id params').2.parents[ref']? = processor.parents[ref']? :=
    List.getElem?_append_left hlt
  refine h.frame (fun i hi => rfl) (hkept ref (List.getElem?_eq_some_iff.mp h.parent).1) rfl h.own
    fun found state ref' parent hstate href hne hparent heq => ?_
  obtain ⟨before, hbefore, -⟩ := hsound.child found state ref' hstate href
  rw [hkept ref' (List.getElem?_eq_some_iff.mp hbefore).1] at hparent
  exact hne (h.foreign found state ref' parent hstate href hparent heq)

theorem Fanned.addChild (h : Fanned requestId params prompt promptTokenIds ref fan processor)
    (ref' index : ℕ) (prompt' : Option Text) (promptTokenIds' : List TokenId) (arrivalTime : ℚ)
    (hapart : ∀ parent, processor.parents[ref']? = some parent →
      parent.requestId ≠ requestId ∧ ParentRequest.childId parent.requestId index ≠ requestId) :
    Fanned requestId params prompt promptTokenIds ref fan
      (processor.addChild detokenizing ref' index prompt' promptTokenIds' arrivalTime) := by
  unfold OutputProcessor.addChild
  split
  · exact h
  rename_i parent hparent
  obtain ⟨hne, hnotOwn⟩ := hapart parent hparent
  split
  · rename_i hlt
    obtain ⟨hkeeps, -⟩ := OutputProcessor.childInfo_keeps (fun _ => False) parent index
    have href : ref' ≠ ref := by
      rintro rfl
      obtain rfl := Option.some.inj (hparent.symm.trans h.parent)
      exact hne rfl
    have hset : Fanned requestId params prompt promptTokenIds ref fan
        ({ processor with parents := processor.parents.set ref' (parent.childInfo index).2.2 } :
          OutputProcessor σ) :=
      h.frame (fun i hi => rfl) (List.getElem?_set_ne href) rfl h.own
        (h.foreign_keep (.of_set rfl hparent hkeeps.requestId)
          fun _ state hstate => ⟨state, hstate, .rfl' state⟩)
    refine hset.tryAdd hnotOwn (fun hmem => ?_) fun ref₁ parent₁ href₁ hparent₁ => ?_
    · obtain ⟨i, -, heq⟩ := mem_childIds.mp hmem
      exact hne (childId_inj.mp heq).1.symm
    · obtain rfl := Option.some.inj href₁
      dsimp only at hparent₁
      rw [List.getElem?_set_self (List.getElem?_eq_some_iff.mp hparent).1] at hparent₁
      obtain rfl := Option.some.inj hparent₁
      exact hkeeps.requestId ▸ hne
  · exact h

theorem Fan.step_processOutput_of_none {now : ℚ} {output : EngineCoreOutput}
    (h : ∀ i, output.requestId = ParentRequest.childId requestId i →
      (fan.children i).state = none) :
    fan.step detokenizing requestId (.processOutput now output) = fan := by
  unfold Fan.step
  dsimp only
  congr 1
  funext i
  split
  · rename_i hid
    unfold Child.output
    rw [h i hid]
  · rfl

theorem Fan.step_processOutput {now : ℚ} {output : EngineCoreOutput} {i : ℕ}
    {state : RequestState σ} {params' : SamplingParams}
    (hid : output.requestId = ParentRequest.childId requestId i)
    (hstate : (fan.children i).state = some state) (hkind : state.kind = .generate params') :
    let turn := state.prefilled.turn detokenizing.toDecoder params' now output
    fan.step detokenizing requestId (.processOutput now output) =
      fan.set i ⟨(fan.children i).chunks ++ [turn.completion],
        if turn.finishReason.isSome then none else some turn.state⟩ := by
  unfold Fan.step Fan.set
  dsimp only
  congr 1
  funext j
  by_cases hj : j = i
  · subst hj
    rw [if_pos hid, Function.update_self]
    unfold Child.output
    rw [hstate]
    dsimp only
    rw [hkind]
  · have hne : ¬output.requestId = ParentRequest.childId requestId j := fun h =>
      hj (childId_inj.mp (h.symm.trans hid)).2
    rw [if_neg hne, Function.update_of_ne hj]

/-- A call: the request is as its children are, and the client is given what they make. -/
theorem fanned_call {session : Session σ} (hsound : session.processor.Sound)
    (h : Fanned requestId params prompt promptTokenIds ref fan session.processor)
    (hgathered : Gathered params prompt promptTokenIds fan (reports requestId session.emitted))
    (c : Call) (hapart : c.Apart requestId params.n session.processor) :
    Fanned requestId params prompt promptTokenIds ref (fan.step detokenizing requestId c)
        (session.call detokenizing c).processor ∧
      Gathered params prompt promptTokenIds (fan.step detokenizing requestId c)
        (reports requestId (session.call detokenizing c).emitted) := by
  cases c with
  | addRequest id prompt' promptTokenIds' kind arrivalTime =>
      exact ⟨h.tryAdd hapart.1 hapart.2 fun _ _ href => (by cases href), hgathered⟩
  | newParent id params' => exact ⟨h.newParent hsound id params', hgathered⟩
  | addChild ref' index prompt' promptTokenIds' arrivalTime =>
      exact ⟨h.addChild ref' index prompt' promptTokenIds' arrivalTime hapart, hgathered⟩
  | abortRequests requestIds =>
      rw [Fan.step_abortRequests]
      refine ⟨(h.abortRequests hsound hapart).1, ?_⟩
      show Gathered params prompt promptTokenIds (if requestId ∈ requestIds then fan.abort else fan)
        (reports requestId session.emitted)
      split
      · exact ⟨hgathered.prompts, hgathered.delta, hgathered.gathered, hgathered.last⟩
      · exact hgathered
  | processOutput now output =>
      rw [Session.call_processOutput]
      dsimp only
      rw [reports_append]
      by_cases hours : ∃ i < params.n, output.requestId = ParentRequest.childId requestId i ∧
          (fan.children i).state.isSome = true
      · -- an output of a child in flight
        obtain ⟨i, hi, hid, hsome⟩ := hours
        obtain ⟨state, hstate⟩ := Option.isSome_iff_exists.mp hsome
        obtain ⟨hrunning, -, hkind, -⟩ := h.child i hi state hstate
        obtain ⟨hfanned, hindex, hreports⟩ :=
          h.process_own now session.stats hi hid hstate
        rw [Fan.step_processOutput hid hstate hkind, hreports]
        exact ⟨hfanned, hgathered.push hi hrunning hindex _ _⟩
      · -- no child is in flight under this id
        have hnone (i : ℕ) (hid : output.requestId = ParentRequest.childId requestId i) :
            (fan.children i).state = none := by
          by_cases hi : i < params.n
          · by_contra hne
            exact hours ⟨i, hi, hid, Option.isSome_iff_ne_none.mpr hne⟩
          · exact h.beyond i (Nat.not_lt.mp hi)
        rw [Fan.step_processOutput_of_none hnone]
        by_cases hmem : output.requestId ∈ childIds requestId params.n
        · obtain ⟨i, hi, hid⟩ := mem_childIds.mp hmem
          have hunknown : session.processor.requestStates.find output.requestId = none := by
            rw [← hid, h.live i hi, hnone i hid.symm]
          rw [OutputProcessor.processOutput_unknown hunknown]
          exact ⟨h, (List.append_nil (reports requestId session.emitted)).symm ▸ hgathered⟩
        · obtain ⟨hfanned, hreports⟩ := h.process_other hsound now session.stats hmem
          rw [hreports, List.append_nil]
          exact ⟨hfanned, hgathered⟩
  | takeStoppedByString =>
      exact ⟨h.frame (fun i hi => rfl) rfl rfl h.own
        (h.foreign_keep (.of_eq rfl) fun _ state hstate => ⟨state, hstate, .rfl' state⟩), hgathered⟩

theorem fanned_run {session : Session σ} {calls : List Call} (hsound : session.processor.Sound)
    (h : Fanned requestId params prompt promptTokenIds ref fan session.processor)
    (hgathered : Gathered params prompt promptTokenIds fan (reports requestId session.emitted))
    (hapart : session.Apart detokenizing requestId params.n calls) :
    Fanned requestId params prompt promptTokenIds ref (fan.run detokenizing requestId calls)
        (session.run detokenizing calls).processor ∧
      Gathered params prompt promptTokenIds (fan.run detokenizing requestId calls)
        (reports requestId (session.run detokenizing calls).emitted) := by
  induction calls generalizing session fan with
  | nil => exact ⟨h, hgathered⟩
  | cons c calls ih =>
      obtain ⟨hfanned, hgathered⟩ := fanned_call hsound h hgathered c hapart.1
      exact ih (Session.sound_call hsound c) hfanned hgathered hapart.2

/-! ### The fan-out -/

def childArgs (requestId : Text) (params : SamplingParams) (prompt : Option Text)
    (promptTokenIds : List TokenId) (arrivalTime : ℕ → ℚ) (ref i : ℕ) : OutputProcessor.AddArgs :=
  ⟨ParentRequest.childId requestId i, prompt, promptTokenIds,
    .generate ((ParentRequest.init requestId params).childParams i), arrivalTime i, some ref, i⟩

def Fan.start (n : ℕ) (state : ℕ → RequestState σ) : Fan σ where
  children i := ⟨[], if i < n then some (state i) else none⟩
  aborted := false

/-- The first `k` children are added. -/
structure Fanning (requestId : Text) (params : SamplingParams) (ref : ℕ)
    (state : ℕ → RequestState σ) (k : ℕ) (processor : OutputProcessor σ) : Prop where
  live : ∀ i < params.n, processor.requestStates.find (ParentRequest.childId requestId i) =
    if i < k then some (state i) else none
  parent : processor.parents[ref]? =
    some { ParentRequest.init requestId params with childRequests := childIds requestId k }
  registry : processor.parentRequests.find requestId = if k = 0 then none else some ref
  own : processor.requestStates.find requestId = none
  foreign : ∀ id state ref' parent, processor.requestStates.find id = some state →
    state.parentRequest = some ref' → processor.parents[ref']? = some parent →
    parent.requestId = requestId → ref' = ref

/-- A parent that nothing refers to yet. -/
theorem Fanning.init (hsound : processor.Sound) (hfresh : Fresh processor requestId params.n)
    (state : ℕ → RequestState σ) :
    Fanning requestId params processor.parents.length state 0
      (processor.newParent requestId params).2 where
  live i hi := (hfresh.children i hi).trans (if_neg (Nat.not_lt_zero i)).symm
  parent := List.getElem?_concat_length
  registry := hfresh.parent
  own := hfresh.own
  foreign id found ref' parent hstate href hparent hid := by
    obtain ⟨before, hbefore, -⟩ := hsound.child id found ref' hstate href
    have hkept : (processor.newParent requestId params).2.parents[ref']? =
        processor.parents[ref']? :=
      List.getElem?_append_left (List.getElem?_eq_some_iff.mp hbefore).1
    rw [hkept] at hparent
    exact absurd hid (hfresh.reports id found ref' parent hstate href hparent)

/-- A round of the fan-out loop adds one more child. -/
theorem Fanning.addChild {arrivalTime : ℕ → ℚ} {decoderState : σ} {k : ℕ}
    (h : Fanning requestId params ref (fun i =>
      (childArgs requestId params prompt promptTokenIds arrivalTime ref i).state decoderState) k
      processor)
    (hk : k < params.n) (hprompt : detokenizing.convertPrompt promptTokenIds = .ok decoderState) :
    Fanning requestId params ref (fun i =>
      (childArgs requestId params prompt promptTokenIds arrivalTime ref i).state decoderState)
      (k + 1) (processor.addChild detokenizing ref k prompt promptTokenIds (arrivalTime k)) := by
  have hlt : ref < processor.parents.length := (List.getElem?_eq_some_iff.mp h.parent).1
  have hnew : ParentRequest.childId requestId k ∉ childIds requestId k := by
    intro hmem
    obtain ⟨i, hi, heq⟩ := mem_childIds.mp hmem
    exact absurd (childId_inj.mp heq).2 (Nat.ne_of_lt hi)
  have hgrown : childIds requestId k ++ [ParentRequest.childId requestId k] =
      childIds requestId (k + 1) := by
    simp [childIds, List.range_succ]
  have hinfo : ({ ParentRequest.init requestId params with
        childRequests := childIds requestId k } : ParentRequest).childInfo k =
      (ParentRequest.childId requestId k, (ParentRequest.init requestId params).childParams k,
        { ParentRequest.init requestId params with
          childRequests := childIds requestId (k + 1) }) := by
    rw [← hgrown]
    exact congrArg (fun children => (ParentRequest.childId requestId k,
      (ParentRequest.init requestId params).childParams k,
      ({ ParentRequest.init requestId params with childRequests := children } : ParentRequest)))
      (if_neg hnew)
  have hadded : processor.addChild detokenizing ref k prompt promptTokenIds (arrivalTime k) =
      { processor with
        requestStates := processor.requestStates.store (ParentRequest.childId requestId k)
          ((childArgs requestId params prompt promptTokenIds arrivalTime ref k).state decoderState)
        parentRequests := processor.parentRequests.store requestId ref
        parents := processor.parents.set ref { ParentRequest.init requestId params with
          childRequests := childIds requestId (k + 1) } } := by
    have hfree := h.live k hk
    rw [if_neg (Nat.lt_irrefl k)] at hfree
    unfold OutputProcessor.addChild
    rw [h.parent]
    dsimp only
    rw [hinfo, if_pos (show k < ParentRequest.n { ParentRequest.init requestId params with
      childRequests := childIds requestId k } from hk)]
    unfold OutputProcessor.tryAdd OutputProcessor.addRequest OutputProcessor.register
    dsimp only
    rw [hfree, hprompt, List.getElem?_set_self hlt]
    rfl
  rw [hadded]
  refine ⟨fun i hi => ?_, List.getElem?_set_self hlt, ?_, ?_,
    fun id found ref' parent hstate href hparent hid => ?_⟩
  · dsimp only
    by_cases heq : i = k
    · subst heq
      rw [if_pos (Nat.lt_succ_self i)]
      exact Dict.find_store_self ..
    · rw [Dict.find_store_of_ne _ _ fun hsame => heq (childId_inj.mp hsame).2, h.live i hi]
      exact if_congr (by omega) rfl rfl
  · rw [if_neg (Nat.succ_ne_zero k)]
    exact Dict.find_store_self ..
  · refine (Dict.find_store_of_ne _ _ fun heq => ?_).trans h.own
    -- a child's id is longer than its parent's
    have hlength := congrArg List.length heq
    simp only [ParentRequest.childId, List.length_append, List.length_cons] at hlength
    omega
  · dsimp only at hstate hparent
    by_cases hsame : ref' = ref
    · exact hsame
    · rw [List.getElem?_set_ne (Ne.symm hsame)] at hparent
      rw [Dict.find_store] at hstate
      split at hstate
      · obtain rfl := Option.some.inj hstate
        exact absurd (Option.some.inj href).symm hsame
      · exact h.foreign id found ref' parent hstate href hparent hid

/-- The fan-out adds every child, and makes nothing. -/
theorem fanning_run {arrivalTime : ℕ → ℚ} {decoderState : σ} {session : Session σ}
    (hprompt : detokenizing.convertPrompt promptTokenIds = .ok decoderState)
    (h : Fanning requestId params ref (fun i =>
      (childArgs requestId params prompt promptTokenIds arrivalTime ref i).state decoderState) 0
      session.processor) {k : ℕ} (hk : k ≤ params.n) :
    let added := session.run detokenizing (fanOut ref k prompt promptTokenIds arrivalTime)
    Fanning requestId params ref (fun i =>
        (childArgs requestId params prompt promptTokenIds arrivalTime ref i).state decoderState) k
        added.processor ∧ added.emitted = session.emitted := by
  induction k with
  | zero => exact ⟨h, rfl⟩
  | succ k ih =>
      obtain ⟨hadded, hemitted⟩ := ih (Nat.le_of_succ_le hk)
      unfold fanOut at hadded hemitted ⊢
      rw [List.range_succ, List.map_append, Session.run_append]
      exact ⟨hadded.addChild hk hprompt, hemitted⟩

/-- Once all are added, they are in flight. -/
theorem Fanning.fanned {state : ℕ → RequestState σ} (hn : 0 < params.n)
    (h : Fanning requestId params ref state params.n processor)
    (hstate : ∀ i,
      (state i).kind = .generate ((ParentRequest.init requestId params).childParams i) ∧
      (state i).prompt = prompt ∧ (state i).promptTokenIds = promptTokenIds ∧
      (state i).parentRequest = some ref ∧ (state i).index = i) :
    Fanned requestId params prompt promptTokenIds ref (Fan.start params.n state) processor ∧
      Gathered params prompt promptTokenIds (Fan.start params.n state) [] := by
  have hgoing : (Fan.start params.n state).finished params.n = false :=
    List.all_eq_false.mpr ⟨0, List.mem_range.mpr hn, Bool.false_ne_true⟩
  have hparent : (Fan.start params.n state).parent requestId params =
      { ParentRequest.init requestId params with
        childRequests := childIds requestId params.n } := by
    have hunfinished : (Fan.start params.n state).unfinished requestId params.n =
        childIds requestId params.n :=
      congrArg (List.map _) (List.filter_eq_self.mpr fun _ _ => rfl)
    have hfinals : (Fan.start params.n state).finals params.n =
        List.replicate params.n none := by
      simp [Fan.finals, Fan.start, List.map_const']
    unfold Fan.parent ParentRequest.init
    rw [hunfinished, hfinals]
  refine ⟨⟨fun i hi => if_neg (Nat.not_lt.mpr hi), h.live, fun i hi found hfound => ?_,
    fun i hi hnone => ?_, hparent ▸ h.parent, ?_, h.own, h.foreign⟩, ?_⟩
  · obtain rfl := Option.some.inj ((if_pos hi).symm.trans hfound)
    exact ⟨rfl, rfl, hstate i⟩
  · have hsome := (if_pos hi).symm.trans hnone
    cases hsome
  · rw [h.registry, if_neg (Nat.ne_of_gt hn), hgoing]
    rfl
  · refine ⟨fun output houtput => absurd houtput List.not_mem_nil, fun _ => ⟨?_, fun i hi => rfl⟩,
      fun _ => ?_, ?_⟩
    · exact fun output houtput => absurd houtput List.not_mem_nil
    · rw [if_neg (Bool.eq_false_iff.mp hgoing)]
      rfl
    · rw [if_neg (Bool.eq_false_iff.mp hgoing)]
      exact fun output houtput => absurd houtput List.not_mem_nil

/-- Nothing in flight refers to the parent of a request that is over. -/
theorem Fanned.over (h : Fanned requestId params prompt promptTokenIds ref fan processor)
    (hsound : processor.Sound) (hover : fan.finished params.n = true ∨ fan.aborted = true) :
    (∀ id ∈ childIds requestId params.n, processor.requestStates.find id = none) ∧
      (∀ id state, processor.requestStates.find id = some state →
        state.parentRequest ≠ some ref) ∧
      processor.parentRequests.find requestId = none := by
  have hnone : ∀ id ∈ childIds requestId params.n, processor.requestStates.find id = none := by
    intro id hid
    obtain ⟨i, hi, rfl⟩ := mem_childIds.mp hid
    rw [h.live i hi, Option.eq_none_iff_forall_ne_some]
    intro state hstate
    obtain ⟨hrunning, haborted, -⟩ := h.child i hi state hstate
    rcases hover with hfinished | hgone
    · rw [List.all_eq_true.mp hfinished i (List.mem_range.mpr hi)] at hrunning
      cases hrunning
    · rw [hgone] at haborted
      cases haborted
  refine ⟨hnone, fun id state hstate href => ?_, ?_⟩
  · have hfound := hstate
    by_cases hid : id ∈ childIds requestId params.n
    · rw [hnone id hid] at hfound
      cases hfound
    · exact (h.other hsound hid hstate href).1 rfl
  · rw [h.registry, if_pos]
    rcases hover with hfinished | hgone
    · rw [hfinished, Bool.or_true]
    · rw [hgone, Bool.true_or]

/-- A request for several completions, added to a processor that no other request of its id is
in flight at, and then any calls: the client is given what its children make, gathered; the
children outstanding are those an abort of the request hands to the engine core; and nothing
is left of it once they are over. -/
theorem parallel_sampling (detokenizing : Detokenizing σ) (before calls : List Call)
    (requestId : Text) (params : SamplingParams) (prompt : Option Text)
    (promptTokenIds : List TokenId) (arrivalTime : ℕ → ℚ) (decoderState : σ) :
    let session : Session σ := { (Session.init σ).run detokenizing before with emitted := [] }
    let ref := session.processor.parents.length
    let added := session.run detokenizing (.newParent requestId params ::
      fanOut ref params.n prompt promptTokenIds arrivalTime)
    let fan := Fan.start params.n fun i =>
      (childArgs requestId params prompt promptTokenIds arrivalTime ref i).state decoderState
    2 ≤ params.n → Fresh session.processor requestId params.n →
    detokenizing.convertPrompt promptTokenIds = .ok decoderState →
    added.Apart detokenizing requestId params.n calls →
    let ended := added.run detokenizing calls
    let endedFan := fan.run detokenizing requestId calls
    Gathered params prompt promptTokenIds endedFan (reports requestId ended.emitted) ∧
      (endedFan.finished params.n = true ∨ endedFan.aborted = true →
        (∀ id ∈ childIds requestId params.n, ended.processor.requestStates.find id = none) ∧
        (∀ id state, ended.processor.requestStates.find id = some state →
          state.parentRequest ≠ some ref) ∧
        ended.processor.parentRequests.find requestId = none) ∧
      ∀ earlier requestIds later, calls = earlier ++ .abortRequests requestIds :: later →
        requestId ∈ requestIds →
        let fanThen := fan.run detokenizing requestId earlier
        ((added.run detokenizing earlier).processor.abortRequests requestIds).1.filter
            (· ∈ childIds requestId params.n) =
          if fanThen.aborted then [] else fanThen.unfinished requestId params.n := by
  intro session ref added fan hn hfresh hprompt hapart ended endedFan
  have hsound : session.processor.Sound :=
    Session.sound_run (OutputProcessor.sound_init (σ := σ)) before
  let created := session.call detokenizing (.newParent requestId params)
  have hcreated : Fanning requestId params ref (fun i =>
      (childArgs requestId params prompt promptTokenIds arrivalTime ref i).state decoderState) 0
      created.processor :=
    Fanning.init hsound hfresh _
  -- the fan-out sends the client nothing
  obtain ⟨hfanning, hquiet⟩ := fanning_run hprompt hcreated le_rfl
  obtain ⟨hfanned, hgathered⟩ := hfanning.fanned (by omega) fun i => ⟨rfl, rfl, rfl, rfl, rfl⟩
  have hsoundAdded : added.processor.Sound := Session.sound_run hsound _
  have hempty : reports requestId added.emitted = [] := congrArg (reports requestId) hquiet
  have hrun {earlier later : List Call} (heq : calls = earlier ++ later) :
      Fanned requestId params prompt promptTokenIds ref (fan.run detokenizing requestId earlier)
          (added.run detokenizing earlier).processor ∧
        Gathered params prompt promptTokenIds (fan.run detokenizing requestId earlier)
          (reports requestId (added.run detokenizing earlier).emitted) :=
    fanned_run hsoundAdded hfanned (hempty ▸ hgathered) (hapart.append heq).1
  obtain ⟨hfannedEnd, hgatheredEnd⟩ := hrun (List.append_nil calls).symm
  refine ⟨hgatheredEnd, hfannedEnd.over (Session.sound_run hsoundAdded calls), ?_⟩
  intro earlier requestIds later heq hmem fanThen
  obtain ⟨hfanned, -⟩ := hrun heq
  have hreply := (hfanned.abortRequests (Session.sound_run hsoundAdded earlier)
    (hapart.append heq).2.1).2
  rw [hreply]
  cases fanThen.aborted with
  | true => exact if_neg fun h => Bool.noConfusion h.2
  | false => exact if_pos ⟨hmem, rfl⟩

end Frame

/-- Two children, of which the second ends first: one output goes out, with both. -/
theorem parallel_pair :
    let params : SamplingParams := ⟨2, none, .finalOnly, none, ⟨[], 0, false⟩⟩
    let detokenizing := spelling fun tokenId => if tokenId = 0 then ['a'] else ['b']
    let added := ({ (Session.init Unit).run detokenizing [] with emitted := [] } : Session Unit).run
      detokenizing (.newParent ['r'] params :: fanOut 0 2 none [7] fun _ => 0)
    let fan : Fan Unit := Fan.start 2 fun i =>
      (childArgs ['r'] params none [7] (fun _ => 0) 0 i).state ()
    let calls : List Call := [.processOutput 1 ⟨"1_r".toList, [1], some .length, none, [], 0, none⟩,
      .processOutput 1 ⟨"0_r".toList, [0], some .length, none, [], 0, none⟩]
    Gathered params none [7] (fan.run detokenizing ['r'] calls)
        (reports ['r'] (added.run detokenizing calls).emitted) ∧
      (added.run detokenizing calls).emitted = [.request ⟨['r'], none, [7],
        [⟨0, ['a'], [0], some .length, none⟩, ⟨1, ['b'], [1], some .length, none⟩], true, 0⟩] := by
  intro params detokenizing added fan calls
  refine ⟨(parallel_sampling detokenizing [] calls ['r'] params none [7] (fun _ => 0) ()
    (by decide) ⟨rfl, fun i hi => rfl, rfl, fun id state ref parent hstate => ?_⟩ rfl
    ⟨trivial, trivial, trivial⟩).1, by decide +kernel⟩
  cases hstate

end Pvllm.Frontend
