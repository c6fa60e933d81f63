import Pvllm.Core.Sched.Plain
import Pvllm.Core.Sched.Progress
import Pvllm.Engine.InputProcessor

/-!
The caps on the length of a request.

Three places bound how far a request can grow: the processor, which checks the
bounds it is given and resolves an open one to what the window leaves; the stop
check, which `min_tokens` puts off; and the scheduler's own cap at the window.
They agree on every request whose `min_tokens` is within its resolved
`max_tokens`: such a request goes on only below both bounds, and ends in the
very call that brings it to one. Where `max_tokens` is open, nothing compares
the two, and a greater `min_tokens` carries a request past both.
-/

namespace Pvllm

variable {H : Type} [DecidableEq H]

/-! ### One request -/

omit [DecidableEq H] in
/-- A prompt and an output that fit the window, and bounds in order. -/
structure Request.Fits (maxModelLen : ℕ) (request : Request H) : Prop where
  window : request.numPromptTokens + request.maxTokens ≤ maxModelLen
  bounds : request.usePooling = false → ∃ params, request.samplingParams = some params ∧
    params.minTokens ≤ request.maxTokens

/-- A request with room for a token more, if it generates any. -/
structure Request.Below (request : Request H) : Prop where
  output : request.numOutputTokens ≤ request.maxTokens
  room : request.usePooling = false → request.numOutputTokens < request.maxTokens

/-- The last token is one that ends the request. -/
def Request.StopsHere (request : Request H) : Prop :=
  ∃ params last, request.samplingParams = some params ∧
    request.outputTokenIds.getLast? = some last ∧
      (some last = params.eosTokenId ∨ last ∈ params.stopTokenIds)

/-- A request that is over: one that is at its bound was ended for it, or by its
last token. -/
structure Request.Over (request : Request H) : Prop where
  output : request.numOutputTokens ≤ request.maxTokens
  reason : request.usePooling = false → request.numOutputTokens = request.maxTokens →
    request.getFinishedReason = some .length ∨
      request.getFinishedReason = some .stop ∧ request.StopsHere

namespace Request

variable {maxModelLen : ℕ} {request request' : Request H}

omit [DecidableEq H]

theorem Fits.keeps (h : request.Fits maxModelLen) (hkeeps : request.Keeps request') :
    request'.Fits maxModelLen := by
  rw [hkeeps.eq]
  exact ⟨h.window, h.bounds⟩

theorem Fits.numTokens_le (h : request.Fits maxModelLen)
    (hout : request.numOutputTokens ≤ request.maxTokens) : request.numTokens ≤ maxModelLen := by
  have hwindow := h.window
  rw [numPromptTokens] at hwindow
  rw [numOutputTokens] at hout
  rw [numTokens, allTokenIds, List.length_append]
  omega

theorem Fits.bound_of_window (h : request.Fits maxModelLen)
    (hout : request.numOutputTokens ≤ request.maxTokens)
    (hat : request.numTokens = maxModelLen ∨ request.numOutputTokens = request.maxTokens) :
    request.numOutputTokens = request.maxTokens := by
  have hwindow := h.window
  rw [numTokens, allTokenIds, List.length_append] at hat
  rw [numPromptTokens] at hwindow
  rw [numOutputTokens] at *
  omega

theorem Below.keeps (h : request.Below) (hkeeps : request.Keeps request')
    (hsame : request'.outputTokenIds = request.outputTokenIds) : request'.Below := by
  rw [hkeeps.eq, hsame]
  exact ⟨h.output, h.room⟩

/-- A request with room that ends without a token more is below its bound. -/
theorem Below.over (h : request.Below) : request.Over where
  output := h.output
  reason hgenerates hat := absurd hat (Nat.ne_of_lt (h.room hgenerates))

theorem Fits.append (h : request.Fits maxModelLen) (tokenId : TokenId) :
    (request.appendOutputTokenIds tokenId).Fits maxModelLen := by
  rw [appendOutputTokenIds, updateBlockHashes_frame]
  exact ⟨h.window, h.bounds⟩

end Request

section

variable {maxModelLen : ℕ} {request request' : Request H} {stopped : Bool}

omit [DecidableEq H]

/-- The stop check lets a request go on only below its bounds, and ends one at
its bound for that, or for its last token. -/
theorem checkStop_caps (hfits : request.Fits maxModelLen) (hgenerates : request.usePooling = false)
    (hout : request.numOutputTokens ≤ request.maxTokens)
    (h : checkStop request maxModelLen = .ok (stopped, request')) :
    (stopped = false → request'.Below) ∧ (stopped = true → request'.Over) := by
  obtain ⟨params, hparams, hmin⟩ := hfits.bounds hgenerates
  unfold checkStop at h
  rw [hparams] at h
  dsimp only at h
  split at h
  · -- below the least output asked for, and that is within the bound
    rename_i hbelow
    obtain ⟨rfl, rfl⟩ := Prod.mk.inj (Except.ok.inj h)
    exact ⟨fun _ => ⟨hout, fun _ => by omega⟩, fun h => (by cases h)⟩
  split at h
  · cases h
  rename_i last hlast
  split at h
  · rename_i heos
    obtain ⟨rfl, rfl⟩ := Prod.mk.inj (Except.ok.inj h)
    refine ⟨fun h => (by cases h), fun _ => ⟨hout, fun _ _ => Or.inr ⟨rfl, ?_⟩⟩⟩
    exact ⟨params, last, rfl, hlast, Or.inl heos⟩
  split at h
  · rename_i hstop
    obtain ⟨rfl, rfl⟩ := Prod.mk.inj (Except.ok.inj h)
    refine ⟨fun h => (by cases h), fun _ => ⟨hout, fun _ _ => Or.inr ⟨rfl, ?_⟩⟩⟩
    exact ⟨params, last, rfl, hlast, Or.inr hstop⟩
  split at h
  · obtain ⟨rfl, rfl⟩ := Prod.mk.inj (Except.ok.inj h)
    exact ⟨fun h => (by cases h), fun _ => ⟨hout, fun _ _ => Or.inl rfl⟩⟩
  · rename_i hnot
    obtain ⟨rfl, rfl⟩ := Prod.mk.inj (Except.ok.inj h)
    rw [not_or, not_le, not_le] at hnot
    exact ⟨fun _ => ⟨hout, fun _ => hnot.2⟩, fun h => (by cases h)⟩

theorem Scheduler.updateRequestWithOutput_caps {tokenIds kept : List TokenId}
    (hfits : request.Fits maxModelLen) (hgenerates : request.usePooling = false)
    (hbelow : request.Below)
    (h : updateRequestWithOutput maxModelLen request tokenIds = .ok (kept, stopped, request')) :
    (stopped = false → request'.Below) ∧ (stopped = true → request'.Over) := by
  induction tokenIds generalizing request kept with
  | nil =>
      simp only [updateRequestWithOutput, Except.ok.injEq, Prod.mk.injEq] at h
      obtain ⟨rfl, rfl, rfl⟩ := h
      exact ⟨fun _ => hbelow, fun h => (by cases h)⟩
  | cons tokenId tokenIds ih =>
      have hfits' := hfits.append tokenId
      have hroom := hbelow.room hgenerates
      have hframe := request.appendAll_frame [tokenId]
      rw [Request.appendAll_cons, Request.appendAll_nil] at hframe
      have hgenerates' : (request.appendOutputTokenIds tokenId).usePooling = false := by
        rw [hframe]
        exact hgenerates
      have hout : (request.appendOutputTokenIds tokenId).numOutputTokens ≤
          (request.appendOutputTokenIds tokenId).maxTokens := by
        rw [hframe, Request.numOutputTokens, List.length_append]
        exact hroom
      unfold updateRequestWithOutput at h
      split at h
      · cases h
      · rename_i request₁ hstop
        obtain ⟨rfl, rfl, rfl⟩ : _ ∧ _ ∧ _ := by
          simpa only [Except.ok.injEq, Prod.mk.injEq] using h
        exact ⟨fun h => (by cases h), (checkStop_caps hfits' hgenerates' hout hstop).2⟩
      · rename_i request₁ hstop
        have hbelow₁ := (checkStop_caps hfits' hgenerates' hout hstop).1 rfl
        obtain ⟨status, stopReason, heq, hsame, -⟩ := checkStop_ok hstop
        obtain ⟨rfl, rfl⟩ := hsame rfl
        rw [Request.ended_self] at heq
        subst heq
        split at h
        · cases h
        rename_i hrest
        simp only [Except.ok.injEq, Prod.mk.injEq] at h
        obtain ⟨-, rfl, rfl⟩ := h
        exact ih hfits' hgenerates' hbelow₁ hrest

/-- A result that goes on leaves room, and one that ends the request at a bound
says so. -/
theorem UpdateState.applyOutput_caps {s : Scheduler H} {r : RequestId}
    {generated kept : List TokenId} {poolingOutput vector : Option PoolingOutput}
    (hfits : (s.request r).Fits s.config.maxModelLen) (hbelow : (s.request r).Below)
    (h : applyOutput s r generated poolingOutput = .ok (kept, stopped, vector, request')) :
    (stopped = false → request'.Below) ∧ (stopped = true → request'.Over) := by
  unfold applyOutput at h
  dsimp only at h
  split at h
  · rename_i hpooling
    split at h
    · simp only [Except.ok.injEq, Prod.mk.injEq] at h
      obtain ⟨-, rfl, -, rfl⟩ := h
      exact ⟨fun _ => hbelow, fun h => (by cases h)⟩
    · simp only [Except.ok.injEq, Prod.mk.injEq] at h
      obtain ⟨-, rfl, -, rfl⟩ := h
      refine ⟨fun h => (by cases h), fun _ => ⟨hbelow.output, fun hgenerates _ => ?_⟩⟩
      have hfalse : (s.request r).usePooling = false := hgenerates
      rw [hpooling] at hfalse
      cases hfalse
  · rename_i hpooling
    split at h
    · cases h
    rename_i hupdate
    simp only [Except.ok.injEq, Prod.mk.injEq] at h
    obtain ⟨-, rfl, -, rfl⟩ := h
    exact Scheduler.updateRequestWithOutput_caps hfits (Bool.eq_false_iff.mpr hpooling) hbelow
      hupdate

end

/-! ### A step of the scheduler -/

namespace Scheduler

/-- Where one request stands: below its bounds while it is there, and within
them when it is gone. -/
structure CapsFor (s : Scheduler H) (r : RequestId) : Prop where
  fits : (s.request r).Fits s.config.maxModelLen
  live : r ∈ s.requests → (s.request r).Below
  gone : r ∉ s.requests → (s.request r).Over

omit [DecidableEq H] in
theorem CapsFor.output {s : Scheduler H} {r : RequestId} (h : CapsFor s r) :
    (s.request r).numOutputTokens ≤ (s.request r).maxTokens := by
  by_cases hr : r ∈ s.requests
  · exact (h.live hr).output
  · exact (h.gone hr).output

/-- Only results change what a request has generated. -/
theorem Step.generated {s s' : Scheduler H} {event : Event} (hstep : Step s event s')
    {r : RequestId} (hadded : event.added ≠ some r) :
    (∃ schedulerOutput modelRunnerOutput outputs,
      event = .updateFromOutput schedulerOutput modelRunnerOutput outputs) ∨
    (s'.request r).outputTokenIds = (s.request r).outputTokenIds := by
  cases hstep with
  | @addRequest args request hrequest hfresh =>
      obtain ⟨hid, -⟩ := Request.init_ok hrequest
      refine Or.inr ?_
      rw [addRequest_eq]
      have hne : r ≠ request.requestId := fun heq => hadded (by rw [heq, hid]; rfl)
      show (Function.update s.request request.requestId _ r).outputTokenIds = _
      rw [Function.update_of_ne hne]
  | finishRequests hok =>
      refine Or.inr (finishAll_invariant
        (P := fun s' => (s'.request r).outputTokenIds = (s.request r).outputTokenIds)
        (finishRequests_ok hok).2 rfl fun s₁ s₂ r' _ hone h => ?_)
      rcases finishOne_ok hone with ⟨-, rfl⟩ | ⟨-, -, -, -, -, -, -, -, -, rfl⟩
      · exact h
      · rw [← h]
        show (Function.update s₁.request r' _ r).outputTokenIds = _
        by_cases heq : r = r'
        · rw [heq, Function.update_self]
          rfl
        · rw [Function.update_of_ne heq]
  | schedule hok =>
      obtain ⟨l, hloops, -, hfinishes⟩ := schedule_ok hok
      refine Or.inr (Eq.trans ?_ (hloops.reworks r).outputTokenIds_eq)
      rw [hfinishes.state]
      show (StepState.advancedTable _ _ r).outputTokenIds = _
      unfold StepState.advancedTable
      split <;> rfl
  | updateFromOutput hok => exact Or.inl ⟨_, _, _, rfl⟩
  | resetPrefixCache => exact Or.inr rfl
  | @grammar r' result hcompiling =>
      refine Or.inr ?_
      show (Function.update s.request r' _ r).outputTokenIds = _
      rw [Request.update_grammar]
  | sharedStore hconnector => exact Or.inr rfl

/-- Results leave a request that goes on below its bounds, and end one that
comes to them. -/
theorem updateFromOutput_caps {s s' : Scheduler H} {schedulerOutput : SchedulerOutput}
    {modelRunnerOutput : ModelRunnerOutput} {outputs : Dict ℕ (List EngineCoreOutput)}
    {r : RequestId} (hsettled : s.Settled) (h : CapsFor s r)
    (hok : s.updateFromOutput schedulerOutput modelRunnerOutput = .ok (outputs, s')) :
    CapsFor s' r := by
  obtain ⟨u, s₁, hall, hshed, -, rfl⟩ := updateFromOutput_ok hok
  obtain ⟨-, heq⟩ := shedAll_ok (P := fun _ => True) hshed trivial fun _ _ _ _ _ _ => trivial
  have hpart := hsettled.partition
  have hcaps : CapsFor u.scheduler r := by
    refine (UpdateState.updateAll_induct (P := fun u rest => rest.Nodup ∧
      (∀ r' ∈ rest, r' ∈ u.scheduler.requests) ∧ u.scheduler.requests.Nodup ∧
        CapsFor u.scheduler r) hall
      ⟨hpart.running_nodup, fun r' hr' => hpart.known_of_running hr', hpart.nodup, h⟩ ?_).2.2.2
    -- an iteration ends at most the request it visits
    intro u u' r' rest hone ⟨hline, htold, hnodup, h⟩
    obtain ⟨hr', hrest⟩ := List.nodup_cons.mp hline
    obtain ⟨hhere, hknown⟩ := List.forall_mem_cons.mp htold
    have hthere : ∀ r'' ∈ rest, r'' ∈ u.scheduler.requests.erase r' := by
      intro r'' hmem
      refine (List.mem_erase_of_ne ?_).mpr (hknown r'' hmem)
      rintro rfl
      exact hr' hmem
    have hothers : r ≠ r' → ((r ∈ u.scheduler.requests.erase r') ↔ r ∈ u.scheduler.requests) :=
      fun hne => List.mem_erase_of_ne hne
    by_cases hsame : r = r'
    · -- the request itself
      subst hsame
      by_cases hscheduled : schedulerOutput.numScheduledTokens.findD r 0 = 0
      · unfold UpdateState.updateOne at hone
        rw [if_pos hscheduled] at hone
        obtain rfl := Except.ok.inj hone
        exact ⟨hrest, hknown, hnodup, h⟩
      obtain ⟨s₂, kept, stopped, vector, hrolled, hconfig, happly, hrequests⟩ :=
        UpdateState.updateOne_applied hone hscheduled
      have hfits : (s₂.request r).Fits s₂.config.maxModelLen := by
        rw [hrolled, hconfig]
        exact h.fits.keeps (.withNumComputedTokens _)
      have hbelow : (s₂.request r).Below := by
        rw [hrolled]
        exact (h.live hhere).keeps (.withNumComputedTokens _) rfl
      obtain ⟨hgoes, hstops⟩ := UpdateState.applyOutput_caps hfits hbelow happly
      have hkeeps := (UpdateState.applyOutput_ok happly).1.keeps
      have hconfig' : u'.scheduler.config = u.scheduler.config := by
        cases UpdateState.updateOne_outcome hone <;> rfl
      cases stopped with
      | false =>
          rw [if_neg Bool.false_ne_true] at hrequests
          rw [hrequests]
          refine ⟨hrest, hknown, hnodup, ?_, fun _ => hgoes rfl, fun hr => ?_⟩
          · rw [hconfig', ← hconfig]
            exact hfits.keeps hkeeps
          · rw [hrequests] at hr
            exact absurd hhere hr
      | true =>
          rw [if_pos rfl] at hrequests
          rw [hrequests]
          refine ⟨hrest, hthere, hnodup.erase r, ?_, fun hr => ?_, fun _ => hstops rfl⟩
          · rw [hconfig', ← hconfig]
            exact hfits.keeps hkeeps
          · rw [hrequests] at hr
            exact absurd hr hnodup.not_mem_erase
    · -- another one
      cases UpdateState.updateOne_outcome hone with
      | skip hscheduled => exact ⟨hrest, hknown, hnodup, h⟩
      | goOn hscheduled hfolds hkept hpooled houtputs =>
          refine ⟨hrest, hknown, hnodup, ?_⟩
          obtain ⟨hfits, hlive, hgone⟩ := h
          constructor
          all_goals
            dsimp only
            rw [Function.update_of_ne hsame]
            assumption
      | stop hscheduled hfolds hkept houtput hfree hconnector =>
          refine ⟨hrest, hthere, hnodup.erase r', ?_⟩
          obtain ⟨hfits, hlive, hgone⟩ := h
          rw [← hothers hsame] at hlive hgone
          constructor
          all_goals
            dsimp only
            rw [Function.update_of_ne hsame]
            assumption
  rw [heq]
  refine ⟨?_, fun hr => ?_, fun hr => ?_⟩
  · show (draftedTable _ _ _ r).Fits _
    rw [draftedTable_frame]
    exact ⟨hcaps.fits.window, hcaps.fits.bounds⟩
  · show (draftedTable _ _ _ r).Below
    rw [draftedTable_frame]
    exact ⟨(hcaps.live hr).output, (hcaps.live hr).room⟩
  · show (draftedTable _ _ _ r).Over
    rw [draftedTable_frame]
    exact ⟨(hcaps.gone hr).output, (hcaps.gone hr).reason⟩

theorem Step.caps {s s' : Scheduler H} {event : Event} (hstep : Step s event s')
    (hsettled : s.Settled) (hconfig : s'.config = s.config) {r : RequestId}
    (hadded : event.added ≠ some r) (h : CapsFor s r) : CapsFor s' r := by
  have hkeeps := hstep.keeps hadded
  have hfits : (s'.request r).Fits s'.config.maxModelLen := hconfig ▸ h.fits.keeps hkeeps
  rcases hstep.generated hadded with ⟨schedulerOutput, modelRunnerOutput, outputs, rfl⟩ | hsame
  · cases hstep with
    | updateFromOutput hok => exact updateFromOutput_caps hsettled h hok
  by_cases hr : r ∈ s.requests
  · have hbelow := (h.live hr).keeps hkeeps hsame
    exact ⟨hfits, fun _ => hbelow, fun _ => hbelow.over⟩
  · refine ⟨hfits, fun hr' => ?_, fun _ => ?_⟩
    · rcases hstep.known hr' with hr' | hr'
      · exact absurd hr' hr
      · exact absurd hr' hadded
    · rw [hstep.gone hsettled hr hadded]
      exact ⟨(h.gone hr).output, (h.gone hr).reason⟩

theorem Step.caps_added {s s' : Scheduler H} {args : RequestArgs}
    (hstep : Step s (.addRequest args) s') (hfits : args.Fits s.config.maxModelLen)
    (hbounded : args.Bounded) : CapsFor s' args.requestId := by
  cases hstep with
  | @addRequest _ request hrequest hfresh =>
      obtain ⟨hid, -⟩ := Request.init_ok hrequest
      have hasked := Request.init_asked hrequest
      have hempty := (Request.init_empty hrequest).1
      have hout : request.numOutputTokens = 0 := by rw [Request.numOutputTokens, hempty]; rfl
      have hrequest' : request.Fits s.config.maxModelLen ∧ request.Below := by
        cases hpooling : args.usePooling with
        | true =>
            have hnone : args.samplingParams = none := by
              rw [← Option.isNone_iff_eq_none, hasked.exclusive, hpooling]
            have hmax : request.maxTokens = 0 := by rw [hasked.maxTokens, hnone]; rfl
            have hpools : request.usePooling = true := hasked.usePooling.trans hpooling
            refine ⟨⟨?_, fun hnot => ?_⟩, ⟨by omega, fun hnot => ?_⟩⟩
            · rw [hmax, Request.numPromptTokens, hasked.promptTokenIds]
              exact hfits.pooling hpooling
            · rw [hpools] at hnot
              cases hnot
            · rw [hpools] at hnot
              cases hnot
        | false =>
            obtain ⟨params, maxTokens, hparams, hmaxTokens, hpos, hwindow⟩ :=
              hfits.generates hpooling
            have hmax : request.maxTokens = maxTokens := by
              rw [hasked.maxTokens, hparams, Option.bind_some, hmaxTokens, Option.getD_some]
            refine ⟨⟨?_, fun _ => ⟨params, hasked.samplingParams.trans hparams, ?_⟩⟩,
              ⟨by omega, fun _ => by omega⟩⟩
            · rw [hmax, Request.numPromptTokens, hasked.promptTokenIds]
              exact hwindow
            · rw [hmax]
              exact hbounded params maxTokens hparams hmaxTokens
      have hstored : (s.addRequest request).request args.requestId = s.stored request := by
        rw [addRequest_eq, ← hid]
        exact Function.update_self ..
      have hhere : args.requestId ∈ (s.addRequest request).requests := by
        rw [addRequest_eq, ← hid]
        exact EncoderCacheManager.mem_insertNew.mpr (Or.inr rfl)
      obtain ⟨⟨hwindow, hbounds⟩, houtput, hroom⟩ := hrequest'
      refine ⟨?_, fun _ => ?_, fun hgone => absurd hhere hgone⟩
      · rw [hstored, stored_frame, addRequest_eq]
        exact ⟨hwindow, hbounds⟩
      · rw [hstored, stored_frame]
        exact ⟨houtput, hroom⟩

/-- Over a run, a request that was added fitting the window stands within its
bounds. -/
theorem run_caps {s s' : Scheduler H} {events : List Event} (hrun : Run Step s events s')
    (hsettled : s.Settled) (hpolicied : s.Policied) {r : RequestId}
    (hfits : ∀ args, Event.addRequest args ∈ events → args.requestId = r →
      args.Fits s.config.maxModelLen ∧ args.Bounded)
    (hadded : ∃ args, Event.addRequest args ∈ events ∧ args.requestId = r) : CapsFor s' r := by
  induction hrun with
  | nil =>
      obtain ⟨args, hmem, -⟩ := hadded
      cases hmem
  | @snoc events s₁ s₂ event hrun hstep ih =>
      obtain ⟨hpolicied₁, hconfig⟩ := run_policied hrun hpolicied
      by_cases hlast : event.added = some r
      · -- added by the last call
        cases event with
        | addRequest args =>
            obtain rfl : args.requestId = r := Option.some.inj hlast
            obtain ⟨hfit, hbounded⟩ :=
              hfits args (List.mem_append_right _ (List.mem_singleton_self _)) rfl
            exact hstep.caps_added (hconfig ▸ hfit) hbounded
        | finishRequests => cases hlast
        | schedule => cases hlast
        | updateFromOutput => cases hlast
        | resetPrefixCache => cases hlast
        | grammar => cases hlast
        | sharedStore => cases hlast
      · obtain ⟨args, hmem, hid⟩ := hadded
        have hbefore : Event.addRequest args ∈ events := by
          rcases List.mem_append.mp hmem with hmem | hmem
          · exact hmem
          · rw [← List.mem_singleton.mp hmem, ← hid] at hlast
            exact absurd rfl hlast
        refine hstep.caps (run_settled hrun hsettled) (hstep.policied hpolicied₁).2 hlast ?_
        exact ih (fun args hmem hid => hfits args (List.mem_append_left _ hmem) hid)
          ⟨args, hbefore, hid⟩

end Scheduler

/-! ### Runs of the engine -/

namespace Engine

/-- What the caps say of one request. -/
structure Capped (maxModelLen : ℕ) (e : Engine H) (r : RequestId) : Prop where
  numTokens : (e.scheduler.request r).numTokens ≤ maxModelLen
  numOutputTokens : (e.scheduler.request r).numOutputTokens ≤ (e.scheduler.request r).maxTokens
  /-- A request that generates and has come to a bound is over, for its length
  or for its last token. -/
  finished : (e.scheduler.request r).usePooling = false →
    (e.scheduler.request r).numTokens = maxModelLen ∨
      (e.scheduler.request r).numOutputTokens = (e.scheduler.request r).maxTokens →
    r ∉ e.scheduler.requests ∧ ((e.scheduler.request r).getFinishedReason = some .length ∨
      (e.scheduler.request r).getFinishedReason = some .stop ∧ (e.scheduler.request r).StopsHere)
  /-- A running request has something to schedule, and room for it. -/
  schedulable : e.inFlight = none → r ∈ e.scheduler.running →
    (e.scheduler.request r).numComputedTokens < (e.scheduler.request r).numTokensWithSpec ∧
      (e.scheduler.request r).numComputedTokens < maxModelLen

/-- A request the processor accepts with its bounds in order stays within them,
over every run, whatever the other requests are. -/
theorem run_capped {config : SchedulerConfig} {kvCacheConfig : KVCacheConfig}
    {enableCaching : Bool} {hashFn : HashInput H → H} {seed : ℕ}
    {connector : Option (SimSharedStoreConnector H)} {s₀ : Scheduler H} {e : Engine H}
    {events : List Event} {processor : InputProcessor} {r : RequestId}
    (hwindow : processor.maxModelLen = config.maxModelLen)
    (hinit : Scheduler.init config kvCacheConfig enableCaching hashFn seed connector = .ok s₀)
    (hrun : Run Step ⟨s₀, none⟩ events e)
    (hadded : ∃ args, Event.addRequest args ∈ events ∧ args.requestId = r)
    (haccepted : ∀ args, Event.addRequest args ∈ events → args.requestId = r →
      processor.Accepts args)
    (hbounded : ∀ args, Event.addRequest args ∈ events → args.requestId = r → args.Bounded) :
    Capped config.maxModelLen e r := by
  have hpaced := run_paced hrun (init_paced hinit)
  obtain ⟨hpolicied, hconfig⟩ := Scheduler.init_policied hinit
  obtain ⟨-, hconfig'⟩ := Scheduler.run_policied (run_scheduler hrun) hpolicied
  have hfits : ∀ args, Event.addRequest args ∈ events → args.requestId = r →
      args.Fits s₀.config.maxModelLen ∧ args.Bounded := fun args hmem hid => by
    refine ⟨?_, hbounded args hmem hid⟩
    rw [hconfig, ← hwindow]
    exact (haccepted args hmem hid).fits
  have hcaps : Scheduler.CapsFor e.scheduler r := Scheduler.run_caps (run_scheduler hrun)
    (Scheduler.init_settled hinit).1 hpolicied hfits hadded
  have hmodel : e.scheduler.config.maxModelLen = config.maxModelLen :=
    congrArg _ (hconfig'.trans hconfig)
  have hlen := hcaps.fits.numTokens_le hcaps.output
  rw [hmodel] at hlen
  refine ⟨hlen, hcaps.output, fun hgenerates hat => ?_, fun hnone hr => ?_⟩
  · rw [← hmodel] at hat
    have hout := hcaps.fits.bound_of_window hcaps.output hat
    have hgone : r ∉ e.scheduler.requests := fun hr =>
      absurd hout (Nat.ne_of_lt ((hcaps.live hr).room hgenerates))
    exact ⟨hgone, (hcaps.gone hgone).reason hgenerates hout⟩
  · have hbehind := (hpaced.steady r hr (by rw [scheduledFor, hnone]; rfl)).behind
    rw [Request.numTokensWithSpec]
    omega

def narrowConfig : SchedulerConfig :=
  { Scheduler.shortConfig .fcfs with
    maxModelLen := 4 }

def narrowProcessor : InputProcessor where
  tokenizer := ⟨fun _ => [], none⟩
  maxModelLen := 4
  maxLogprobs := 20
  loraEnabled := false

/-- A prompt of two tokens, `max_tokens` left open. -/
def openArgs (params : SamplingParamsArgs) : ProcessArgs where
  requestId := 1
  prompt := .tokens [1, 2]
  samplingParams := some params
  poolingParams := false
  clientIndex := 0
  priority := 0
  cacheSalt := none
  loraRequest := none
  mmFeatures := []
  arrivalTime := 0

/-- A request is accepted, and samples one token in each of three steps, if it
lasts. -/
def openRun (minTokens : ℤ) : Except PyError (Request Digest × Scheduler Digest × SchedulerOutput ×
    Scheduler Digest × SchedulerOutput × Scheduler Digest × Scheduler Digest × SchedulerOutput ×
    Scheduler Digest) := do
  let params ← (SamplingParamsArgs.ofBounds none minTokens).postInit
  let args ← narrowProcessor.processInputs (openArgs params)
  let s₀ ← Scheduler.init narrowConfig (Scheduler.shortKVConfig 8) true Digest.hash 0 none
  let request ← Request.init args
  let (output₁, s₁) ← (s₀.addRequest request).schedule
  let (_, s₂) ← s₁.updateFromOutput output₁ (answerOne 1 [7] [])
  let (output₂, s₃) ← s₂.schedule
  let (_, s₄) ← s₃.updateFromOutput output₂ (answerOne 1 [7] [])
  let (output₃, s₅) ← s₄.schedule
  let (_, s₆) ← s₅.updateFromOutput output₃ (answerOne 1 [7] [])
  return (request, s₁, output₁, s₃, output₂, s₄, s₅, output₃, s₆)

/-- The caps, for a request that ends at the one it was given. -/
theorem run_capped_open : ∃ e : Engine Digest, Capped narrowConfig.maxModelLen e 1 ∧
    (e.scheduler.request 1).outputTokenIds = [7, 7] ∧
    (e.scheduler.request 1).getFinishedReason = some .length := by
  obtain ⟨⟨request, s₁, output₁, s₃, output₂, s₄, s₅, output₃, s₆⟩, hrun, hcheck⟩ :=
    exists_of_okAnd (x := openRun 2) (p := fun (request, s₁, output₁, s₃, output₂, s₄, _) =>
      decide (Answers s₁ output₁ (answerOne 1 [7] []) ∧ Answers s₃ output₂ (answerOne 1 [7] []) ∧
        request.requestId = 1 ∧ request.samplingParams = some ⟨some 2, 2, none, []⟩ ∧
        (s₄.request 1).outputTokenIds = [7, 7] ∧
        (s₄.request 1).getFinishedReason = some .length)) (by decide +kernel)
  obtain ⟨hanswers₁, hanswers₂, hid, hparams, htokens, hreason⟩ := of_decide_eq_true hcheck
  unfold openRun at hrun
  obtain ⟨params, hpost, hrun⟩ := except_bind_iff.mp hrun
  obtain ⟨args, hargs, hrun⟩ := except_bind_iff.mp hrun
  obtain ⟨s₀, hinit, hrun⟩ := except_bind_iff.mp hrun
  obtain ⟨_, hrequest, hrun⟩ := except_bind_iff.mp hrun
  obtain ⟨⟨_, _⟩, hfirst, hrun⟩ := except_bind_iff.mp hrun
  obtain ⟨⟨_, s₂⟩, hback₁, hrun⟩ := except_bind_iff.mp hrun
  obtain ⟨⟨_, _⟩, hsecond, hrun⟩ := except_bind_iff.mp hrun
  obtain ⟨⟨_, _⟩, hback₂, hrun⟩ := except_bind_iff.mp hrun
  obtain ⟨⟨_, _⟩, hthird, hrun⟩ := except_bind_iff.mp hrun
  obtain ⟨⟨_, _⟩, hback₃, hrun⟩ := except_bind_iff.mp hrun
  cases hrun
  obtain ⟨-, hnone, -⟩ := Scheduler.init_settled hinit
  have hasked := Request.init_asked hrequest
  have hfresh : args.requestId ∉ s₀.requests := by
    rw [hnone]
    exact List.not_mem_nil
  have hsteps := ((((Run.nil.snoc (Step.call (.addRequest hrequest hfresh) rfl)).snoc
    (Step.schedule hfirst)).snoc (Step.updateFromOutput hanswers₁ hback₁)).snoc
    (Step.schedule hsecond)).snoc (Step.updateFromOutput hanswers₂ hback₂)
  have hargs_id : args.requestId = 1 := hasked.requestId.symm.trans hid
  have hprocessor : narrowProcessor.maxModelLen = narrowConfig.maxModelLen := rfl
  refine ⟨_, run_capped hprocessor hinit hsteps ⟨args, List.mem_cons_self, hargs_id⟩
    (fun args' hmem _ => ?_) (fun args' hmem _ => ?_), htokens, hreason⟩
  · obtain rfl : args' = args := by simpa using hmem
    refine ⟨openArgs params, fun params' hparams' => ⟨.ofBounds none 2, ?_⟩, hargs⟩
    rw [← Option.some.inj hparams']
    exact hpost
  · obtain rfl : args' = args := by simpa using hmem
    intro params' maxTokens hparams' hmax
    rw [← hasked.samplingParams, hparams] at hparams'
    obtain rfl := Option.some.inj hparams'
    exact Nat.le_of_eq (Option.some.inj hmax)

/-- A request that is accepted with `max_tokens` open and a greater `min_tokens`
than the window leaves goes on past both bounds: it is running, with more tokens
than the window holds and more output than it may have, and as it is computed up
to the window, nothing of it will be scheduled again. -/
theorem openRun_past : ∃ (s₀ : Scheduler Digest) (e : Engine Digest) (args : RequestArgs)
    (events : List Event), narrowProcessor.Accepts args ∧
      Scheduler.init narrowConfig (Scheduler.shortKVConfig 8) true Digest.hash 0 none = .ok s₀ ∧
      Run Step ⟨s₀, none⟩ events e ∧ Event.addRequest args ∈ events ∧ args.requestId = 1 ∧
      e.inFlight = none ∧ 1 ∈ e.scheduler.running ∧
      ¬ (e.scheduler.request 1).numTokens ≤ narrowConfig.maxModelLen ∧
      ¬ (e.scheduler.request 1).numOutputTokens ≤ (e.scheduler.request 1).maxTokens ∧
      (e.scheduler.request 1).numComputedTokens = narrowConfig.maxModelLen := by
  obtain ⟨⟨request, s₁, output₁, s₃, output₂, s₄, s₅, output₃, s₆⟩, hrun, hcheck⟩ :=
    exists_of_okAnd (x := openRun 6)
      (p := fun (request, s₁, output₁, s₃, output₂, _, s₅, output₃, s₆) =>
        decide (Answers s₁ output₁ (answerOne 1 [7] []) ∧
          Answers s₃ output₂ (answerOne 1 [7] []) ∧ Answers s₅ output₃ (answerOne 1 [7] []) ∧
          request.requestId = 1 ∧ 1 ∈ s₆.running ∧
          ¬ (s₆.request 1).numTokens ≤ narrowConfig.maxModelLen ∧
          ¬ (s₆.request 1).numOutputTokens ≤ (s₆.request 1).maxTokens ∧
          (s₆.request 1).numComputedTokens = narrowConfig.maxModelLen)) (by decide +kernel)
  obtain ⟨hanswers₁, hanswers₂, hanswers₃, hid, hfinal⟩ := of_decide_eq_true hcheck
  unfold openRun at hrun
  obtain ⟨params, hpost, hrun⟩ := except_bind_iff.mp hrun
  obtain ⟨args, hargs, hrun⟩ := except_bind_iff.mp hrun
  obtain ⟨s₀, hinit, hrun⟩ := except_bind_iff.mp hrun
  obtain ⟨_, hrequest, hrun⟩ := except_bind_iff.mp hrun
  obtain ⟨⟨_, _⟩, hfirst, hrun⟩ := except_bind_iff.mp hrun
  obtain ⟨⟨_, s₂⟩, hback₁, hrun⟩ := except_bind_iff.mp hrun
  obtain ⟨⟨_, _⟩, hsecond, hrun⟩ := except_bind_iff.mp hrun
  obtain ⟨⟨_, _⟩, hback₂, hrun⟩ := except_bind_iff.mp hrun
  obtain ⟨⟨_, _⟩, hthird, hrun⟩ := except_bind_iff.mp hrun
  obtain ⟨⟨_, _⟩, hback₃, hrun⟩ := except_bind_iff.mp hrun
  cases hrun
  obtain ⟨-, hnone, -⟩ := Scheduler.init_settled hinit
  have hasked := Request.init_asked hrequest
  have hfresh : args.requestId ∉ s₀.requests := by
    rw [hnone]
    exact List.not_mem_nil
  have hsteps := ((((((Run.nil.snoc (Step.call (.addRequest hrequest hfresh) rfl)).snoc
    (Step.schedule hfirst)).snoc (Step.updateFromOutput hanswers₁ hback₁)).snoc
    (Step.schedule hsecond)).snoc (Step.updateFromOutput hanswers₂ hback₂)).snoc
    (Step.schedule hthird)).snoc (Step.updateFromOutput hanswers₃ hback₃)
  refine ⟨s₀, _, args, _, ⟨openArgs params, fun params' hparams' => ⟨.ofBounds none 6, ?_⟩, hargs⟩,
    hinit, hsteps, ?_, hasked.requestId.symm.trans hid, rfl, hfinal⟩
  · rw [← Option.some.inj hparams']
    exact hpost
  · exact List.mem_cons_self

end Engine

end Pvllm
