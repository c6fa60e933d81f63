import Pvllm.Config.Vllm
import Pvllm.Core.Sched.Budgets
import Pvllm.Core.Sched.Caps
import Pvllm.Core.Sched.Isolation
import Pvllm.Core.Sched.Prefills

/-!
Whole prompts.

Without chunked prefill a request is let in with all its known tokens, where the
configuration allows for it: the threshold on a request's share is not below the
context window, and the budget of a step holds a prompt that fills it.
-/

namespace Pvllm

variable {H : Type} [DecidableEq H]

omit [DecidableEq H] in
/-- A text request the threshold does not cut. -/
structure Request.Uncut (threshold : ℕ) (request : Request H) : Prop where
  text : request.mmFeatures = []
  small : threshold = 0 ∨ request.numTokens ≤ threshold

omit [DecidableEq H] in
theorem Request.Uncut.keeps {threshold : ℕ} {request request' : Request H}
    (h : request.Uncut threshold) (hkeeps : request.Keeps request')
    (hreworks : request.Reworks request') : request'.Uncut threshold where
  text := by
    rw [hkeeps.eq]
    exact h.text
  small := by
    rw [hreworks.numTokens_eq]
    exact h.small

/-! ### Through the loops -/

namespace StepState

variable {s : Scheduler H} {l l' : StepState H} {r : RequestId}

theorem capShare_eq {threshold n : ℕ} (h : threshold = 0 ∨ n ≤ threshold) :
    capShare threshold n = n := by
  unfold capShare
  split
  · omega
  · rfl

/-- The check that refuses the head of the queue for want of budget. -/
def refuses (l : StepState H) (r : RequestId) (numComputedTokens : ℕ) : Prop :=
  l.scheduler.config.enableChunkedPrefill = false ∧
    l.tokenBudget < capShare l.scheduler.config.longPrefillTokenThreshold
      ((l.scheduler.request r).numTokens - numComputedTokens)

/-- Whoever a call lets in gets all its known tokens. -/
structure Whole (l : StepState H) : Prop where
  letIn : ∀ r ∈ l.letIn, (l.scheduler.request r).numComputedTokens +
    l.numScheduledTokens.findD r 0 = (l.scheduler.request r).numTokens
  admitting : ∀ r hits numLocal numExternal n inputs,
    l.phase = .admitting r hits numLocal numExternal n inputs →
      n + (numLocal + numExternal) = (l.scheduler.request r).numTokens

omit [DecidableEq H] in
/-- A step that lets nobody in. -/
theorem Whole.calm (h : Whole l) (hcalm : Calm l l')
    (hadmitting : ∀ r hits numLocal numExternal n inputs,
      l'.phase = .admitting r hits numLocal numExternal n inputs →
        n + (numLocal + numExternal) = (l'.scheduler.request r).numTokens) : Whole l' := by
  refine ⟨fun r hr => ?_, hadmitting⟩
  rw [hcalm.letIn] at hr
  rw [hcalm.computed, hcalm.scheduled, hcalm.tokens]
  exact h.letIn r hr

omit [DecidableEq H] in
theorem Whole.of_nil (hnone : l.letIn = [])
    (hphase : ∀ r hits numLocal numExternal n inputs,
      l.phase ≠ .admitting r hits numLocal numExternal n inputs) : Whole l := by
  refine ⟨fun r hr => ?_, fun r hits a b n inputs heq => absurd heq (hphase r hits a b n inputs)⟩
  rw [hnone] at hr
  cases hr

theorem Outcome.whole (h : Outcome l l') (hb : Batch l) (hw : Whole l)
    (hoff : l.scheduler.config.enableChunkedPrefill = false)
    (huncut : ∀ r ∈ l.scheduler.queued,
      (l.scheduler.request r).Uncut l.scheduler.config.longPrefillTokenThreshold) : Whole l' := by
  have halike := h.alike
  have hreworks := h.reworks
  have hconfig := h.static.1
  have hnew := hb.letIn_nil
  cases h with
  | rest hphase => exact hw
  | enter hphase =>
      refine .of_nil (hnew (by rw [hphase]; rfl)) fun r hits a b n inputs hnext => ?_
      dsimp only at hnext
      split at hnext <;> cases hnext
  | pass hphase hr hnone =>
      refine .of_nil (hnew (by rw [hphase]; rfl)) fun r hits a b n inputs hnext => ?_
      dsimp only at hnext
      rw [hphase] at hnext
      cases hnext
  | takeUp hphase hr hn hbudget hspec hlen => exact .of_nil (hnew (by rw [hphase]; rfl)) nofun
  | commit hphase hok => exact .of_nil (hnew (by rw [hphase]; rfl)) nofun
  | preempt hphase hok hvictim hstatus hfree hbatch hinputs =>
      refine .of_nil (hnew (by rw [hphase]; rfl)) fun r hits a b n inputs hnext => ?_
      dsimp only at hnext
      split at hnext <;> cases hnext
  | close hphase hs =>
      rcases hs with rfl | ⟨r, hs⟩
      · exact hw.calm ⟨rfl, rfl, rfl, rfl, fun _ => rfl, fun _ => rfl, fun _ => rfl⟩ nofun
      · exact hw.calm (hs.calm rfl rfl rfl) nofun
  | @setAside s' r kv waiting budget hphase hs hfree hpop =>
      exact hw.calm ⟨hs.running_eq, rfl, rfl, hconfig, fun r => (halike r).isPrefillChunk,
        fun r => (hs.counts r).1, fun r => (hreworks r).numTokens_eq⟩ nofun
  | @lookUp s' r hits numLocal numExternal n inputs budget hphase hs hpreempted hhits hexternal
      hrunning hn hbudget hlen hprefills hwhole hshare =>
      refine hw.calm (hs.calm rfl rfl rfl) fun r' hits' a b n' inputs' hnext => ?_
      obtain ⟨rfl, -, rfl, rfl, rfl, -⟩ := Phase.admitting.inj hnext
      have hqueued : r ∈ l.scheduler.queued :=
        List.mem_append_left _ (List.mem_of_head? hs.head)
      have hp : (s'.request r).Uncut l.scheduler.config.longPrefillTokenThreshold :=
        (huncut r hqueued).keeps (hs.keeps r) (hs.reworks r)
      have hsmall := hp.small.imp_right
        ((Nat.sub_le (s'.request r).numTokens (numLocal + numExternal)).trans ·)
      have hfits := hwhole hoff
      have hshare := hshare hp.text
      rw [capShare_eq hsmall] at hfits hshare
      rw [Nat.min_eq_left hfits] at hshare
      -- nothing cuts the share: it is all that is left of the prompt
      show n + (numLocal + numExternal) = (s'.request r).numTokens
      omega
  | decline hphase hok =>
      exact hw.calm ⟨rfl, rfl, rfl, rfl, fun _ => rfl, fun _ => rfl, fun _ => rfl⟩ nofun
  | @accept r r' hits blocks numLocal numExternal n inputs kv waiting connector loras hphase hok
      hpop hstatus hconnector =>
      obtain rfl := RequestQueue.head_of_pop (hb.admitting _ _ _ _ _ _ hphase).2.1 hpop
      refine ⟨fun r₁ hr₁ => ?_, nofun⟩
      have hgrown := mem_letIn_grown.mp hr₁
      show (Function.update l.scheduler.request r' _ r₁).numComputedTokens +
        (l.numScheduledTokens.store r' n).findD r₁ 0 =
          (Function.update l.scheduler.request r' _ r₁).numTokens
      by_cases heq : r₁ = r'
      · subst heq
        rw [Function.update_self, Dict.findD_store, if_pos rfl, Nat.add_comm]
        exact hw.admitting _ _ _ _ _ _ hphase
      · rw [Function.update_of_ne heq, Dict.findD_store, if_neg heq]
        exact hw.letIn r₁ (hgrown.resolve_left heq)

theorem Loops.uncut (hloops : Loops (start s) l) (hpart : s.Partitioned)
    (huncut : ∀ r ∈ s.requests, (s.request r).Uncut s.config.longPrefillTokenThreshold) :
    ∀ r ∈ l.scheduler.queued,
      (l.scheduler.request r).Uncut l.scheduler.config.longPrefillTokenThreshold := by
  intro r hr
  obtain ⟨hconfig, hrequests, -⟩ := hloops.static
  have hknown := (hloops.batch hpart).partition.known_of_waiting hr
  rw [hrequests] at hknown
  rw [hconfig]
  exact (huncut r hknown).keeps (hloops.keeps r) (hloops.reworks r)

theorem Loops.whole (hloops : Loops (start s) l) (hpart : s.Partitioned)
    (hoff : s.config.enableChunkedPrefill = false)
    (huncut : ∀ r ∈ s.requests, (s.request r).Uncut s.config.longPrefillTokenThreshold) :
    Whole l := by
  induction hloops with
  | refl => exact .of_nil rfl nofun
  | tail hloops hstep ih =>
      refine (advance_outcome hstep).whole (Loops.batch hpart hloops) ih ?_
        (Loops.uncut hloops hpart huncut)
      rw [(Loops.static hloops).1]
      exact hoff

end StepState

/-! ### Over a call -/

namespace Scheduler

variable {s s' : Scheduler H} {output : SchedulerOutput}

/-- A call lets requests in whole, and leaves none it scheduled short of its known
tokens. -/
theorem schedule_whole (hpart : s.Partitioned) (hoff : s.config.enableChunkedPrefill = false)
    (huncut : ∀ r ∈ s.requests, (s.request r).Uncut s.config.longPrefillTokenThreshold)
    (hlast : ∀ r ∈ s.running, (s.request r).numComputedTokens + 1 = (s.request r).numTokens)
    (hok : s.schedule = .ok (output, s')) {r : RequestId} (hr : r ∈ s'.running) :
    (r ∈ output.numScheduledTokens.keys →
        (s'.request r).numTokens ≤ (s'.request r).numComputedTokens) ∧
      (r ∉ s.running → r ∈ output.numScheduledTokens.keys ∧
        (s'.request r).numComputedTokens = (s'.request r).numTokens) := by
  obtain ⟨l, hloops, -, hfinishes⟩ := schedule_ok hok
  have hb := hloops.batch hpart
  have hw := hloops.whole hpart hoff huncut
  have hrunning : s'.running = l.scheduler.running := by
    rw [hfinishes.state, StepState.restoreSkippedWaiting_frame]
  rw [hrunning] at hr
  rw [hfinishes.scheduled]
  have hkeys : ∀ n, l.numScheduledTokens.find r = some n →
      s'.request r = (l.scheduler.request r).advanced n := by
    intro n hn
    rw [hfinishes.state]
    dsimp only
    rw [StepState.advancedTable]
    rw [Dict.find] at hn
    rw [hn]
  have hin : r ∈ l.letIn → r ∈ l.numScheduledTokens.keys ∧
      (s'.request r).numComputedTokens = (s'.request r).numTokens := by
    intro hin
    have hkey := (hb.keys r).mpr (List.mem_append_right _ hin)
    obtain ⟨n, hn⟩ := (Dict.mem_keys_iff ..).mp hkey
    have hall := hw.letIn r hin
    rw [Dict.findD, hn, Option.getD_some] at hall
    rw [hkeys n hn]
    exact ⟨hkey, hall⟩
  have hfollows := hloops.follows hpart r hr
  refine ⟨fun hkey => ?_, fun hnew => hin (hfollows.resolve_right fun hold => hnew hold.1)⟩
  rcases hfollows with hnew | ⟨hold, hcount⟩
  · exact (hin hnew).2.ge
  · obtain ⟨n, hn⟩ := (Dict.mem_keys_iff ..).mp hkey
    have hpos := hb.pos r n hn
    have hone := hlast r hold
    have htokens : (l.scheduler.request r).numTokens = (s.request r).numTokens :=
      (hloops.reworks r).numTokens_eq
    rw [hkeys n hn]
    show (l.scheduler.request r).numTokens ≤ (l.scheduler.request r).numComputedTokens + n
    omega

theorem tokenBudget_of_idle (hpart : s.Partitioned) {l : StepState H}
    (hloops : StepState.Loops (StepState.start s) l) (hidle : l.batch = []) :
    l.tokenBudget = s.config.maxNumScheduledTokens := by
  have htokens : l.Batch ∧ StepState.Tokens l := hloops.invariant
    (P := fun l => l.Batch ∧ StepState.Tokens l)
    ⟨StepState.batch_start hpart, Nat.add_zero _, Nat.zero_le _⟩ fun _ _ hstep ⟨hb, ht⟩ =>
      ⟨hstep.batch hb, hstep.tokens hb ht⟩
  obtain ⟨hb, ht⟩ := htokens
  have hnone : l.numScheduledTokens.items = [] := by
    rw [List.eq_nil_iff_forall_not_mem]
    intro entry hentry
    have hin := (hb.keys entry.1).mp (List.mem_map_of_mem hentry)
    rw [hidle] at hin
    cases hin
  have hbalance := ht.balance
  rw [Dict.total, hnone, hloops.static.1] at hbalance
  exact hbalance

end Scheduler

/-! ### Over a run of the engine -/

omit [DecidableEq H] in
/-- What a text request has to be like. -/
structure InputProcessor.AcceptsText (processor : InputProcessor) (args : RequestArgs) :
    Prop where
  accepts : processor.Accepts args
  bounded : args.Bounded
  text : args.mmFeatures = []

namespace Engine

/-- Prompts are computed whole, and each fits in a step. -/
structure WholePrompts (maxNumBatchedTokens : ℕ) (e : Engine H) : Prop where
  /-- Whoever a call lets in gets all its known tokens. -/
  letIn : e.inFlight = none → ∀ output s', e.scheduler.schedule = .ok (output, s') →
    ∀ r ∈ s'.running, r ∉ e.scheduler.running → r ∈ output.numScheduledTokens.keys ∧
      (s'.request r).numComputedTokens = (s'.request r).numTokens
  /-- No running request is in its prefill: nothing but its last token is left. -/
  complete : ∀ r ∈ e.scheduler.running, (e.scheduler.request r).isPrefillChunk = false ∧
    (e.scheduler.request r).numTokens ≤ (e.scheduler.request r).numComputedTokens + 1
  fits : ∀ r ∈ e.scheduler.requests, (e.scheduler.request r).numTokens ≤ maxNumBatchedTokens
  /-- Where nothing is scheduled yet the head of the queue has the budget. -/
  head : e.inFlight = none → ∀ l, StepState.Loops (StepState.start e.scheduler) l →
    l.phase = .admission → l.batch = [] → ∀ r, l.scheduler.waiting.items.head? = some r →
      ∀ numComputedTokens, ¬ l.refuses r numComputedTokens

section

variable {config : SchedulerConfig} {kvCacheConfig : KVCacheConfig} {enableCaching : Bool}
  {hashFn : HashInput H → H} {seed : ℕ} {connector : Option (SimSharedStoreConnector H)}
  {s₀ : Scheduler H} {e : Engine H} {events : List Event} {processor : InputProcessor}

theorem run_config
    (hinit : Scheduler.init config kvCacheConfig enableCaching hashFn seed connector = .ok s₀)
    (hrun : Run Step ⟨s₀, none⟩ events e) : e.scheduler.config = config := by
  obtain ⟨hpolicied, hfirst⟩ := Scheduler.init_policied hinit
  exact (Scheduler.run_policied (run_scheduler hrun) hpolicied).2.trans hfirst

theorem run_uncut (hwindow : processor.maxModelLen = config.maxModelLen)
    (hinit : Scheduler.init config kvCacheConfig enableCaching hashFn seed connector = .ok s₀)
    (hrun : Run Step ⟨s₀, none⟩ events e)
    (haccepted : ∀ args, Event.addRequest args ∈ events → processor.AcceptsText args)
    (hthreshold : config.longPrefillTokenThreshold = 0 ∨
      config.maxModelLen ≤ config.longPrefillTokenThreshold) :
    ∀ r ∈ e.scheduler.requests, (e.scheduler.request r).numTokens ≤ config.maxModelLen ∧
      (e.scheduler.request r).Uncut e.scheduler.config.longPrefillTokenThreshold := by
  intro r hr
  obtain ⟨args, hargs, hid, hasked⟩ :=
    Scheduler.run_asked (run_scheduler hrun) (Scheduler.init_settled hinit).2.1 r hr
  have hfits := (run_capped hwindow hinit hrun ⟨args, hargs, hid⟩
    (fun args hmem _ => (haccepted args hmem).accepts)
    fun args hmem _ => (haccepted args hmem).bounded).numTokens
  refine ⟨hfits, hasked.mmFeatures.trans (haccepted args hargs).text, ?_⟩
  rw [run_config hinit hrun]
  exact hthreshold.imp_right hfits.trans

theorem run_unflagged (hwindow : processor.maxModelLen = config.maxModelLen)
    (hinit : Scheduler.init config kvCacheConfig enableCaching hashFn seed connector = .ok s₀)
    (hrun : Run Step ⟨s₀, none⟩ events e)
    (haccepted : ∀ args, Event.addRequest args ∈ events → processor.AcceptsText args)
    (hthreshold : config.longPrefillTokenThreshold = 0 ∨
      config.maxModelLen ≤ config.longPrefillTokenThreshold)
    (hoff : config.enableChunkedPrefill = false) :
    ∀ r ∈ e.scheduler.running, (e.scheduler.request r).isPrefillChunk = false := by
  revert haccepted
  refine hrun.invariant (P := fun events e =>
    (∀ args, Event.addRequest args ∈ events → processor.AcceptsText args) →
      ∀ r ∈ e.scheduler.running, (e.scheduler.request r).isPrefillChunk = false) ?_ ?_
  · intro _ r hr
    have hknown := (Scheduler.init_settled hinit).1.partition.known_of_running hr
    rw [(Scheduler.init_settled hinit).2.1] at hknown
    cases hknown
  intro events e event e' hbefore ih hstep haccepted r hr
  have haccepted' : ∀ args, Event.addRequest args ∈ events → processor.AcceptsText args :=
    fun args hmem => haccepted args (List.mem_append_left _ hmem)
  have hpaced := run_paced hbefore (init_paced hinit)
  have hmarked := run_marked hbefore (init_marked hinit) (init_paced hinit)
  have huncut := run_uncut hwindow hinit hbefore haccepted' hthreshold
  have hconfig := run_config hinit hbefore
  have hdown := ih haccepted'
  cases hstep with
  | call hstep hanytime =>
      obtain ⟨hwas, grammar, heq⟩ := hstep.follows hanytime hpaced.settled r hr
      dsimp only
      rw [heq]
      exact hdown r hwas
  | @schedule s s' output hok =>
      by_cases hkey : r ∈ output.numScheduledTokens.keys
      · have hwhole := Scheduler.schedule_whole hpaced.settled.partition (hconfig.symm ▸ hoff)
          (fun r hr => (huncut r hr).2) (fun r hr => (hmarked.past r hr (hdown r hr) rfl).1) hok hr
        obtain ⟨-, -, -, -, hmarks⟩ := Scheduler.schedule_rows hok
        rw [← Bool.not_eq_true, (hmarks r hkey).2]
        exact Nat.not_lt.mpr (hwhole.1 hkey)
      · obtain ⟨hwas, -, -⟩ :=
          Scheduler.schedule_passed hpaced.settled.partition hok hr hkey
        rw [(Scheduler.schedule_alike hok hkey).isPrefillChunk]
        exact hdown r hwas
  | updateFromOutput hanswers hok =>
      obtain ⟨hwas, -⟩ := (Scheduler.updateFromOutput_follows hpaced.settled hok).running r hr
      rw [(Scheduler.updateFromOutput_alike hok r).isPrefillChunk]
      exact hdown r hwas

end

/-- Over every run of an engine without chunked prefill whose configuration gives a step
the budget for a prompt as long as the window, and cuts no such prompt, prompts are
computed whole. -/
theorem run_wholePrompts {load : String → Except PyError ModelCard}
    {args : Config.VllmConfigArgs} {config : Config.VllmConfig} {kvCacheConfig : KVCacheConfig}
    {enableCaching : Bool} {hashFn : HashInput H → H} {seed : ℕ}
    {connector : Option (SimSharedStoreConnector H)} {s₀ : Scheduler H} {e : Engine H}
    {events : List Event} {processor : InputProcessor}
    (hbuilt : Config.VllmConfig.init load args = .ok config)
    (hoff : config.schedulerConfig.enableChunkedPrefill = false)
    (hthreshold : config.schedulerConfig.longPrefillTokenThreshold = 0 ∨
      config.modelConfig.maxModelLen ≤ config.schedulerConfig.longPrefillTokenThreshold)
    (hbudget : config.modelConfig.maxModelLen ≤ config.schedulerConfig.maxNumBatchedTokens)
    (hwindow : processor.maxModelLen = config.modelConfig.maxModelLen)
    (hinit : Scheduler.init config.forScheduler kvCacheConfig enableCaching hashFn seed connector =
      .ok s₀)
    (hrun : Run Step ⟨s₀, none⟩ events e)
    (haccepted : ∀ args, Event.addRequest args ∈ events → processor.AcceptsText args) :
    WholePrompts config.schedulerConfig.maxNumBatchedTokens e := by
  have hagreed := Config.VllmConfig.init_maxModelLen hbuilt
  have hconfig := run_config hinit hrun
  rw [← hagreed] at hthreshold hbudget hwindow
  have hpart := (run_paced hrun (init_paced hinit)).settled.partition
  have hmarked := run_marked hrun (init_marked hinit) (init_paced hinit)
  have huncut := run_uncut hwindow hinit hrun haccepted hthreshold
  have hdown := run_unflagged hwindow hinit hrun haccepted hthreshold hoff
  have hfits : ∀ r ∈ e.scheduler.requests,
      (e.scheduler.request r).numTokens ≤ config.schedulerConfig.maxNumBatchedTokens :=
    fun r hr => (huncut r hr).1.trans hbudget
  have hidle : e.inFlight = none → ∀ r, e.scheduledFor r = none := by
    intro hnone r
    rw [scheduledFor, hnone]
    rfl
  refine ⟨fun hnone output s' hok r hr hnew => ?_, fun r hr => ⟨hdown r hr, ?_⟩, hfits,
    fun hnone l hloops hphase hbatch r hhead numComputedTokens hrefused => ?_⟩
  · exact (Scheduler.schedule_whole hpart (hconfig.symm ▸ hoff) (fun r hr => (huncut r hr).2)
      (fun r hr => (hmarked.past r hr (hdown r hr) (hidle hnone r)).1) hok hr).2 hnew
  · cases hsome : e.scheduledFor r with
    | none => exact (hmarked.past r hr (hdown r hr) hsome).1.ge
    | some n => exact (hmarked.flying r hr (hdown r hr) n hsome).trans (Nat.le_add_right ..)
  · have hb := hloops.batch hpart
    have hknown : r ∈ e.scheduler.requests := by
      have hrequests : l.scheduler.requests = e.scheduler.requests := hloops.static.2.1
      rw [← hrequests]
      exact hb.partition.known_of_waiting (List.mem_append_left _ (List.mem_of_head? hhead))
    have hsame : (l.scheduler.request r).numTokens = (e.scheduler.request r).numTokens :=
      (hloops.reworks r).numTokens_eq
    have hle := hfits r hknown
    obtain ⟨-, hlt⟩ := hrefused
    rw [Scheduler.tokenBudget_of_idle hpart hloops hbatch, hconfig, hsame] at hlt
    have hshare := StepState.capShare_le l.scheduler.config.longPrefillTokenThreshold
      ((e.scheduler.request r).numTokens - numComputedTokens)
    change config.schedulerConfig.maxNumBatchedTokens < _ at hlt
    omega

/-! ### An engine that computes prompts whole, and two that do not -/

/-- A window of eight tokens, no chunked prefill, and a budget of four to begin with. -/
def unchunkedArgs (maxModelLen threshold : ℤ) : Except PyError Config.VllmConfigArgs := do
  let modelConfig ← Config.ModelConfig.init Scheduler.bundled "dense-8b" none "auto" (some 8)
  let cacheConfig ← Config.CacheConfig.init 2 "auto" none true
  let parallelConfig ← Config.ParallelConfig.init 1 1 1
  let schedulerConfig ← Config.SchedulerConfigArgs.postInit
    { maxNumBatchedTokens := some 4
      maxModelLen := maxModelLen
      enableChunkedPrefill := false
      longPrefillTokenThreshold := threshold }
  return ⟨modelConfig, cacheConfig, parallelConfig, some schedulerConfig, none, 0, none, none, none,
    true⟩

def unchunkedProcessor : InputProcessor :=
  { narrowProcessor with maxModelLen := 8 }

def sixTokens (params : SamplingParamsArgs) : ProcessArgs :=
  { openArgs params with prompt := .tokens [1, 2, 3, 4, 5, 6] }

/-- The prompt is accepted, and a step is taken. -/
def unchunkedRun (maxModelLen threshold : ℤ) : Except PyError (Config.VllmConfig × RequestArgs ×
    Scheduler Digest × Scheduler Digest × SchedulerOutput × Scheduler Digest) := do
  let args ← unchunkedArgs maxModelLen threshold
  let config ← Config.VllmConfig.init Scheduler.bundled args
  let params ← (SamplingParamsArgs.ofBounds (some 1) 0).postInit
  let accepted ← unchunkedProcessor.processInputs (sixTokens params)
  let s₀ ← Scheduler.init config.forScheduler (Scheduler.shortKVConfig 8) true Digest.hash 0 none
  let request ← Request.init accepted
  let (output, s') ← (s₀.addRequest request).schedule
  return (config, accepted, s₀, s₀.addRequest request, output, s')

/-- What a run of the prompt is. -/
structure Unchunked (config : Config.VllmConfig) (accepted : RequestArgs)
    (s₀ s s' : Scheduler Digest) (output : SchedulerOutput) : Prop where
  built : ∃ args, Config.VllmConfig.init Scheduler.bundled args = .ok config
  accepts : unchunkedProcessor.AcceptsText accepted
  init : Scheduler.init config.forScheduler (Scheduler.shortKVConfig 8) true Digest.hash 0 none =
    .ok s₀
  run : Run Step ⟨s₀, none⟩ [.addRequest accepted] ⟨s, none⟩
  schedule : s.schedule = .ok (output, s')

theorem unchunkedRun_reaches {maxModelLen threshold : ℤ} {config : Config.VllmConfig}
    {accepted : RequestArgs} {s₀ s s' : Scheduler Digest} {output : SchedulerOutput}
    (h : unchunkedRun maxModelLen threshold = .ok (config, accepted, s₀, s, output, s'))
    (htext : accepted.mmFeatures = []) :
    Unchunked config accepted s₀ s s' output := by
  unfold unchunkedRun at h
  obtain ⟨args, -, h⟩ := except_bind_iff.mp h
  obtain ⟨_, hbuilt, h⟩ := except_bind_iff.mp h
  obtain ⟨params, hpost, h⟩ := except_bind_iff.mp h
  obtain ⟨_, haccepted, h⟩ := except_bind_iff.mp h
  obtain ⟨_, hinit, h⟩ := except_bind_iff.mp h
  obtain ⟨_, hrequest, h⟩ := except_bind_iff.mp h
  obtain ⟨⟨_, _⟩, hschedule, h⟩ := except_bind_iff.mp h
  cases h
  obtain ⟨-, hnone, -⟩ := Scheduler.init_settled hinit
  have hfresh : accepted.requestId ∉ s₀.requests := by
    rw [hnone]
    exact List.not_mem_nil
  have hbuilder : ∀ params', (sixTokens params).samplingParams = some params' →
      ∃ given : SamplingParamsArgs, given.postInit = .ok params' := by
    intro params' heq
    obtain rfl := Option.some.inj heq
    exact ⟨_, hpost⟩
  have hbounded : accepted.Bounded := by
    refine (InputProcessor.processInputs_ok hbuilder haccepted).2 fun params' heq hopen => ?_
    obtain rfl := Option.some.inj heq
    rw [(SamplingParamsArgs.postInit_ok hpost).1] at hopen
    cases hopen
  exact ⟨⟨args, hbuilt⟩, ⟨⟨sixTokens params, hbuilder, haccepted⟩, hbounded, htext⟩, hinit,
    Run.nil.snoc (Step.call (.addRequest hrequest hfresh) rfl), hschedule⟩

/-- With the window given to the scheduler's part as well, the prompt is computed in one
step. -/
theorem run_wholePrompts_six : ∃ (config : Config.VllmConfig) (e : Engine Digest),
    WholePrompts config.schedulerConfig.maxNumBatchedTokens e ∧ e.scheduler.running = [1] ∧
      (e.scheduler.request 1).numComputedTokens = 6 := by
  obtain ⟨⟨config, accepted, s₀, s, output, s'⟩, hrun, hcheck⟩ :=
    exists_of_okAnd (x := unchunkedRun 8 0) (p := fun (config, accepted, _, _, _, s') =>
      decide (accepted.mmFeatures = []) &&
      decide (config.schedulerConfig.enableChunkedPrefill = false ∧
        config.schedulerConfig.longPrefillTokenThreshold = 0 ∧
        config.modelConfig.maxModelLen ≤ config.schedulerConfig.maxNumBatchedTokens ∧
        unchunkedProcessor.maxModelLen = config.modelConfig.maxModelLen) &&
      decide (s'.running = [1] ∧ (s'.request 1).numComputedTokens = 6)) (by decide +kernel)
  simp only [Bool.and_eq_true, decide_eq_true_eq] at hcheck
  obtain ⟨⟨htext, hoff, hthreshold, hbudget, hwindow⟩, hfacts⟩ := hcheck
  have h := unchunkedRun_reaches hrun htext
  obtain ⟨args, hbuilt⟩ := h.built
  refine ⟨config, ⟨s', some output⟩, ?_, hfacts⟩
  refine run_wholePrompts hbuilt hoff (Or.inl hthreshold) hbudget hwindow h.init
    (h.run.snoc (Step.schedule h.schedule)) fun args hmem => ?_
  rcases List.mem_append.mp hmem with hmem | hmem
  · obtain heq := List.mem_singleton.mp hmem
    cases heq
    exact h.accepts
  · cases List.mem_singleton.mp hmem

/-- The scheduler's part is built for prompts of four tokens, and the model has a window
of eight: a prompt of six is accepted, and never has the budget. And with room for the
prompt in a step, a threshold of two cuts it. -/
theorem unchunkedRun_cut :
    (∃ (config : Config.VllmConfig) (accepted : RequestArgs) (s₀ s s' : Scheduler Digest)
      (output : SchedulerOutput), Unchunked config accepted s₀ s s' output ∧
        config.schedulerConfig.enableChunkedPrefill = false ∧
        unchunkedProcessor.maxModelLen = config.modelConfig.maxModelLen ∧
        s'.running = [] ∧ s'.waiting.items = [1] ∧
        ¬ WholePrompts config.schedulerConfig.maxNumBatchedTokens ⟨s, none⟩) ∧
    ∃ (config : Config.VllmConfig) (accepted : RequestArgs) (s₀ s s' : Scheduler Digest)
      (output : SchedulerOutput), Unchunked config accepted s₀ s s' output ∧
        config.schedulerConfig.enableChunkedPrefill = false ∧
        unchunkedProcessor.maxModelLen = config.modelConfig.maxModelLen ∧
        config.modelConfig.maxModelLen ≤ config.schedulerConfig.maxNumBatchedTokens ∧
        ¬ WholePrompts config.schedulerConfig.maxNumBatchedTokens ⟨s', some output⟩ := by
  constructor
  · obtain ⟨⟨config, accepted, s₀, s, output, s'⟩, hrun, hcheck⟩ :=
      exists_of_okAnd (x := unchunkedRun 4 0) (p := fun (config, accepted, _, s, _, s') =>
        decide (accepted.mmFeatures = []) &&
        decide (config.schedulerConfig.enableChunkedPrefill = false ∧
          unchunkedProcessor.maxModelLen = config.modelConfig.maxModelLen ∧
          s'.running = [] ∧ s'.waiting.items = [1]) &&
        decide (1 ∈ s.requests ∧
          config.schedulerConfig.maxNumBatchedTokens < (s.request 1).numTokens))
        (by decide +kernel)
    simp only [Bool.and_eq_true, decide_eq_true_eq] at hcheck
    obtain ⟨⟨htext, hoff, hwindow, hidle, hwaits⟩, hknown, hlarge⟩ := hcheck
    exact ⟨config, accepted, s₀, s, s', output, unchunkedRun_reaches hrun htext, hoff, hwindow,
      hidle, hwaits, fun hwhole => absurd (hwhole.fits 1 hknown) (Nat.not_le.mpr hlarge)⟩
  · obtain ⟨⟨config, accepted, s₀, s, output, s'⟩, hrun, hcheck⟩ :=
      exists_of_okAnd (x := unchunkedRun 8 2) (p := fun (config, accepted, _, _, _, s') =>
        decide (accepted.mmFeatures = []) &&
        decide (config.schedulerConfig.enableChunkedPrefill = false ∧
          unchunkedProcessor.maxModelLen = config.modelConfig.maxModelLen ∧
          config.modelConfig.maxModelLen ≤ config.schedulerConfig.maxNumBatchedTokens) &&
        decide (1 ∈ s'.running ∧ (s'.request 1).isPrefillChunk = true)) (by decide +kernel)
    simp only [Bool.and_eq_true, decide_eq_true_eq] at hcheck
    obtain ⟨⟨htext, hoff, hwindow, hbudget⟩, hrunning, hflag⟩ := hcheck
    refine ⟨config, accepted, s₀, s, s', output, unchunkedRun_reaches hrun htext, hoff, hwindow,
      hbudget, fun hwhole => ?_⟩
    have hdown := (hwhole.complete 1 hrunning).1
    dsimp only at hdown
    rw [hflag] at hdown
    cases hdown

end Engine

end Pvllm
