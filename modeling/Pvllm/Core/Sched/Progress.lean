import Pvllm.Core.Sched.Identity
import Pvllm.Core.Sched.Survivors

/-!
How far a request is computed.

Between steps the computed count of a running request is behind its tokens, and
exactly one behind where drafts wait to be verified. In flight it may run ahead,
by the drafts that were sent; the results bring it back. `Pace` follows the
counts through the loops of `schedule`, `Paced` through a run of the engine.
-/

namespace Pvllm

variable {H : Type} [DecidableEq H]

open UpdateState

omit [DecidableEq H] in
/-- Something is left to compute, and where there are drafts it is one token. -/
structure Request.Steady (request : Request H) : Prop where
  behind : request.numComputedTokens < request.numTokens
  drafts : request.specTokenIds ≠ [] → request.numComputedTokens + 1 = request.numTokens

omit [DecidableEq H] in
/-- The step in flight is counted: past the tokens there are the drafts sent. -/
structure Request.Flying (request : Request H) (numDrafts : ℕ) : Prop where
  ahead : request.numComputedTokens - request.numTokens = numDrafts
  cleared : request.specTokenIds = []

/-! ### Through the loops -/

namespace StepState

/-- The counts and the drafts at a point of a call that began at `s`. -/
structure Pace (s : Scheduler H) (l : StepState H) : Prop where
  reworks : ∀ r, (s.request r).Reworks (l.scheduler.request r)
  drafts : ∀ r, (l.scheduler.request r).specTokenIds = (s.request r).specTokenIds ∨
    (l.scheduler.request r).specTokenIds = []
  queued : ∀ r ∈ l.scheduler.queued, (l.scheduler.request r).specTokenIds = []
  steady : ∀ r ∈ l.scheduler.running, r ∉ l.batch → (l.scheduler.request r).Steady
  cleared : ∀ r ∈ l.batch, (l.scheduler.request r).specTokenIds = []
  behind : ∀ r ∈ l.batch,
    (l.scheduler.request r).numComputedTokens < (l.scheduler.request r).numTokens
  sent : ∀ r n, l.numScheduledTokens.find r = some n →
    l.scheduledSpecDecodeTokens.findD r [] = (s.request r).specTokenIds.take
        (n + (l.scheduler.request r).numComputedTokens - (l.scheduler.request r).numTokens) ∧
      (l.scheduledSpecDecodeTokens.findD r []).length =
        n + (l.scheduler.request r).numComputedTokens - (l.scheduler.request r).numTokens
  allocating : ∀ r n, l.phase = .allocating r n →
    n + (l.scheduler.request r).numComputedTokens ≤ (l.scheduler.request r).numTokensWithSpec
  admitting : ∀ r hits numLocal numExternal n inputs,
    l.phase = .admitting r hits numLocal numExternal n inputs →
      n + (numLocal + numExternal) ≤ (l.scheduler.request r).numTokens

variable {s : Scheduler H} {l l' : StepState H}

omit [DecidableEq H] in
theorem specTokenIds_update (table : RequestId → Request H) (request : Request H)
    (h : request.specTokenIds = []) (r r' : RequestId) :
    (Function.update table r request r').specTokenIds = (table r').specTokenIds ∨
      (Function.update table r request r').specTokenIds = [] := by
  by_cases hr : r' = r
  · subst hr
    exact Or.inr (by rw [Function.update_self, h])
  · exact Or.inl (by rw [Function.update_of_ne hr])

omit [DecidableEq H] in
theorem disableSpeculation_specTokenIds (s : Scheduler H) (r r' : RequestId) :
    ((disableSpeculation s r).request r').specTokenIds = (s.request r').specTokenIds ∨
      ((disableSpeculation s r).request r').specTokenIds = [] := by
  rcases disableSpeculation_eq s r with heq | heq
  · exact Or.inl (by rw [heq])
  · rw [heq]
    exact specTokenIds_update s.request ((s.request r).withSpecTokenIds []) rfl r r'

omit [DecidableEq H] in
/-- A step that commits nothing and preempts nothing may drop drafts. -/
theorem Pace.quiet (hp : Pace s l)
    (hreworks : ∀ r, (l.scheduler.request r).Reworks (l'.scheduler.request r))
    (hcomputed : ∀ r, (l'.scheduler.request r).numComputedTokens =
      (l.scheduler.request r).numComputedTokens)
    (hdrafts : ∀ r, (l'.scheduler.request r).specTokenIds = (l.scheduler.request r).specTokenIds ∨
      (l'.scheduler.request r).specTokenIds = [])
    (hqueued : ∀ r ∈ l'.scheduler.queued, r ∈ l.scheduler.queued)
    (hrunning : l'.scheduler.running = l.scheduler.running) (hbatch : l'.batch = l.batch)
    (hscheduled : l'.numScheduledTokens = l.numScheduledTokens)
    (hspec : l'.scheduledSpecDecodeTokens = l.scheduledSpecDecodeTokens)
    (hallocating : ∀ r n, l'.phase = .allocating r n → n +
      (l'.scheduler.request r).numComputedTokens ≤ (l'.scheduler.request r).numTokensWithSpec)
    (hadmitting : ∀ r hits numLocal numExternal n inputs,
      l'.phase = .admitting r hits numLocal numExternal n inputs →
        n + (numLocal + numExternal) ≤ (l'.scheduler.request r).numTokens) : Pace s l' where
  reworks r := (hp.reworks r).trans (hreworks r)
  drafts r := by
    rcases hdrafts r with heq | heq
    · rw [heq]
      exact hp.drafts r
    · exact Or.inr heq
  queued r hr := by
    rcases hdrafts r with heq | heq
    · rw [heq]
      exact hp.queued r (hqueued r hr)
    · exact heq
  steady r hr hnot := by
    rw [hrunning] at hr
    rw [hbatch] at hnot
    obtain ⟨hbehind, hone⟩ := hp.steady r hr hnot
    rw [← (hreworks r).numTokens_eq, ← hcomputed r] at hbehind hone
    refine ⟨hbehind, fun hsome => hone fun hnone => ?_⟩
    rcases hdrafts r with heq | heq
    · exact hsome (heq.trans hnone)
    · exact hsome heq
  cleared r hr := by
    rw [hbatch] at hr
    rcases hdrafts r with heq | heq
    · rw [heq]
      exact hp.cleared r hr
    · exact heq
  behind r hr := by
    rw [hbatch] at hr
    rw [hcomputed, (hreworks r).numTokens_eq]
    exact hp.behind r hr
  sent r n hfind := by
    rw [hscheduled] at hfind
    rw [hspec, hcomputed, (hreworks r).numTokens_eq]
    exact hp.sent r n hfind
  allocating := hallocating
  admitting := hadmitting

omit [DecidableEq H] in
theorem sent_commit {r : RequestId} {n : ℕ} {blocks : List (List BlockId)}
    {kv : KVCacheManager H} (hp : Pace s l) (hphase : l.phase = .allocating r n)
    (hunsent : l.scheduledSpecDecodeTokens.findD r [] = []) :
    (l.commitRunning r n blocks kv).scheduledSpecDecodeTokens.findD r [] =
        (s.request r).specTokenIds.take
          (n + (l.scheduler.request r).numComputedTokens - (l.scheduler.request r).numTokens) ∧
      ((l.commitRunning r n blocks kv).scheduledSpecDecodeTokens.findD r []).length =
        n + (l.scheduler.request r).numComputedTokens - (l.scheduler.request r).numTokens := by
  have hfits := hp.allocating r n hphase
  rw [Request.numTokensWithSpec] at hfits
  change Dict.findD (if (l.scheduler.request r).specTokenIds ≠ [] ∧ 0 < n +
      (l.scheduler.request r).numComputedTokens - (l.scheduler.request r).numTokens then
    l.scheduledSpecDecodeTokens.store r ((l.scheduler.request r).specTokenIds.take (n +
      (l.scheduler.request r).numComputedTokens - (l.scheduler.request r).numTokens))
    else l.scheduledSpecDecodeTokens) r [] = _ ∧ (Dict.findD (if _ then _ else _) r []).length = _
  split
  · rename_i hsome
    rw [Dict.findD_store, if_pos rfl]
    refine ⟨?_, ?_⟩
    · rw [(hp.drafts r).resolve_right hsome.1]
    · rw [List.length_take]
      omega
  · rename_i hnone
    rw [hunsent]
    -- without drafts nothing beyond the tokens was asked for
    have hzero : n + (l.scheduler.request r).numComputedTokens -
        (l.scheduler.request r).numTokens = 0 := by
      by_contra hpos
      have hempty : (l.scheduler.request r).specTokenIds = [] := by
        by_contra hsome
        exact hnone ⟨hsome, Nat.pos_of_ne_zero hpos⟩
      rw [hempty, List.length_nil] at hfits
      omega
    rw [hzero]
    exact ⟨rfl, rfl⟩

theorem pace_commit {r : RequestId} {n : ℕ} {blocks : List (List BlockId)}
    {kv : KVCacheManager H} (hb : Batch l) (hp : Pace s l) (hphase : l.phase = .allocating r n) :
    Pace s (l.commitRunning r n blocks kv) := by
  have hover : l.phase.overRunning = true := by rw [hphase]; rfl
  obtain ⟨hn, hnot, htake, -⟩ := hb.allocating r n hphase
  obtain ⟨hnew, hresumed, -⟩ := hb.first hover
  have hr : r ∈ l.scheduler.running := List.mem_of_mem_take htake
  have hfresh : r ∉ l.batch := by rwa [hb.batch_eq hover]
  obtain ⟨hbehind, hone⟩ := hp.steady r hr hfresh
  have hfits := hp.allocating r n hphase
  have hsched := commitRunning_request l r n blocks kv
  have hmem : ∀ r', r' ∈ (l.commitRunning r n blocks kv).batch ↔ r' = r ∨ r' ∈ l.batch := by
    intro r'
    rw [hb.batch_eq hover]
    simp [batch, commitRunning, hnew, hresumed, or_comm]
  have hreq : (l.commitRunning r n blocks kv).scheduler.request = Function.update
      l.scheduler.request r ((l.scheduler.request r).withSpecTokenIds []) := by
    rw [hsched]
  have hself : (l.commitRunning r n blocks kv).scheduler.request r =
      (l.scheduler.request r).withSpecTokenIds [] := by
    rw [hreq, Function.update_self]
  have hother : ∀ r', r' ≠ r →
      (l.commitRunning r n blocks kv).scheduler.request r' = l.scheduler.request r' := by
    intro r' hne
    rw [hreq, Function.update_of_ne hne]
  -- the request is in no entry of the drafts sent
  have hunsent : l.scheduledSpecDecodeTokens.findD r [] = [] := by
    refine Dict.findD_of_not_mem (fun hkey => ?_) []
    rcases hb.spec r hkey with hin | hgone
    · exact hfresh hin
    · exact hb.partition.not_running_of_waiting (hb.preempted r hgone) hr
  refine ⟨fun r' => ?_, fun r' => ?_, fun r' hr' => ?_, fun r' hr' hout => ?_, fun r' hr' => ?_,
    fun r' hr' => ?_, fun r' n' hfind => ?_, fun _ _ hnext => (by cases hnext),
    fun _ _ _ _ _ _ hnext => (by cases hnext)⟩
  · rw [hreq]
    exact (hp.reworks r').trans (Request.Reworks.update ⟨rfl⟩ r')
  · rw [hreq]
    rcases specTokenIds_update l.scheduler.request
      ((l.scheduler.request r).withSpecTokenIds []) rfl r r' with heq | heq
    · rw [heq]
      exact hp.drafts r'
    · exact Or.inr heq
  · rw [hsched] at hr'
    rw [hother r' fun heq => hb.partition.not_running_of_waiting (heq ▸ hr') hr]
    exact hp.queued r' hr'
  · rw [hmem, not_or] at hout
    rw [hsched] at hr'
    rw [hother r' hout.1]
    exact hp.steady r' hr' hout.2
  · by_cases heq : r' = r
    · rw [heq, hself]
      rfl
    · rw [hother r' heq]
      exact hp.cleared r' (((hmem r').mp hr').resolve_left heq)
  · by_cases heq : r' = r
    · rw [heq, hself]
      exact hbehind
    · rw [hother r' heq]
      exact hp.behind r' (((hmem r').mp hr').resolve_left heq)
  · change (l.numScheduledTokens.store r n).find r' = some n' at hfind
    rw [Dict.find_store] at hfind
    by_cases heq : r' = r
    · subst heq
      rw [if_pos rfl] at hfind
      obtain rfl := Option.some.inj hfind
      rw [hself]
      exact sent_commit hp hphase hunsent
    · rw [if_neg heq] at hfind
      rw [hother r' heq]
      have hsame : (l.commitRunning r n blocks kv).scheduledSpecDecodeTokens.findD r' [] =
          l.scheduledSpecDecodeTokens.findD r' [] := by
        change Dict.findD (if _ then l.scheduledSpecDecodeTokens.store r _ else
          l.scheduledSpecDecodeTokens) r' [] = _
        split
        · rw [Dict.findD_store, if_neg heq]
        · rfl
      rw [hsame]
      exact hp.sent r' n' hfind

theorem pace_preempt {r victim : RequestId} {n : ℕ} {kv : KVCacheManager H}
    {inBatch : List RequestId} {blocks : Dict RequestId (List (List BlockId))}
    {scheduled : Dict RequestId ℕ} {inputs : Dict RequestId (List ℕ)}
    {cache : EncoderCacheManager} {encoderBudget tokenBudget reqIndex : ℕ} {loras : List ℕ}
    (hb : Batch l) (hp : Pace s l) (hphase : l.phase = .allocating r n)
    (hdrops : Drops l victim inBatch blocks scheduled reqIndex) :
    Pace s { l with
      scheduler := { l.scheduler with
        kvCacheManager := kv
        request := Function.update l.scheduler.request victim
          (l.scheduler.request victim).preempted
        running := l.scheduler.running.erase victim
        waiting := l.scheduler.waiting.prependRequest
          (Function.update l.scheduler.request victim (l.scheduler.request victim).preempted)
          victim
        numPreemptionsTotal := l.scheduler.numPreemptionsTotal + 1
        encoderCacheManager := cache }
      scheduledRunningReqs := inBatch
      preemptedReqs := l.preemptedReqs ++ [victim]
      reqToNewBlocks := blocks
      numScheduledTokens := scheduled
      scheduledEncoderInputs := inputs
      encoderBudget := encoderBudget
      tokenBudget := tokenBudget
      reqIndex := reqIndex
      scheduledLoras := loras
      phase := if victim = r then .finished else .allocating r n } := by
  have hover : l.phase.overRunning = true := by rw [hphase]; rfl
  obtain ⟨hnew, hresumed, -⟩ := hb.first hover
  have hother : ∀ r', r' ≠ victim → Function.update l.scheduler.request victim
      (l.scheduler.request victim).preempted r' = l.scheduler.request r' :=
    fun r' hne => Function.update_of_ne hne ..
  have hmem : ∀ r', r' ∈ inBatch ++ (l.scheduledNewReqs ++ l.scheduledResumedReqs) ↔
      r' ≠ victim ∧ r' ∈ l.batch := by
    intro r'
    rw [hnew, hresumed, List.append_nil, List.append_nil, hb.batch_eq hover]
    exact hdrops.mem r'
  refine ⟨fun r' => (hp.reworks r').trans (Request.Reworks.update ⟨rfl⟩ r'), fun r' => ?_,
    fun r' hr' => ?_, fun r' hr' hout => ?_, fun r' hr' => ?_, fun r' hr' => ?_,
    fun r' n' hfind => ?_, fun r' n' hnext => ?_, fun _ _ _ _ _ _ hnext => ?_⟩
  · rcases specTokenIds_update l.scheduler.request
      (l.scheduler.request victim).preempted rfl victim r' with heq | heq
    · exact (hp.drafts r').imp_left heq.trans |>.imp_right heq.trans
    · exact Or.inr heq
  · show (Function.update l.scheduler.request victim _ r').specTokenIds = []
    by_cases heq : r' = victim
    · rw [heq, Function.update_self]
      rfl
    · rw [hother r' heq]
      refine hp.queued r' ?_
      have hitems := RequestQueue.prependRequest_perm
        (Function.update l.scheduler.request victim (l.scheduler.request victim).preempted)
        l.scheduler.waiting victim
      rcases List.mem_append.mp hr' with hwait | hskip
      · exact List.mem_append_left _
          ((List.mem_cons.mp (hitems.mem_iff.mp hwait)).resolve_left heq)
      · exact List.mem_append_right _ hskip
  · show (Function.update l.scheduler.request victim _ r').Steady
    have hne : r' ≠ victim := fun heq =>
      hb.partition.running_nodup.not_mem_erase (heq ▸ hr')
    rw [hother r' hne]
    exact hp.steady r' (List.mem_of_mem_erase hr') fun hin => hout ((hmem r').mpr ⟨hne, hin⟩)
  · show (Function.update l.scheduler.request victim _ r').specTokenIds = []
    obtain ⟨hne, hin⟩ := (hmem r').mp hr'
    rw [hother r' hne]
    exact hp.cleared r' hin
  · show (Function.update l.scheduler.request victim _ r').numComputedTokens <
      (Function.update l.scheduler.request victim _ r').numTokens
    obtain ⟨hne, hin⟩ := (hmem r').mp hr'
    rw [hother r' hne]
    exact hp.behind r' hin
  · -- the victim has no tokens any more
    have hne : r' ≠ victim := by
      have hkey := (Dict.mem_keys_iff ..).mpr ⟨n', hfind⟩
      exact ((hdrops.keys r').mp hkey).1
    dsimp only at hfind ⊢
    rw [hdrops.find r' hne] at hfind
    rw [hother r' hne]
    exact hp.sent r' n' hfind
  · dsimp only at hnext ⊢
    split at hnext
    · cases hnext
    · rename_i hne
      obtain ⟨rfl, rfl⟩ := Phase.allocating.inj hnext
      rw [hother _ (Ne.symm hne)]
      exact hp.allocating _ _ hphase
  · dsimp only at hnext
    split at hnext <;> cases hnext

theorem pace_accept {r : RequestId} {hits : List (List BlockId)}
    {numLocal numExternal n : ℕ} {inputs : List ℕ} {kv : KVCacheManager H} {waiting : RequestQueue}
    {blocks : Dict RequestId (List (List BlockId))} {encoderInputs : Dict RequestId (List ℕ)}
    {newReqs resumedReqs pending : List RequestId} {tokenBudget : ℕ}
    {connector : Option (SimSharedStoreConnector H)} {loras : List ℕ} (hb : Batch l)
    (hp : Pace s l) (hphase : l.phase = .admitting r hits numLocal numExternal n inputs)
    (hpop : l.scheduler.waiting.popRequest = .ok (r, waiting))
    (hmem : ∀ r', r' ∈ newReqs ++ resumedReqs ↔
      r' = r ∨ r' ∈ l.scheduledNewReqs ++ l.scheduledResumedReqs) :
    Pace s { l with
      scheduler := { l.scheduler with
        kvCacheManager := kv
        request := Function.update l.scheduler.request r
          ((l.scheduler.request r).admitted (numLocal + numExternal) numLocal)
        running := l.scheduler.running ++ [r]
        waiting := waiting
        pendingScheduled := pending
        connector := connector }
      scheduledNewReqs := newReqs
      scheduledResumedReqs := resumedReqs
      reqToNewBlocks := blocks
      numScheduledTokens := l.numScheduledTokens.store r n
      scheduledEncoderInputs := encoderInputs
      tokenBudget := tokenBudget
      scheduledLoras := loras
      phase := .admission } := by
  have hnone := hb.second (by rw [hphase]; rfl)
  obtain ⟨hn, hhead, -⟩ := hb.admitting _ _ _ _ _ _ hphase
  have hfits := hp.admitting _ _ _ _ _ _ hphase
  have hitems := RequestQueue.popRequest_eq_ok hpop
  have hqueued : r ∈ l.scheduler.queued := by
    rw [Scheduler.queued, hitems]
    exact List.mem_append_left _ List.mem_cons_self
  have hfresh : r ∉ l.batch := fun hin =>
    hb.partition.not_running_of_waiting hqueued (hb.running r hin)
  have hself : Function.update l.scheduler.request r
      ((l.scheduler.request r).admitted (numLocal + numExternal) numLocal) r =
      (l.scheduler.request r).admitted (numLocal + numExternal) numLocal := Function.update_self ..
  have hother : ∀ r', r' ≠ r → Function.update l.scheduler.request r
      ((l.scheduler.request r).admitted (numLocal + numExternal) numLocal) r' =
      l.scheduler.request r' := fun r' hne => Function.update_of_ne hne ..
  have hbatch : ∀ r', r' ∈ l.scheduledRunningReqs ++ (newReqs ++ resumedReqs) ↔
      r' = r ∨ r' ∈ l.batch := by
    intro r'
    rw [List.mem_append, hmem, batch, List.mem_append (s := l.scheduledRunningReqs)]
    tauto
  refine ⟨fun r' => (hp.reworks r').trans (Request.Reworks.update ⟨rfl⟩ r'), fun r' => ?_,
    fun r' hr' => ?_, fun r' hr' hout => ?_, fun r' hr' => ?_, fun r' hr' => ?_,
    fun r' n' hfind => ?_, fun _ _ hnext => (by cases hnext),
    fun _ _ _ _ _ _ hnext => (by cases hnext)⟩
  · show (Function.update l.scheduler.request r _ r').specTokenIds = _ ∨
      (Function.update l.scheduler.request r _ r').specTokenIds = []
    by_cases heq : r' = r
    · rw [heq, hself]
      exact hp.drafts r
    · rw [hother r' heq]
      exact hp.drafts r'
  · show (Function.update l.scheduler.request r _ r').specTokenIds = []
    have hwas : r' ∈ l.scheduler.queued := by
      rw [Scheduler.queued, hitems]
      exact List.mem_cons_of_mem _ hr'
    by_cases heq : r' = r
    · rw [heq, hself]
      exact hp.queued r hqueued
    · rw [hother r' heq]
      exact hp.queued r' hwas
  · show (Function.update l.scheduler.request r _ r').Steady
    have hnot := not_or.mp fun hin => hout ((hbatch r').mpr hin)
    rw [hother r' hnot.1]
    refine hp.steady r' ((List.mem_append.mp hr').resolve_right fun hlast => ?_) hnot.2
    exact hnot.1 (List.mem_singleton.mp hlast)
  · show (Function.update l.scheduler.request r _ r').specTokenIds = []
    rcases (hbatch r').mp hr' with heq | hin
    · rw [heq, hself]
      exact hp.queued r hqueued
    · rw [hother r' fun heq => hfresh (heq ▸ hin)]
      exact hp.cleared r' hin
  · show (Function.update l.scheduler.request r _ r').numComputedTokens <
      (Function.update l.scheduler.request r _ r').numTokens
    rcases (hbatch r').mp hr' with heq | hin
    · rw [heq, hself]
      show numLocal + numExternal < (l.scheduler.request r).numTokens
      omega
    · rw [hother r' fun heq => hfresh (heq ▸ hin)]
      exact hp.behind r' hin
  · dsimp only at hfind ⊢
    rw [Dict.find_store] at hfind
    by_cases heq : r' = r
    · subst heq
      rw [if_pos rfl] at hfind
      obtain rfl := Option.some.inj hfind
      rw [hself]
      have hunsent : l.scheduledSpecDecodeTokens.findD r' [] = [] := by
        refine Dict.findD_of_not_mem (fun hkey => ?_) []
        rcases hb.spec r' hkey with hin | hgone
        · exact hfresh hin
        · rw [hnone] at hgone
          cases hgone
      -- it is admitted with known tokens only, so no draft is sent
      have hzero : n + ((l.scheduler.request r').admitted (numLocal + numExternal)
          numLocal).numComputedTokens - ((l.scheduler.request r').admitted
            (numLocal + numExternal) numLocal).numTokens = 0 := by
        show n + (numLocal + numExternal) - (l.scheduler.request r').numTokens = 0
        omega
      rw [hunsent, hzero]
      exact ⟨rfl, rfl⟩
    · rw [if_neg heq] at hfind
      rw [hother r' heq]
      exact hp.sent r' n' hfind

/-- Every step of the loops keeps the pace. -/
theorem Outcome.pace (h : Outcome l l') (hb : Batch l) (hp : Pace s l) : Pace s l' := by
  have hreworks := h.reworks
  cases h with
  | rest hfinished => exact hp
  | enter hrunning =>
      refine hp.quiet hreworks (fun _ => rfl) (fun _ => Or.inl rfl) (fun _ hr => hr) rfl rfl rfl rfl
        (fun r n hnext => ?_) (fun r hits a b n inputs hnext => ?_)
      all_goals
        dsimp only at hnext
        split at hnext <;> cases hnext
  | @pass r cache budget hrunning hr =>
      rw [disableSpeculation_frame] at hreworks ⊢
      refine hp.quiet hreworks (disableSpeculation_numComputedTokens l.scheduler r)
        (disableSpeculation_specTokenIds l.scheduler r) (fun _ hr => hr) rfl rfl rfl rfl
        (fun r' n hnext => ?_) (fun r' hits a b n inputs hnext => ?_)
      all_goals
        dsimp only at hnext
        rw [hrunning] at hnext
        cases hnext
  | @takeUp r n inputs cache budget hrunning hr hn hbudget hspec hlen =>
      rw [disableSpeculation_frame] at hreworks ⊢
      refine hp.quiet hreworks (disableSpeculation_numComputedTokens l.scheduler r)
        (disableSpeculation_specTokenIds l.scheduler r) (fun _ hr => hr) rfl rfl rfl rfl
        (fun r' n' hnext => ?_) nofun
      obtain ⟨rfl, rfl⟩ := Phase.allocating.inj hnext
      show n + ((disableSpeculation l.scheduler r).request r).numComputedTokens ≤ _
      rw [disableSpeculation_numComputedTokens]
      exact hspec
  | commit hallocating hok => exact pace_commit hb hp hallocating
  | @preempt r victim n kv inBatch blocks scheduled inputs cache encoderBudget tokenBudget reqIndex
      loras hallocating hok hvictim hstatus hfree hbatch hinputs =>
      rw [dropVictim_eq hb.partition.running_nodup hvictim]
      exact pace_preempt hb hp hallocating (hb.drops hallocating hvictim hbatch)
  | close hadmission hs =>
      rcases hs with rfl | ⟨r, hs⟩
      · exact hp.quiet hreworks (fun _ => rfl) (fun _ => Or.inl rfl) (fun _ hr => hr) rfl rfl rfl
          rfl nofun nofun
      · exact hp.quiet hreworks (fun r' => (hs.counts r').1) (fun r' => Or.inl (hs.counts r').2)
          (fun r' hr' => hs.queued_eq ▸ hr') hs.running_eq rfl rfl rfl nofun nofun
  | @setAside s' r kv waiting budget hadmission hs hfree hpop =>
      obtain ⟨hperm, -⟩ := setAside_partition (hs.partition hb.partition) hfree hpop
      exact hp.quiet hreworks (fun r' => (hs.counts r').1) (fun r' => Or.inl (hs.counts r').2)
        (fun r' hr' => hs.queued_eq ▸ hperm.mem_iff.mpr hr') hs.running_eq rfl rfl rfl nofun nofun
  | @lookUp s' r hits numLocal numExternal n inputs budget hadmission hs hpreempted hhits hexternal
      hrunning hn hbudget hlen =>
      refine hp.quiet hreworks (fun r' => (hs.counts r').1) (fun r' => Or.inl (hs.counts r').2)
        (fun r' hr' => hs.queued_eq ▸ hr') hs.running_eq rfl rfl rfl nofun ?_
      intro r' hits' a b n' inputs' hnext
      obtain ⟨rfl, -, rfl, rfl, rfl, -⟩ := Phase.admitting.inj hnext
      exact hlen
  | decline hadmitting hok =>
      exact hp.quiet hreworks (fun _ => rfl) (fun _ => Or.inl rfl) (fun _ hr => hr) rfl rfl rfl rfl
        nofun nofun
  | @accept r r' hits blocks numLocal numExternal n inputs kv waiting connector loras hadmitting hok
      hpop hstatus hconnector =>
      obtain rfl := RequestQueue.head_of_pop (hb.admitting _ _ _ _ _ _ hadmitting).2.1 hpop
      refine pace_accept hb hp hadmitting hpop fun r₁ => ?_
      split
      · simp only [List.mem_append, List.mem_singleton]
        tauto
      · simp only [List.mem_append, List.mem_singleton]
        tauto

/-- The pace is kept at every point of a call. -/
theorem Loops.pace (hpart : s.Partitioned) (hstart : Pace s (start s))
    (hloops : Loops (start s) l) : Pace s l :=
  (hloops.invariant (P := fun l => Batch l ∧ Pace s l) ⟨batch_start hpart, hstart⟩
    fun _ _ hstep h => ⟨hstep.batch h.1, hstep.pace h.1 h.2⟩).2

end StepState

/-! ### Folding a result in -/

namespace Folds

variable {request request' : Request H} {kept : List TokenId} {stopped : Bool}

omit [DecidableEq H]

theorem outputTokenIds_eq (h : Folds request request' kept stopped) :
    request'.outputTokenIds = request.outputTokenIds ++ kept := by
  rw [h.eq, Request.appendAll_frame]
  rfl

theorem promptTokenIds_eq (h : Folds request request' kept stopped) :
    request'.promptTokenIds = request.promptTokenIds := by
  rw [h.eq, Request.appendAll_frame]
  rfl

theorem numComputedTokens_eq (h : Folds request request' kept stopped) :
    request'.numComputedTokens = request.numComputedTokens := by
  rw [h.eq, Request.appendAll_frame]
  rfl

theorem specTokenIds_eq (h : Folds request request' kept stopped) :
    request'.specTokenIds = request.specTokenIds := by
  rw [h.eq, Request.appendAll_frame]
  rfl

theorem usePooling_eq (h : Folds request request' kept stopped) :
    request'.usePooling = request.usePooling := by
  rw [h.eq, Request.appendAll_frame]
  rfl

theorem numTokens_eq (h : Folds request request' kept stopped) :
    request'.numTokens = request.numTokens + kept.length := by
  rw [Request.numTokens, Request.allTokenIds, h.promptTokenIds_eq, h.outputTokenIds_eq,
    ← List.append_assoc, List.length_append]
  rfl

end Folds

omit [DecidableEq H] in
/-- Where a request stands once its result is in, and before it gets new drafts. -/
structure Request.Landed (request : Request H) (modelRunnerOutput : ModelRunnerOutput)
    (r : RequestId) : Prop where
  behind : request.numComputedTokens < request.numTokens
  cleared : request.specTokenIds = []
  sampled : generatedFor modelRunnerOutput r ≠ [] →
    request.numComputedTokens + 1 = request.numTokens
  proposed : proposedFor modelRunnerOutput r ≠ [] →
    request.numComputedTokens + 1 = request.numTokens

omit [DecidableEq H] in
/-- Once the prompt is in, a pooling request stops, and another one samples. -/
theorem AnswersFor.generates {request : Request H} {modelRunnerOutput : ModelRunnerOutput}
    {r : RequestId} {numDrafts : ℕ} (h : AnswersFor modelRunnerOutput r request numDrafts)
    (hpooling : request.usePooling = true → request.outputTokenIds = [])
    (hpooled : request.usePooling = true → pooledFor modelRunnerOutput r = none)
    (hall : request.numTokens ≤ request.numComputedTokens) :
    request.usePooling = false ∧ generatedFor modelRunnerOutput r ≠ [] ∧
      (generatedFor modelRunnerOutput r).length ≤ numDrafts + 1 := by
  have hsampling : request.usePooling = false := by
    by_contra hyes
    rw [Bool.not_eq_false] at hyes
    have hwaits := (h.pooling hyes).2.2.mp (hpooled hyes)
    have hprompt : request.numTokens = request.numPromptTokens := by
      rw [Request.numTokens, Request.allTokenIds, hpooling hyes, List.append_nil]
      rfl
    omega
  exact ⟨hsampling, h.sampled hall hsampling⟩

omit [DecidableEq H] in
/-- The roll-back takes off what the sampled tokens do not cover. -/
theorem Request.Flying.landed {request request' : Request H} {kept : List TokenId}
    {schedulerOutput : SchedulerOutput} {modelRunnerOutput : ModelRunnerOutput} {r : RequestId}
    (h : request.Flying (schedulerOutput.scheduledSpecDecodeTokens.findD r []).length)
    (hanswers : AnswersFor modelRunnerOutput r request
      (schedulerOutput.scheduledSpecDecodeTokens.findD r []).length)
    (hpooling : request.usePooling = true → request.outputTokenIds = [])
    (hfolds : Folds (rolledBack request schedulerOutput modelRunnerOutput r) request' kept false)
    (hkept : kept = if request.usePooling then [] else generatedFor modelRunnerOutput r)
    (hpooled : request.usePooling = true → pooledFor modelRunnerOutput r = none) :
    request'.Landed modelRunnerOutput r := by
  have hahead := h.ahead
  have htokens : request'.numTokens = request.numTokens + kept.length := hfolds.numTokens_eq
  have hcomputed : request'.numComputedTokens = request.numComputedTokens -
      ((schedulerOutput.scheduledSpecDecodeTokens.findD r []).length -
        ((generatedFor modelRunnerOutput r).length - 1)) := hfolds.numComputedTokens_eq
  have hcleared : request'.specTokenIds = [] := hfolds.specTokenIds_eq.trans h.cleared
  by_cases hprefill : request.numComputedTokens < request.numTokens
  · obtain ⟨hnone, hundrafted⟩ := hanswers.prefill hprefill
    refine ⟨by omega, hcleared, fun hsome => absurd hnone hsome,
      fun hsome => absurd hundrafted hsome⟩
  obtain ⟨hsampling, hsome, hmost⟩ :=
    hanswers.generates hpooling hpooled (Nat.not_lt.mp hprefill)
  have hlength := List.length_pos_of_ne_nil hsome
  rw [hsampling, if_neg Bool.false_ne_true] at hkept
  rw [hkept] at htokens
  have hone : request'.numComputedTokens + 1 = request'.numTokens := by omega
  exact ⟨by omega, hcleared, fun _ => hone, fun _ => hone⟩

omit [DecidableEq H] in
/-- With the drafts the runner proposed it is ready for the next step. -/
theorem Request.Landed.drafted {request : Request H} {modelRunnerOutput : ModelRunnerOutput}
    {r : RequestId} (h : request.Landed modelRunnerOutput r) :
    (Scheduler.drafted modelRunnerOutput r request).Steady := by
  have hspec := drafted_specTokenIds modelRunnerOutput r h.cleared
  have hframe : Scheduler.drafted modelRunnerOutput r request = request.withSpecTokenIds
      (Scheduler.drafted modelRunnerOutput r request).specTokenIds := by
    unfold Scheduler.drafted
    split <;> rfl
  rw [hspec] at hframe
  rw [hframe]
  exact ⟨h.behind, h.proposed⟩

/-! ### Over a run of the engine -/

omit [DecidableEq H] in
/-- Pooling requests generate nothing. -/
abbrev Request.PoolsOnly (request : Request H) : Prop :=
  request.usePooling = true → request.outputTokenIds = []

omit [DecidableEq H] in
/-- A new request has generated nothing. -/
theorem Request.init_empty {args : RequestArgs} {request : Request H}
    (h : Request.init args = .ok request) :
    request.outputTokenIds = [] ∧ request.specTokenIds = [] := by
  unfold Request.init at h
  split at h
  · cases h
  split at h
  · cases h
  obtain rfl := Except.ok.inj h
  exact ⟨rfl, rfl⟩

namespace Engine

/-- The counts of a state of the engine. -/
structure Paced (e : Engine H) : Prop where
  settled : e.scheduler.Settled
  queued : ∀ r ∈ e.scheduler.waiting.items, (e.scheduler.request r).specTokenIds = []
  pooling : ∀ r, (e.scheduler.request r).PoolsOnly
  steady : ∀ r ∈ e.scheduler.running, e.scheduledFor r = none → (e.scheduler.request r).Steady
  flying : ∀ r ∈ e.scheduler.running, ∀ n, e.scheduledFor r = some n →
    0 < n ∧ (e.scheduler.request r).Flying (e.draftsFor r).length

/-- A step that leaves the counts of the requests that go on alone. -/
theorem Paced.keep {e e' : Engine H} (h : e.Paced) (hsettled : e'.scheduler.Settled)
    (hinFlight : e'.inFlight = e.inFlight)
    (hrunning : ∀ r ∈ e'.scheduler.running, r ∈ e.scheduler.running)
    (hwaiting : ∀ r ∈ e'.scheduler.waiting.items, r ∈ e.scheduler.waiting.items ∨
      (e'.scheduler.request r).specTokenIds = [])
    (hpooling : ∀ r, (e'.scheduler.request r).PoolsOnly)
    (hcounts : ∀ r, r ∈ e.scheduler.requests →
      (e'.scheduler.request r).numComputedTokens = (e.scheduler.request r).numComputedTokens ∧
        (e'.scheduler.request r).numTokens = (e.scheduler.request r).numTokens ∧
        (e'.scheduler.request r).specTokenIds = (e.scheduler.request r).specTokenIds) :
    e'.Paced where
  settled := hsettled
  queued r hr := by
    rcases hwaiting r hr with hr | hnone
    · have hknown := h.settled.partition.known_of_waiting (h.settled.queued_eq ▸ hr)
      rw [(hcounts r hknown).2.2]
      exact h.queued r hr
    · exact hnone
  pooling := hpooling
  steady r hr hnone := by
    obtain ⟨hcomputed, htokens, hspec⟩ :=
      hcounts r (h.settled.partition.known_of_running (hrunning r hr))
    rw [scheduledFor, hinFlight] at hnone
    obtain ⟨hbehind, hdrafts⟩ := h.steady r (hrunning r hr) hnone
    rw [← hcomputed, ← htokens] at hbehind hdrafts
    rw [← hspec] at hdrafts
    exact ⟨hbehind, hdrafts⟩
  flying r hr n hsome := by
    obtain ⟨hcomputed, htokens, hspec⟩ :=
      hcounts r (h.settled.partition.known_of_running (hrunning r hr))
    rw [scheduledFor, hinFlight] at hsome
    obtain ⟨hn, hahead, hcleared⟩ := h.flying r (hrunning r hr) n hsome
    rw [← hcomputed, ← htokens] at hahead
    rw [draftsFor, hinFlight]
    exact ⟨hn, hahead, hspec.trans hcleared⟩

theorem Paced.finishOne {s s' : Scheduler H} {inFlight : Option SchedulerOutput}
    (h : Paced ⟨s, inFlight⟩) {finishedStatus : RequestStatus} {r : RequestId}
    (hfinished : finishedStatus.isFinished = true) (hok : s.finishOne finishedStatus r = .ok s') :
    Paced ⟨s', inFlight⟩ := by
  have hsettled := h.settled.finishOne hfinished hok
  rcases Scheduler.finishOne_ok hok with ⟨-, rfl⟩ |
    ⟨hknown, running, waiting, kv, connector, cache, hplace, hfree, -, rfl⟩
  · exact h
  have hsame : ∀ r', Function.update s.request r ((s.request r).withStatus finishedStatus) r' =
      (s.request r').withStatus (Function.update s.request r
        ((s.request r).withStatus finishedStatus) r').status := by
    intro r'
    by_cases hr : r' = r
    · subst hr
      rw [Function.update_self]
      rfl
    · rw [Function.update_of_ne hr]
      rfl
  refine h.keep hsettled rfl (fun r' hr' => ?_) (fun r' hr' => Or.inl ?_) (fun r' => ?_)
    fun r' _ => ?_
  · rcases hplace with ⟨-, -, rfl, -⟩ | ⟨-, rfl, -⟩
    · exact List.mem_of_mem_erase hr'
    · exact hr'
  · rcases hplace with ⟨-, -, -, rfl⟩ | ⟨-, -, hremove⟩
    · exact hr'
    · have hnodup := h.settled.partition.waiting_nodup
      rw [h.settled.queued_eq] at hnodup
      have hitems := RequestQueue.removeRequest_eq_ok hnodup hremove
      dsimp only at hr'
      rw [hitems] at hr'
      exact List.mem_of_mem_erase hr'
  · dsimp only
    rw [hsame]
    exact h.pooling r'
  · dsimp only
    rw [hsame]
    exact ⟨rfl, rfl, rfl⟩

theorem Paced.call {s s' : Scheduler H} {inFlight : Option SchedulerOutput} {event : Event}
    (h : Paced ⟨s, inFlight⟩) (hstep : Scheduler.Step s event s')
    (hanytime : event.anytime = true) : Paced ⟨s', inFlight⟩ := by
  have hsettled : s'.Settled := hstep.settled h.settled
  cases hstep with
  | @addRequest args request hrequest hfresh =>
      obtain ⟨hid, -⟩ := Request.init_ok hrequest
      obtain ⟨houtputs, hspec⟩ := Request.init_empty hrequest
      rw [← hid] at hfresh
      rw [Scheduler.addRequest_eq] at hsettled ⊢
      have hstored : (s.stored request).outputTokenIds = [] ∧
          (s.stored request).specTokenIds = [] := by
        rw [Scheduler.stored_frame]
        exact ⟨houtputs, hspec⟩
      have hself : Function.update s.request request.requestId (s.stored request)
          request.requestId = s.stored request := Function.update_self ..
      refine h.keep hsettled rfl (fun _ hr => hr) (fun r hr => ?_) (fun r => ?_) fun r hr => ?_
      · have hitems := (RequestQueue.addRequest_perm (Function.update s.request request.requestId
          (s.stored request)) s.waiting request.requestId).mem_iff.mp hr
        rcases List.mem_cons.mp hitems with heq | hr
        · refine Or.inr ?_
          show (Function.update s.request request.requestId _ r).specTokenIds = []
          rw [heq, hself]
          exact hstored.2
        · exact Or.inl hr
      · show (Function.update s.request request.requestId _ r).PoolsOnly
        by_cases heq : r = request.requestId
        · rw [heq, hself]
          exact fun _ => hstored.1
        · rw [Function.update_of_ne heq]
          exact h.pooling r
      · have hne : r ≠ request.requestId := fun heq => hfresh (heq ▸ hr)
        dsimp only
        rw [Function.update_of_ne hne]
        exact ⟨rfl, rfl, rfl⟩
  | finishRequests hok =>
      obtain ⟨hfinished, hall⟩ := Scheduler.finishRequests_ok hok
      exact Scheduler.finishAll_invariant (P := fun s => Paced ⟨s, inFlight⟩) hall h
        fun _ _ _ _ hone hs => hs.finishOne hfinished hone
  | schedule hok => cases hanytime
  | updateFromOutput hok => cases hanytime
  | resetPrefixCache =>
      exact h.keep hsettled rfl (fun _ hr => hr) (fun _ hr => Or.inl hr) h.pooling
        fun _ _ => ⟨rfl, rfl, rfl⟩
  | @grammar r result hcompiling =>
      refine h.keep hsettled rfl (fun _ hr => hr) (fun _ hr => Or.inl hr) (fun r' => ?_)
        fun r' _ => ?_
      · show (Function.update s.request r _ r').PoolsOnly
        rw [Request.update_grammar]
        exact h.pooling r'
      · show (Function.update s.request r _ r').numComputedTokens = _ ∧
          (Function.update s.request r _ r').numTokens = _ ∧
          (Function.update s.request r _ r').specTokenIds = _
        rw [Request.update_grammar]
        exact ⟨rfl, rfl, rfl⟩
  | sharedStore hconnector =>
      exact h.keep hsettled rfl (fun _ hr => hr) (fun _ hr => Or.inl hr) h.pooling
        fun _ _ => ⟨rfl, rfl, rfl⟩

/-- A call begins in pace. -/
theorem Paced.start {s : Scheduler H} (h : Paced ⟨s, none⟩) :
    StepState.Pace s (StepState.start s) where
  reworks _ := .refl _
  drafts _ := Or.inl rfl
  queued r hr := h.queued r (h.settled.queued_eq ▸ hr)
  steady r hr _ := h.steady r hr rfl
  cleared := nofun
  behind := nofun
  sent _ _ hfind := by cases hfind
  allocating := nofun
  admitting := nofun

theorem Paced.schedule {s s' : Scheduler H} {output : SchedulerOutput} (h : Paced ⟨s, none⟩)
    (hok : s.schedule = .ok (output, s')) : Paced ⟨s', some output⟩ := by
  have hsettled := h.settled.schedule hok
  obtain ⟨l, hloops, -, hfinishes⟩ := Scheduler.schedule_ok hok
  have hb := hloops.batch h.settled.partition
  have hp := hloops.pace h.settled.partition h.start
  have hrequest : s'.request =
      StepState.advancedTable l.scheduler.request l.numScheduledTokens.items := by
    rw [hfinishes.state]
  have hrunning : s'.running = l.scheduler.running := by
    rw [hfinishes.state, StepState.restoreSkippedWaiting_frame]
  have hscheduled : ∀ r, scheduledFor ⟨s', some output⟩ r = l.numScheduledTokens.find r := by
    intro r
    rw [← hfinishes.scheduled]
    rfl
  -- a request outside the batch is as the loops left it
  have houtside : ∀ r, l.numScheduledTokens.find r = none →
      s'.request r = l.scheduler.request r ∧ r ∉ l.batch := by
    intro r hnone
    have hkey := (Dict.find_eq_none_iff ..).mp hnone
    rw [hrequest, Scheduler.advancedTable_of_not_mem hkey]
    exact ⟨rfl, fun hin => hkey ((hb.keys r).mpr hin)⟩
  refine ⟨hsettled, fun r hr => ?_, fun r => ?_, fun r hr hnone => ?_, fun r hr n hsome => ?_⟩
  · have hqueued : r ∈ l.scheduler.queued := by
      rw [hfinishes.state] at hr
      have hitems := (StepState.restoreSkippedWaiting_items l.scheduler).2.mem_iff.mp hr
      exact List.mem_append.mpr (List.mem_append.mp hitems).symm
    have hout : r ∉ l.batch := fun hin =>
      hb.partition.not_running_of_waiting hqueued (hb.running r hin)
    have hnone : l.numScheduledTokens.find r = none :=
      (Dict.find_eq_none_iff ..).mpr fun hkey => hout ((hb.keys r).mp hkey)
    dsimp only
    rw [(houtside r hnone).1]
    exact hp.queued r hqueued
  · have hrework : (s.request r).Reworks (s'.request r) := by
      refine (hp.reworks r).trans ?_
      rw [hrequest, StepState.advancedTable]
      split
      · exact .refl _
      · exact ⟨rfl⟩
    intro hpools
    dsimp only at hpools ⊢
    rw [hrework.usePooling_eq] at hpools
    rw [hrework.outputTokenIds_eq]
    exact h.pooling r hpools
  · rw [hscheduled] at hnone
    obtain ⟨hsame, hout⟩ := houtside r hnone
    dsimp only at hr ⊢
    rw [hsame]
    exact hp.steady r (hrunning ▸ hr) hout
  · rw [hscheduled] at hsome
    have hin : r ∈ l.batch := (hb.keys r).mp ((Dict.mem_keys_iff ..).mpr ⟨n, hsome⟩)
    have hadvanced : s'.request r = (l.scheduler.request r).advanced n := by
      rw [hrequest, StepState.advancedTable]
      rw [Dict.find] at hsome
      rw [hsome]
    dsimp only
    rw [hadvanced]
    refine ⟨hb.pos r n hsome, ?_, hp.cleared r hin⟩
    have hlength := (hp.sent r n hsome).2
    rw [← hfinishes.spec, Nat.add_comm] at hlength
    exact hlength.symm

/-- A result generates nothing for a pooling request. -/
theorem UpdateOutcome.pools {schedulerOutput : SchedulerOutput}
    {modelRunnerOutput : ModelRunnerOutput} {u u' : UpdateState H} {r : RequestId}
    (hstep : UpdateState.UpdateOutcome schedulerOutput modelRunnerOutput r u u')
    (h : ∀ r, (u.scheduler.request r).PoolsOnly) (r' : RequestId) :
    (u'.scheduler.request r').PoolsOnly := by
  have hfold : ∀ {request : Request H} {kept : List TokenId} {stopped : Bool},
      Folds (rolledBack (u.scheduler.request r) schedulerOutput modelRunnerOutput r) request kept
        stopped → ((u.scheduler.request r).usePooling = true → kept = []) →
      (Function.update u.scheduler.request r request r').PoolsOnly := by
    intro request kept stopped hfolds hkept
    by_cases heq : r' = r
    · rw [heq, Function.update_self]
      intro hpools
      rw [hfolds.usePooling_eq] at hpools
      rw [hfolds.outputTokenIds_eq, hkept hpools, List.append_nil]
      exact h r hpools
    · rw [Function.update_of_ne heq]
      exact h r'
  cases hstep with
  | skip hscheduled => exact h r'
  | goOn hscheduled hfolds hkept hpooled houtputs =>
      exact hfold hfolds fun hpools => by rw [hkept, if_pos hpools]
  | stop hscheduled hfolds hkept houtput hfree hconnector =>
      refine hfold hfolds fun hpools => ?_
      rw [if_pos hpools] at hkept
      exact List.prefix_nil.mp hkept

theorem updateFromOutput_pools {s s' : Scheduler H} {schedulerOutput : SchedulerOutput}
    {modelRunnerOutput : ModelRunnerOutput} {outputs : Dict ℕ (List EngineCoreOutput)}
    (hok : s.updateFromOutput schedulerOutput modelRunnerOutput = .ok (outputs, s'))
    (h : ∀ r, (s.request r).PoolsOnly) (r : RequestId) : (s'.request r).PoolsOnly := by
  obtain ⟨u, s₁, hall, hshed, -, rfl⟩ := Scheduler.updateFromOutput_ok hok
  obtain ⟨-, hframe⟩ := Scheduler.shedAll_ok (P := fun _ => True) hshed trivial
    fun _ _ _ _ _ _ => trivial
  have hu := UpdateState.updateAll_invariant
    (P := fun u _ => ∀ r, (u.scheduler.request r).PoolsOnly) hall h
    fun _ _ _ _ hstep hs => UpdateOutcome.pools hstep hs
  rw [hframe]
  show (Scheduler.draftedTable ..).PoolsOnly
  rw [Scheduler.draftedTable_frame]
  exact hu r

/-- Where a scheduled request stands that goes on. -/
theorem Paced.landed {s : Scheduler H} {schedulerOutput : SchedulerOutput}
    {modelRunnerOutput : ModelRunnerOutput} {request : Request H} {r : RequestId}
    (h : Paced ⟨s, some schedulerOutput⟩) (hanswers : Answers s schedulerOutput modelRunnerOutput)
    (hr : r ∈ s.running) (hkey : r ∈ schedulerOutput.numScheduledTokens.keys)
    (hgoes : GoesOn schedulerOutput modelRunnerOutput r (s.request r) request) :
    request.Landed modelRunnerOutput r := by
  obtain ⟨n, hfind⟩ := (Dict.mem_keys_iff ..).mp hkey
  obtain ⟨hn, hflying⟩ := h.flying r hr n hfind
  cases hgoes with
  | passed hscheduled =>
      rw [Dict.findD, hfind, Option.getD_some] at hscheduled
      omega
  | folded hscheduled hfolds hkept hpooled =>
      exact hflying.landed (hanswers.scheduled r hr hkey) (h.pooling r) hfolds hkept hpooled

/-- Folding the results back leaves the requests that go on behind their tokens,
by one where they sampled. -/
theorem Paced.updateFromOutput {s s' : Scheduler H} {schedulerOutput : SchedulerOutput}
    {modelRunnerOutput : ModelRunnerOutput} {outputs : Dict ℕ (List EngineCoreOutput)}
    (h : Paced ⟨s, some schedulerOutput⟩) (hanswers : Answers s schedulerOutput modelRunnerOutput)
    (hok : s.updateFromOutput schedulerOutput modelRunnerOutput = .ok (outputs, s')) :
    Paced ⟨s', none⟩ ∧ ∀ r ∈ s'.running, r ∈ schedulerOutput.numScheduledTokens.keys →
      generatedFor modelRunnerOutput r ≠ [] →
        (s'.request r).numComputedTokens + 1 = (s'.request r).numTokens := by
  have hsettled := h.settled.updateFromOutput hok
  have hfollows := Scheduler.updateFromOutput_follows h.settled hok
  refine ⟨⟨hsettled, fun r hr => ?_, updateFromOutput_pools hok h.pooling, fun r hr _ => ?_,
    fun r hr n hsome => ?_⟩, fun r hr hkey hsome => ?_⟩
  · dsimp only at hr ⊢
    rw [← hsettled.queued_eq, hfollows.queued] at hr
    rw [hfollows.waiting r hr]
    exact h.queued r (h.settled.queued_eq ▸ hr)
  · dsimp only at hr ⊢
    obtain ⟨hwas, request, hgoes, heq⟩ := hfollows.running r hr
    rw [heq]
    by_cases hkey : r ∈ schedulerOutput.numScheduledTokens.keys
    · exact (h.landed hanswers hwas hkey hgoes).drafted
    · rw [drafted_of_none (hanswers.others r hkey)]
      cases hgoes with
      | passed hscheduled => exact h.steady r hwas ((Dict.find_eq_none_iff ..).mpr hkey)
      | folded hscheduled hfolds hkept hpooled =>
          exact absurd (Dict.findD_of_not_mem hkey 0) hscheduled
  · cases hsome
  · obtain ⟨hwas, request, hgoes, heq⟩ := hfollows.running r hr
    have hframe : s'.request r = request.withSpecTokenIds (s'.request r).specTokenIds := by
      rw [heq]
      unfold Scheduler.drafted
      split <;> rfl
    rw [hframe]
    exact (h.landed hanswers hwas hkey hgoes).sampled hsome

theorem Step.paced {e e' : Engine H} {event : Event} (hstep : Step e event e') (h : e.Paced) :
    e'.Paced := by
  cases hstep with
  | call hstep hanytime => exact h.call hstep hanytime
  | schedule hok => exact h.schedule hok
  | updateFromOutput hanswers hok => exact (h.updateFromOutput hanswers hok).1

theorem init_paced {config : SchedulerConfig} {kvCacheConfig : KVCacheConfig}
    {enableCaching : Bool} {hashFn : HashInput H → H} {seed : ℕ}
    {connector : Option (SimSharedStoreConnector H)} {s : Scheduler H}
    (h : Scheduler.init config kvCacheConfig enableCaching hashFn seed connector = .ok s) :
    Paced ⟨s, none⟩ := by
  obtain ⟨hsettled, hrequests, -⟩ := Scheduler.init_settled h
  have hnone : ∀ r, r ∉ s.running ++ s.queued := by
    intro r hr
    have hknown := hsettled.partition.perm.mem_iff.mpr hr
    rw [hrequests] at hknown
    cases hknown
  have htable : s.request = Request.vacant := by
    unfold Scheduler.init at h
    split at h
    · cases h
    split at h
    · cases h
    rw [← Except.ok.inj h]
  refine ⟨hsettled, fun r hr => ?_, fun r _ => ?_, fun r hr => ?_, fun r hr => ?_⟩
  · exact absurd (List.mem_append_right _ (hsettled.queued_eq ▸ hr)) (hnone r)
  · dsimp only
    rw [htable]
    rfl
  · exact absurd (List.mem_append_left _ hr) (hnone r)
  · exact absurd (List.mem_append_left _ hr) (hnone r)

theorem run_paced {e e' : Engine H} {events : List Event} (hrun : Run Step e events e')
    (h : e.Paced) : e'.Paced :=
  hrun.invariant (P := fun _ e => e.Paced) h fun _ _ _ _ _ h hstep => hstep.paced h

/-- What the counts of a run that has come to `e` say. -/
structure Progresses (events : List Event) (e : Engine H) : Prop where
  /-- A call finds every running request with something to compute, so that the
  assertion of its first loop does not fail. -/
  shortfall : e.inFlight = none → (∀ r ∈ e.scheduler.running,
      (e.scheduler.request r).numComputedTokens < (e.scheduler.request r).numTokensWithSpec) ∧
    ∀ l r, StepState.Loops (StepState.start e.scheduler) l → l.phase = .running →
      l.scheduler.running[l.reqIndex]? = some r →
        ((StepState.disableSpeculation l.scheduler r).request r).numComputedTokens <
          ((StepState.disableSpeculation l.scheduler r).request r).numTokensWithSpec
  /-- Of the drafts proposed for a request as many are sent as its tokens of the
  step leave room for, from the first on. -/
  sent : e.inFlight = none → ∀ output s', e.scheduler.schedule = .ok (output, s') →
    ∀ r n, output.numScheduledTokens.find r = some n →
      ∃ numComputedTokens, (s'.request r).numComputedTokens = numComputedTokens + n ∧
        numComputedTokens < (s'.request r).numTokens ∧
        output.scheduledSpecDecodeTokens.findD r [] = (e.scheduler.request r).specTokenIds.take
          (n - ((s'.request r).numTokens - numComputedTokens))
  /-- A request that sampled and goes on has one token to compute. -/
  sampled : ∀ before schedulerOutput modelRunnerOutput outputs,
    events = before ++ [.updateFromOutput schedulerOutput modelRunnerOutput outputs] →
      ∀ r ∈ e.scheduler.running, r ∈ schedulerOutput.numScheduledTokens.keys →
        generatedFor modelRunnerOutput r ≠ [] → (e.scheduler.request r).numComputedTokens =
          (e.scheduler.request r).numTokens - 1
  /-- No request is computed up to its last token, if it has a token at all. -/
  behind : e.inFlight = none → ∀ r ∈ e.scheduler.requests,
    r ∈ e.scheduler.running ∨ (e.scheduler.request r).promptTokenIds ≠ [] →
      (e.scheduler.request r).numComputedTokens < (e.scheduler.request r).numTokens

theorem Paced.shortfall {s : Scheduler H} (h : Paced ⟨s, none⟩) {l : StepState H} {r : RequestId}
    (hloops : StepState.Loops (StepState.start s) l) (hphase : l.phase = .running)
    (hr : l.scheduler.running[l.reqIndex]? = some r) :
    ((StepState.disableSpeculation l.scheduler r).request r).numComputedTokens <
      ((StepState.disableSpeculation l.scheduler r).request r).numTokensWithSpec := by
  have hb := hloops.batch h.settled.partition
  have hp := hloops.pace h.settled.partition h.start
  have hover : l.phase.overRunning = true := by rw [hphase]; rfl
  have hout : r ∉ l.batch := by
    rw [hb.batch_eq hover]
    exact hb.at_index hover hr
  have hbehind := (hp.steady r (List.mem_of_getElem? hr) hout).behind
  rw [StepState.disableSpeculation_numComputedTokens, Request.numTokensWithSpec,
    (StepState.disableSpeculation_reworks l.scheduler r r).numTokens_eq]
  omega

theorem Paced.sent {s s' : Scheduler H} {output : SchedulerOutput} (h : Paced ⟨s, none⟩)
    (hok : s.schedule = .ok (output, s')) {r : RequestId} {n : ℕ}
    (hfind : output.numScheduledTokens.find r = some n) :
    ∃ numComputedTokens, (s'.request r).numComputedTokens = numComputedTokens + n ∧
      numComputedTokens < (s'.request r).numTokens ∧
      output.scheduledSpecDecodeTokens.findD r [] = (s.request r).specTokenIds.take
        (n - ((s'.request r).numTokens - numComputedTokens)) := by
  obtain ⟨l, hloops, -, hfinishes⟩ := Scheduler.schedule_ok hok
  have hb := hloops.batch h.settled.partition
  have hp := hloops.pace h.settled.partition h.start
  rw [hfinishes.scheduled] at hfind
  have hin : r ∈ l.batch := (hb.keys r).mp ((Dict.mem_keys_iff ..).mpr ⟨n, hfind⟩)
  have hadvanced : s'.request r = (l.scheduler.request r).advanced n := by
    rw [hfinishes.state]
    dsimp only
    rw [StepState.advancedTable]
    rw [Dict.find] at hfind
    rw [hfind]
  have htokens : (s'.request r).numTokens = (l.scheduler.request r).numTokens := by
    rw [hadvanced]
    rfl
  have hbehind := hp.behind r hin
  refine ⟨(l.scheduler.request r).numComputedTokens, by rw [hadvanced]; rfl, htokens ▸ hbehind, ?_⟩
  rw [hfinishes.spec, (hp.sent r n hfind).1, htokens]
  congr 1
  omega

/-- Over every run of the engine the counts are in order: there is always
something to compute, the drafts sent are those that fit, and the results leave
every request that sampled one token behind. -/
theorem run_progresses {config : SchedulerConfig} {kvCacheConfig : KVCacheConfig}
    {enableCaching : Bool} {hashFn : HashInput H → H} {seed : ℕ}
    {connector : Option (SimSharedStoreConnector H)} {s₀ : Scheduler H} {e : Engine H}
    {events : List Event}
    (hinit : Scheduler.init config kvCacheConfig enableCaching hashFn seed connector = .ok s₀)
    (hrun : Run Step ⟨s₀, none⟩ events e) : Progresses events e := by
  have hpaced := run_paced hrun (init_paced hinit)
  refine ⟨fun hnone => ?_, fun hnone output s' hok r n hfind => ?_,
    fun before schedulerOutput modelRunnerOutput outputs heq r hr hkey hsome => ?_,
    fun hnone r hr htoken => ?_⟩
  · obtain ⟨s, inFlight⟩ := e
    obtain rfl : inFlight = none := hnone
    refine ⟨fun r hr => ?_, fun l r hloops hphase hr => hpaced.shortfall hloops hphase hr⟩
    have hbehind := (hpaced.steady r hr rfl).behind
    rw [Request.numTokensWithSpec]
    omega
  · obtain ⟨s, inFlight⟩ := e
    obtain rfl : inFlight = none := hnone
    exact hpaced.sent hok hfind
  · subst heq
    obtain ⟨e₁, hbefore, hlast⟩ := hrun.split
    have hpaced₁ := run_paced hbefore (init_paced hinit)
    cases hlast.single with
    | call _ hanytime => cases hanytime
    | updateFromOutput hanswers hok =>
        have hone := (hpaced₁.updateFromOutput hanswers hok).2 r hr hkey hsome
        dsimp only at hone ⊢
        omega
  · have hpart := hpaced.settled.partition
    rcases List.mem_append.mp (hpart.perm.mem_iff.mp hr) with hrunning | hqueued
    · refine (hpaced.steady r hrunning ?_).behind
      rw [scheduledFor, hnone]
      rfl
    · have hprompt := htoken.resolve_left (hpart.not_running_of_waiting hqueued)
      rw [(hpaced.settled.partition.queued r hqueued).numComputedTokens, Request.numTokens,
        Request.allTokenIds, List.length_append]
      have hpos := List.length_pos_of_ne_nil hprompt
      omega

def answerOne (r : RequestId) (sampled drafts : List TokenId) : ModelRunnerOutput where
  reqIds := [r]
  reqIdToIndex := Dict.empty.store r 0
  sampledTokenIds := [sampled]
  specTokenIds := some [drafts]
  poolerOutput := none

/-- A request is computed, proposed two drafts, and has the first accepted. -/
def draftRun : Except PyError (Scheduler Digest × Scheduler Digest × Scheduler Digest ×
    Request Digest × SchedulerOutput × SchedulerOutput) := do
  let s₀ ← Scheduler.init (Scheduler.shortConfig .fcfs) (Scheduler.shortKVConfig 8) true Digest.hash
    0 none
  let request ← Request.init (.text 1 [1, 2, 3] 8)
  let (output₁, s₁) ← (s₀.addRequest request).schedule
  let (_, s₂) ← s₁.updateFromOutput output₁ (answerOne 1 [7] [4, 5])
  let (output₂, s₃) ← s₂.schedule
  let (_, s₄) ← s₃.updateFromOutput output₂ (answerOne 1 [4, 8] [6])
  return (s₁, s₃, s₄, request, output₁, output₂)

/-- The counts, on a run in which one draft of two is accepted. -/
theorem run_progresses_draft : ∃ (e : Engine Digest) (events : List Event),
    events.length = 5 ∧ Progresses events e ∧
      (e.scheduler.request 1).outputTokenIds = [7, 4, 8] := by
  obtain ⟨⟨s₁, s₃, s₄, request, output₁, output₂⟩, hrun, hcheck⟩ :=
    exists_of_okAnd (x := draftRun) (p := fun (s₁, s₃, s₄, _, output₁, output₂) =>
      decide (Answers s₁ output₁ (answerOne 1 [7] [4, 5]) ∧
        Answers s₃ output₂ (answerOne 1 [4, 8] [6]) ∧
        (s₄.request 1).outputTokenIds = [7, 4, 8])) (by decide +kernel)
  obtain ⟨hanswers₁, hanswers₂, htokens⟩ := of_decide_eq_true hcheck
  unfold draftRun at hrun
  obtain ⟨s₀, hinit, hrun⟩ := except_bind_iff.mp hrun
  obtain ⟨_, hrequest, hrun⟩ := except_bind_iff.mp hrun
  obtain ⟨⟨_, _⟩, hfirst, hrun⟩ := except_bind_iff.mp hrun
  obtain ⟨⟨_, s₂⟩, hback₁, hrun⟩ := except_bind_iff.mp hrun
  obtain ⟨⟨_, _⟩, hsecond, hrun⟩ := except_bind_iff.mp hrun
  obtain ⟨⟨_, _⟩, hback₂, hrun⟩ := except_bind_iff.mp hrun
  cases hrun
  obtain ⟨-, hnone, -⟩ := Scheduler.init_settled hinit
  have hfresh : (RequestArgs.text 1 [1, 2, 3] 8).requestId ∉ s₀.requests := by
    rw [hnone]
    exact List.not_mem_nil
  have hsteps := ((((Run.nil.snoc (Step.call (.addRequest hrequest hfresh) rfl)).snoc
    (Step.schedule hfirst)).snoc (Step.updateFromOutput hanswers₁ hback₁)).snoc
    (Step.schedule hsecond)).snoc (Step.updateFromOutput hanswers₂ hback₂)
  exact ⟨_, _, rfl, run_progresses hinit hsteps, htokens⟩

end Engine

end Pvllm
