import Pvllm.Core.Sched.Plain
import Pvllm.Core.Sched.Progress
import Pvllm.Core.Sched.Rows

/-!
How many prefills are under way.

The cap on partial prefills is checked at every admission, on the flags of the
running requests. A flag is set when a call is over, so the check does not see
the requests that the same call has let in with a part of their tokens.
`overlooks` is the point of the loops where that matters.
-/

namespace Pvllm

variable {H : Type} [DecidableEq H]

open UpdateState

omit [DecidableEq H] in
/-- A request whose prompt is computed: one token is left, there is room for it, and no
image reaches past it. -/
structure Request.Past (maxModelLen : ℕ) (request : Request H) : Prop where
  last : request.numComputedTokens + 1 = request.numTokens
  room : request.numComputedTokens < maxModelLen
  behind : ∀ feature ∈ request.mmFeatures,
    feature.position + feature.length ≤ request.numComputedTokens

/-- Every running request is flagged, or past its prompt. -/
def Scheduler.Marked (s : Scheduler H) : Prop :=
  ∀ r ∈ s.running, (s.request r).isPrefillChunk = false →
    (s.request r).Past s.config.maxModelLen

/-! ### Through the loops -/

namespace StepState

variable {s : Scheduler H} {l l' : StepState H} {r : RequestId}

section

omit [DecidableEq H]

/-- The step leaves the request short of its known tokens. -/
def Short (l : StepState H) (r : RequestId) : Prop :=
  (l.scheduler.request r).numComputedTokens + l.numScheduledTokens.findD r 0 <
    (l.scheduler.request r).numTokens

instance : Decidable (l.Short r) := Nat.decLt ..

/-- The running requests that are in their prefill: those flagged, and those this call
has let in and leaves short. -/
def partials (l : StepState H) : List RequestId :=
  l.scheduler.running.filter fun r =>
    (l.scheduler.request r).isPrefillChunk || decide (r ∈ l.letIn ∧ l.Short r)

/-- An admission passes the check because a request let in before it, which is left
short, is not flagged yet. -/
def overlooks (l : StepState H) : Bool :=
  match l.phase with
  | .admitting .. =>
    l.letIn.any (fun r => decide (l.Short r) && !(l.scheduler.request r).isPrefillChunk) &&
      decide (l.scheduler.config.maxNumPartialPrefills ≤ l.partials.length)
  | _ => false

end

/-- What the running requests are at a point of a call. -/
structure Prefills (l : StepState H) : Prop where
  visited : l.phase.overRunning = true → l.preemptedReqs = [] →
    ∀ r ∈ l.scheduler.running.take l.reqIndex, l.Short r →
      (l.scheduler.request r).isPrefillChunk = true
  allocating : ∀ r n, l.phase = .allocating r n → l.preemptedReqs = [] →
    l.scheduler.running[l.reqIndex]? = some r
  all : l.phase.overRunning = false → l.phase ≠ .finished ∨ l.letIn ≠ [] →
    l.tokenBudget = 0 ∧ l.letIn = [] ∨ ∀ r ∈ l.scheduler.running, l.Short r →
      (l.scheduler.request r).isPrefillChunk = true ∨ r ∈ l.letIn
  capped : l.letIn ≠ [] → l.partials.length ≤ l.scheduler.config.maxNumPartialPrefills
  admitting : ∀ r hits numLocal numExternal n inputs,
    l.phase = .admitting r hits numLocal numExternal n inputs → 0 < l.tokenBudget ∧
      l.partials.length < l.scheduler.config.maxNumPartialPrefills

/-- A step after which the same requests run, let in and scheduled as before. -/
structure Calm (l l' : StepState H) : Prop where
  running : l'.scheduler.running = l.scheduler.running
  letIn : l'.letIn = l.letIn
  scheduled : l'.numScheduledTokens = l.numScheduledTokens
  config : l'.scheduler.config = l.scheduler.config
  flag : ∀ r, (l'.scheduler.request r).isPrefillChunk = (l.scheduler.request r).isPrefillChunk
  computed : ∀ r, (l'.scheduler.request r).numComputedTokens =
    (l.scheduler.request r).numComputedTokens
  tokens : ∀ r, (l'.scheduler.request r).numTokens = (l.scheduler.request r).numTokens

omit [DecidableEq H] in
theorem Calm.short (h : Calm l l') (r : RequestId) : l'.Short r ↔ l.Short r := by
  unfold Short
  rw [h.computed, h.scheduled, h.tokens]

omit [DecidableEq H] in
theorem Calm.partials (h : Calm l l') : l'.partials = l.partials := by
  unfold StepState.partials
  rw [h.running]
  refine List.filter_congr fun r _ => ?_
  rw [h.flag, h.letIn]
  simp only [h.short r]

omit [DecidableEq H] in
/-- A step of the second loop that lets nobody in. -/
theorem Prefills.calm (h : Prefills l) (hcalm : Calm l l') (hphase : l.phase.overWaiting = true)
    (hphase' : l'.phase.overRunning = false) (hbudget : l'.tokenBudget = l.tokenBudget)
    (hadmitting : ∀ r hits numLocal numExternal n inputs,
      l'.phase = .admitting r hits numLocal numExternal n inputs → 0 < l.tokenBudget ∧
        l.partials.length < l.scheduler.config.maxNumPartialPrefills) : Prefills l' := by
  have hover : l.phase.overRunning = false ∧ l.phase ≠ .finished := by
    revert hphase
    cases l.phase <;> simp [Phase.overWaiting, Phase.overRunning]
  refine ⟨fun hfirst => ?_, fun r n hnext => ?_, fun _ _ => ?_, fun hsome => ?_,
    fun r hits a b n inputs hnext => ?_⟩
  · rw [hphase'] at hfirst
    cases hfirst
  · rw [hnext] at hphase'
    cases hphase'
  · rw [hbudget, hcalm.letIn, hcalm.running]
    refine (h.all hover.1 (Or.inl hover.2)).imp_right fun hall r hr hshort => ?_
    rw [hcalm.flag]
    exact hall r hr ((hcalm.short r).mp hshort)
  · rw [hcalm.letIn] at hsome
    rw [hcalm.partials, hcalm.config]
    exact h.capped hsome
  · rw [hcalm.partials, hcalm.config, hbudget]
    exact hadmitting r hits a b n inputs hnext

theorem Prepared.calm {s' : Scheduler H} (h : Prepared l.scheduler s' r)
    (hscheduler : l'.scheduler = s') (hletIn : l'.letIn = l.letIn)
    (hscheduled : l'.numScheduledTokens = l.numScheduledTokens) : Calm l l' := by
  subst hscheduler
  refine ⟨h.running_eq, hletIn, hscheduled, ?_, fun r => (h.alike r).isPrefillChunk,
    fun r => (h.counts r).1, fun r => (h.reworks r).numTokens_eq⟩
  rw [h.frame]

omit [DecidableEq H] in
theorem partials_lt (hprefills : l.scheduler.numPartialPrefills <
      l.scheduler.config.maxNumPartialPrefills) {r : RequestId} {hits : List (List BlockId)}
    {numLocal numExternal n : ℕ} {inputs : List ℕ}
    (hphase : l.phase = .admitting r hits numLocal numExternal n inputs)
    (hnot : l.overlooks = false) :
    l.partials.length < l.scheduler.config.maxNumPartialPrefills := by
  unfold overlooks at hnot
  rw [hphase] at hnot
  simp only [Bool.and_eq_false_iff, decide_eq_false_iff_not, Nat.not_le] at hnot
  rcases hnot with hall | hroom
  · -- all those let in and left short are flagged
    have hsame : l.partials = l.scheduler.running.filter fun r =>
        (l.scheduler.request r).isPrefillChunk := by
      refine List.filter_congr fun r _ => ?_
      rw [Bool.or_eq_left_iff_imp, decide_eq_true_eq]
      rintro ⟨hin, hshort⟩
      by_contra hflag
      refine (Bool.eq_false_iff.mp hall) (List.any_eq_true.mpr ⟨r, hin, ?_⟩)
      simpa [hshort] using hflag
    rw [hsame]
    exact hprefills
  · exact hroom

omit [DecidableEq H] in
theorem commitRunning_table (r : RequestId) (n : ℕ) (blocks : List (List BlockId))
    (kv : KVCacheManager H) (r' : RequestId) :
    ((l.commitRunning r n blocks kv).scheduler.request r').isPrefillChunk =
        (l.scheduler.request r').isPrefillChunk ∧
      ((l.commitRunning r n blocks kv).scheduler.request r').numComputedTokens =
        (l.scheduler.request r').numComputedTokens ∧
      ((l.commitRunning r n blocks kv).scheduler.request r').numTokens =
        (l.scheduler.request r').numTokens := by
  rw [commitRunning_request]
  show (Function.update l.scheduler.request r _ r').isPrefillChunk = _ ∧
    (Function.update l.scheduler.request r _ r').numComputedTokens = _ ∧
    (Function.update l.scheduler.request r _ r').numTokens = _
  by_cases hr : r' = r
  · subst hr
    rw [Function.update_self]
    exact ⟨rfl, rfl, rfl⟩
  · rw [Function.update_of_ne hr]
    exact ⟨rfl, rfl, rfl⟩

theorem prefills_commit {n : ℕ} {blocks : List (List BlockId)} {kv : KVCacheManager H}
    (hb : Batch l) (h : Prefills l) (hphase : l.phase = .allocating r n)
    (hpast : ∀ r ∈ l.scheduler.running, (l.scheduler.request r).isPrefillChunk = false →
      (l.scheduler.request r).Past l.scheduler.config.maxModelLen) :
    Prefills (l.commitRunning r n blocks kv) := by
  have hover : l.phase.overRunning = true := by rw [hphase]; rfl
  obtain ⟨hn, -, htake, -⟩ := hb.allocating r n hphase
  have htable := commitRunning_table (l := l) r n blocks kv
  refine ⟨fun _ hnone r' hr' hshort => ?_, nofun, nofun, fun hsome => ?_, nofun⟩
  · obtain ⟨hflag, hcomputed, htokens⟩ := htable r'
    rw [commitRunning_running] at hr'
    rw [hflag]
    change _ + (l.numScheduledTokens.store r n).findD r' 0 < _ at hshort
    rw [hcomputed, htokens, Dict.findD_store] at hshort
    by_cases heq : r' = r
    · subst heq
      rw [if_pos rfl] at hshort
      by_contra hclear
      have hlast := (hpast r' (List.mem_of_mem_take htake) (Bool.eq_false_iff.mpr hclear)).last
      omega
    · rw [if_neg heq] at hshort
      refine h.visited hover hnone r' ?_ hshort
      have hlast := h.allocating r n hphase hnone
      change r' ∈ l.scheduler.running.take (l.reqIndex + 1) at hr'
      rw [List.take_add_one, hlast, Option.toList_some, List.mem_append] at hr'
      exact hr'.resolve_right fun hself => heq (List.mem_singleton.mp hself)
  · exact absurd (hb.letIn_nil hover) hsome

theorem prefills_accept {r' : RequestId} {hits : List (List BlockId)}
    {numLocal numExternal n : ℕ} {inputs : List ℕ} (hb' : Batch l') (h : Prefills l)
    (hphase : l.phase = .admitting r hits numLocal numExternal n inputs)
    (hphase' : l'.phase = .admission)
    (hrunning : l'.scheduler.running = l.scheduler.running ++ [r'])
    (hconfig : l'.scheduler.config = l.scheduler.config)
    (hscheduled : l'.numScheduledTokens = l.numScheduledTokens.store r' n)
    (hletIn : ∀ r₁, r₁ ∈ l'.letIn ↔ r₁ = r' ∨ r₁ ∈ l.letIn)
    (htable : ∀ r₁, r₁ ≠ r' → l'.scheduler.request r₁ = l.scheduler.request r₁) :
    Prefills l' := by
  have hshort : ∀ r₁, r₁ ≠ r' → (l'.Short r₁ ↔ l.Short r₁) := by
    intro r₁ hne
    unfold Short
    rw [htable r₁ hne, hscheduled, Dict.findD_store, if_neg hne]
  obtain ⟨hbudget, hroom⟩ := h.admitting _ _ _ _ _ _ hphase
  refine ⟨fun hfirst => ?_, fun r n hnext => ?_, fun _ _ => Or.inr fun r₁ hr₁ hs₁ => ?_,
    fun _ => ?_, fun r hits a b n inputs hnext => ?_⟩
  · rw [hphase'] at hfirst
    cases hfirst
  · rw [hphase'] at hnext
    cases hnext
  · by_cases heq : r₁ = r'
    · exact Or.inr ((hletIn r₁).mpr (Or.inl heq))
    rw [htable r₁ heq]
    have hwas : r₁ ∈ l.scheduler.running := by
      rw [hrunning, List.mem_append] at hr₁
      exact hr₁.resolve_right fun hself => heq (List.mem_singleton.mp hself)
    have hall := (h.all (by rw [hphase]; rfl) (Or.inl (by rw [hphase]; exact nofun))).resolve_left
      fun hzero => absurd hzero.1 (Nat.pos_iff_ne_zero.mp hbudget)
    exact (hall r₁ hwas ((hshort r₁ heq).mp hs₁)).imp_right fun hin =>
      (hletIn r₁).mpr (Or.inr hin)
  · have hsubset : l'.partials ⊆ r' :: l.partials := by
      intro r₁ hr₁
      by_cases heq : r₁ = r'
      · exact heq ▸ List.mem_cons_self
      refine List.mem_cons_of_mem _ ?_
      simp only [StepState.partials, List.mem_filter, Bool.or_eq_true, decide_eq_true_eq,
        hrunning, List.mem_append, List.mem_singleton, htable r₁ heq, hletIn, heq, hshort r₁ heq,
        or_false, false_or] at hr₁ ⊢
      exact hr₁
    have hnodup : l'.partials.Nodup := hb'.partition.running_nodup.filter _
    have hle := (List.subperm_of_subset hnodup hsubset).length_le
    rw [List.length_cons] at hle
    rw [hconfig]
    omega
  · rw [hphase'] at hnext
    cases hnext

/-- Every step of a call keeps count of the prefills, as long as no admission
overlooks one. -/
theorem Outcome.prefills (h : Outcome l l') (hb : Batch l) (hp : Prefills l)
    (hchunked : l.scheduler.config.enableChunkedPrefill = true) (hnot : l'.overlooks = false)
    (hpast : ∀ r ∈ l.scheduler.running, r ∉ l.letIn →
      (l.scheduler.request r).isPrefillChunk = false →
        (l.scheduler.request r).Past l.scheduler.config.maxModelLen) : Prefills l' := by
  have hb' := h.batch hb
  have halike := h.alike
  have hreworks := h.reworks
  have hconfig := h.static.1
  have hnew := hb.letIn_nil
  cases h with
  | rest hphase => exact hp
  | enter hphase hover =>
      have hfirst : l.phase.overRunning = true := by rw [hphase]; rfl
      have hnone := hnew hfirst
      refine ⟨fun hnext => ?_, fun r n hnext => ?_, fun _ hsome => ?_,
        fun hsome => absurd hnone hsome, fun r hits a b n inputs hnext => ?_⟩
      · dsimp only at hnext
        split at hnext <;> cases hnext
      · dsimp only at hnext
        split at hnext <;> cases hnext
      · have hpreempted : l.preemptedReqs = [] := by
          refine hsome.elim (fun hne => ?_) fun hsome => absurd hnone hsome
          by_contra hpreempted
          exact hne (if_neg hpreempted)
        refine hover.imp (fun hzero => ⟨hzero, hnone⟩) fun hend r hr hshort => Or.inl ?_
        refine hp.visited hfirst hpreempted r ?_ hshort
        rwa [List.take_of_length_le (List.getElem?_eq_none_iff.mp hend)]
      · dsimp only at hnext
        split at hnext <;> cases hnext
  | @pass r cache budget hphase hr hnone =>
      have hfirst : l.phase.overRunning = true := by rw [hphase]; rfl
      rw [disableSpeculation_frame] at halike hreworks ⊢
      have hcalm : Calm l { l with
          scheduler := { l.scheduler with
            request := (disableSpeculation l.scheduler r).request, encoderCacheManager := cache }
          encoderBudget := budget
          reqIndex := l.reqIndex + 1 } :=
        ⟨rfl, rfl, rfl, rfl, fun r' => (halike r').isPrefillChunk,
          disableSpeculation_numComputedTokens l.scheduler r, fun r' => (hreworks r').numTokens_eq⟩
      refine ⟨fun _ hpreempted r' hr' hshort => ?_, fun r' n hnext => ?_, fun hnext => ?_,
        fun hsome => absurd (hnew hfirst) hsome, fun r hits a b n inputs hnext => ?_⟩
      · dsimp only at hr'
        rw [List.take_add_one, hr, Option.toList_some, List.mem_append] at hr'
        rw [hcalm.flag]
        rcases hr' with hr' | hself
        · exact hp.visited hfirst hpreempted r' hr' ((hcalm.short r').mp hshort)
        · obtain rfl := List.mem_singleton.mp hself
          by_contra hclear
          -- a request past its prompt is not passed over
          have hdone := hpast r' (List.mem_of_getElem? hr) (by rw [hnew hfirst]; exact nofun)
            (Bool.eq_false_iff.mpr hclear)
          rcases hnone with hfull | ⟨feature, hfeature, hreaches⟩
          · exact absurd hdone.room (Nat.not_lt.mpr hfull)
          · exact absurd hreaches (Nat.not_lt.mpr (hdone.behind feature hfeature))
      · dsimp only at hnext
        rw [hphase] at hnext
        cases hnext
      · dsimp only at hnext
        rw [hfirst] at hnext
        cases hnext
      · dsimp only at hnext
        rw [hphase] at hnext
        cases hnext
  | @takeUp r n inputs cache budget hphase hr hn hbudget hspec hlen =>
      have hfirst : l.phase.overRunning = true := by rw [hphase]; rfl
      rw [disableSpeculation_frame] at halike hreworks ⊢
      refine ⟨fun _ hpreempted r' hr' hshort => ?_, fun r' n' hnext _ => ?_, nofun,
        fun hsome => absurd (hnew hfirst) hsome, nofun⟩
      · rw [(halike r').isPrefillChunk]
        refine hp.visited hfirst hpreempted r' hr' ?_
        change ((disableSpeculation l.scheduler r).request r').numComputedTokens + _ < _ at hshort
        rw [disableSpeculation_numComputedTokens, (hreworks r').numTokens_eq] at hshort
        exact hshort
      · obtain ⟨rfl, -⟩ := Phase.allocating.inj hnext
        exact hr
  | @commit r n blocks kv hphase hok =>
      have hfirst : l.phase.overRunning = true := by rw [hphase]; rfl
      exact prefills_commit hb hp hphase fun r' hr' =>
        hpast r' hr' (by rw [hnew hfirst]; exact nofun)
  | @preempt r victim n kv inBatch blocks scheduled inputs cache encoderBudget tokenBudget reqIndex
      loras hphase hok hvictim hstatus hfree hbatch hinputs =>
      have hnone := hnew (by rw [hphase]; rfl)
      refine ⟨fun _ hpreempted => ?_, fun _ _ _ hpreempted => ?_, fun hnext hsome => ?_,
        fun hsome => absurd hnone hsome, fun r' hits a b n' inputs' hnext => ?_⟩
      · exact absurd hpreempted (List.append_ne_nil_of_right_ne_nil _ (List.cons_ne_nil _ _))
      · exact absurd hpreempted (List.append_ne_nil_of_right_ne_nil _ (List.cons_ne_nil _ _))
      · refine hsome.elim (fun hne => ?_) fun hsome => absurd hnone hsome
        dsimp only at hnext hne
        split at hnext
        · rename_i hself
          exact absurd (if_pos hself) hne
        · cases hnext
      · dsimp only at hnext
        split at hnext <;> cases hnext
  | close hphase hs =>
      have hwaiting : l.phase.overWaiting = true := by rw [hphase]; rfl
      refine hp.calm ?_ hwaiting rfl rfl nofun
      rcases hs with rfl | ⟨r, hs⟩
      · exact ⟨rfl, rfl, rfl, rfl, fun _ => rfl, fun _ => rfl, fun _ => rfl⟩
      · exact hs.calm rfl rfl rfl
  | @setAside s' r kv waiting budget hphase hs hfree hpop =>
      have hwaiting : l.phase.overWaiting = true := by rw [hphase]; rfl
      exact hp.calm ⟨hs.running_eq, rfl, rfl, hconfig, fun r => (halike r).isPrefillChunk,
        fun r => (hs.counts r).1, fun r => (hreworks r).numTokens_eq⟩ hwaiting rfl rfl nofun
  | @lookUp s' r hits numLocal numExternal n inputs budget hphase hs hpreempted hhits hexternal
      hrunning hn hbudget hlen hprefills hwhole hshare =>
      have hwaiting : l.phase.overWaiting = true := by rw [hphase]; rfl
      have hcalm : Calm l { l with
          scheduler := s'
          encoderBudget := budget
          phase := .admitting r hits numLocal numExternal n inputs } := hs.calm rfl rfl rfl
      refine hp.calm hcalm hwaiting rfl rfl fun r' hits' a b n' inputs' _ => ⟨by omega, ?_⟩
      have hsame : s'.numPartialPrefills = l.scheduler.numPartialPrefills := by
        rw [Scheduler.numPartialPrefills, hs.running_eq, Scheduler.numPartialPrefills]
        refine congrArg List.length (List.filter_congr fun r' _ => ?_)
        exact (hs.alike r').isPrefillChunk
      rw [← hcalm.partials, ← hcalm.config]
      refine partials_lt ?_ rfl hnot
      rw [hcalm.config]
      exact hsame.symm ▸ hprefills hchunked
  | @decline r hits numLocal numExternal n inputs cache budget hphase hok =>
      have hwaiting : l.phase.overWaiting = true := by rw [hphase]; rfl
      exact hp.calm ⟨rfl, rfl, rfl, rfl, fun _ => rfl, fun _ => rfl, fun _ => rfl⟩ hwaiting rfl rfl
        nofun
  | @accept r r' hits blocks numLocal numExternal n inputs kv waiting connector loras hphase hok
      hpop hstatus hconnector =>
      exact prefills_accept hb' hp hphase rfl rfl rfl rfl (fun _ => mem_letIn_grown)
        fun r₁ hne => Function.update_of_ne hne ..

/-- A running request of a marked scheduler stays past its prompt while a call decides. -/
theorem Loops.past (hloops : Loops (start s) l) (hpart : s.Partitioned) (hmarked : s.Marked)
    (hr : r ∈ l.scheduler.running) (hold : r ∉ l.letIn)
    (hflag : (l.scheduler.request r).isPrefillChunk = false) :
    (l.scheduler.request r).Past l.scheduler.config.maxModelLen := by
  obtain ⟨hwas, hcount⟩ := (hloops.follows hpart r hr).resolve_left hold
  have hfeatures : (l.scheduler.request r).mmFeatures = (s.request r).mmFeatures := by
    rw [(hloops.keeps r).eq]
    rfl
  have hconfig : l.scheduler.config = s.config := hloops.static.1
  have htokens : (l.scheduler.request r).numTokens = (s.request r).numTokens :=
    (hloops.reworks r).numTokens_eq
  have hpast := hmarked r hwas ((hloops.alike r).isPrefillChunk ▸ hflag)
  refine ⟨?_, ?_, ?_⟩
  · rw [hcount, htokens]
    exact hpast.last
  · rw [hcount, hconfig]
    exact hpast.room
  · rw [hcount, hfeatures]
    exact hpast.behind

theorem Loops.prefills (hloops : Loops (start s) l) (hpart : s.Partitioned) (hmarked : s.Marked)
    (hchunked : s.config.enableChunkedPrefill = true)
    (hnot : ∀ l, Loops (start s) l → l.overlooks = false) : Prefills l := by
  induction hloops with
  | refl =>
      refine ⟨fun _ _ r hr => ?_, nofun, nofun, fun hsome => absurd rfl hsome, nofun⟩
      exact absurd hr List.not_mem_nil
  | @tail l l' hloops hstep ih =>
      refine (advance_outcome hstep).prefills (Loops.batch hpart hloops) ih ?_
        (hnot l' (hloops.tail hstep)) fun r hr hold hflag =>
          Loops.past hloops hpart hmarked hr hold hflag
      rw [(Loops.static hloops).1]
      exact hchunked

end StepState

/-! ### Over a call -/

namespace Scheduler

variable {s s' : Scheduler H} {output : SchedulerOutput}

omit [DecidableEq H] in
/-- The running requests with known tokens left to compute. -/
def partialPrefills (s : Scheduler H) : List RequestId :=
  s.running.filter fun r => decide ((s.request r).numComputedTokens < (s.request r).numTokens)

/-- A call that lets somebody in, and overlooks nobody, keeps the cap. -/
theorem schedule_partialPrefills_le (hpart : s.Partitioned) (hmarked : s.Marked)
    (hchunked : s.config.enableChunkedPrefill = true)
    (hnot : ∀ l, StepState.Loops (StepState.start s) l → l.overlooks = false)
    (hok : s.schedule = .ok (output, s')) (hsome : ∃ r ∈ s'.running, r ∉ s.running) :
    s'.partialPrefills.length ≤ s.config.maxNumPartialPrefills := by
  obtain ⟨l, hloops, hfinished, hfinishes⟩ := schedule_ok hok
  have hp := hloops.prefills hpart hmarked hchunked hnot
  have hrunning : s'.running = l.scheduler.running := by
    rw [hfinishes.state, StepState.restoreSkippedWaiting_frame]
  have hletIn : l.letIn ≠ [] := by
    obtain ⟨r, hr, hnew⟩ := hsome
    rw [hrunning] at hr
    have hin := (hloops.follows hpart r hr).resolve_right fun hold => hnew hold.1
    exact List.ne_nil_of_mem hin
  have hshort : ∀ r, (s'.request r).numComputedTokens < (s'.request r).numTokens ↔ l.Short r := by
    intro r
    have htable : s'.request r =
        StepState.advancedTable l.scheduler.request l.numScheduledTokens.items r := by
      rw [hfinishes.state]
    by_cases hkey : r ∈ l.numScheduledTokens.keys
    · obtain ⟨n, hn⟩ := (Dict.mem_keys_iff ..).mp hkey
      rw [htable, StepState.advancedTable, StepState.Short, Dict.findD, hn, Option.getD_some]
      rw [Dict.find] at hn
      rw [hn]
      exact Iff.rfl
    · rw [htable, advancedTable_of_not_mem hkey, StepState.Short, Dict.findD_of_not_mem hkey,
        Nat.add_zero]
  have hsubset : s'.partialPrefills ⊆ l.partials := by
    intro r hr
    simp only [partialPrefills, List.mem_filter, decide_eq_true_eq, hrunning, hshort] at hr
    obtain ⟨hr, hr'⟩ := hr
    have hover : l.phase.overRunning = false := by rw [hfinished]; rfl
    have hall := (hp.all hover (Or.inr hletIn)).resolve_left fun hnone => hletIn hnone.2
    simp only [StepState.partials, List.mem_filter, Bool.or_eq_true, decide_eq_true_eq]
    exact ⟨hr, (hall r hr hr').imp_right fun hin => ⟨hin, hr'⟩⟩
  have hnodup : s'.partialPrefills.Nodup := by
    refine List.Nodup.filter _ ?_
    rw [hrunning]
    exact (hloops.batch hpart).partition.running_nodup
  calc s'.partialPrefills.length
    _ ≤ l.partials.length := (List.subperm_of_subset hnodup hsubset).length_le
    _ ≤ l.scheduler.config.maxNumPartialPrefills := hp.capped hletIn
    _ = s.config.maxNumPartialPrefills := congrArg _ hloops.static.1

end Scheduler

/-! ### Over a run of the engine -/

namespace Engine

/-- Where the requests stand that are not flagged. -/
structure Marked (e : Engine H) : Prop where
  past : ∀ r ∈ e.scheduler.running, (e.scheduler.request r).isPrefillChunk = false →
    e.scheduledFor r = none →
      (e.scheduler.request r).numComputedTokens + 1 = (e.scheduler.request r).numTokens ∧
      (e.scheduler.request r).numPromptTokens ≤ (e.scheduler.request r).numComputedTokens
  flying : ∀ r ∈ e.scheduler.running, (e.scheduler.request r).isPrefillChunk = false →
    ∀ n, e.scheduledFor r = some n →
      (e.scheduler.request r).numTokens ≤ (e.scheduler.request r).numComputedTokens

theorem Marked.call {s s' : Scheduler H} {inFlight : Option SchedulerOutput} {event : Event}
    (h : Marked ⟨s, inFlight⟩) (hsettled : s.Settled) (hstep : Scheduler.Step s event s')
    (hanytime : event.anytime = true) : Marked ⟨s', inFlight⟩ := by
  have hfollows := hstep.follows hanytime hsettled
  refine ⟨fun r hr hflag hnone => ?_, fun r hr hflag n hn => ?_⟩
  · obtain ⟨hwas, grammar, heq⟩ := hfollows r hr
    dsimp only at hflag ⊢
    rw [heq] at hflag ⊢
    exact h.past r hwas hflag hnone
  · obtain ⟨hwas, grammar, heq⟩ := hfollows r hr
    dsimp only at hflag ⊢
    rw [heq] at hflag ⊢
    exact h.flying r hwas hflag n hn

theorem Marked.schedule {s s' : Scheduler H} {output : SchedulerOutput} (h : Marked ⟨s, none⟩)
    (hsettled : s.Settled) (hok : s.schedule = .ok (output, s')) : Marked ⟨s', some output⟩ := by
  refine ⟨fun r hr hflag hnone => ?_, fun r hr hflag n hn => ?_⟩
  · have hkey : r ∉ output.numScheduledTokens.keys := (Dict.find_eq_none_iff ..).mp hnone
    obtain ⟨hwas, hcount, hreworks⟩ := Scheduler.schedule_passed hsettled.partition hok hr hkey
    have hclear : (s.request r).isPrefillChunk = false := by
      rw [← (Scheduler.schedule_alike hok hkey).isPrefillChunk]
      exact hflag
    dsimp only
    rw [hcount, hreworks.numTokens_eq, hreworks.numPromptTokens_eq]
    exact h.past r hwas hclear rfl
  · obtain ⟨-, -, -, -, hmarks⟩ := Scheduler.schedule_rows hok
    have hkey : r ∈ output.numScheduledTokens.keys := (Dict.mem_keys_iff ..).mpr ⟨n, hn⟩
    refine Nat.not_lt.mp fun hlt => ?_
    have hset := (hmarks r hkey).2.mpr hlt
    dsimp only at hflag
    rw [hset] at hflag
    cases hflag

theorem Marked.updateFromOutput {s s' : Scheduler H} {schedulerOutput : SchedulerOutput}
    {modelRunnerOutput : ModelRunnerOutput} {outputs : Dict ℕ (List EngineCoreOutput)}
    (h : Marked ⟨s, some schedulerOutput⟩) (hpaced : Paced ⟨s, some schedulerOutput⟩)
    (hanswers : Answers s schedulerOutput modelRunnerOutput)
    (hok : s.updateFromOutput schedulerOutput modelRunnerOutput = .ok (outputs, s')) :
    Marked ⟨s', none⟩ := by
  have hfollows := Scheduler.updateFromOutput_follows hpaced.settled hok
  refine ⟨fun r hr hflag _ => ?_, nofun⟩
  obtain ⟨hwas, request, hgoes, heq⟩ := hfollows.running r hr
  have hclear : (s.request r).isPrefillChunk = false := by
    rw [← (Scheduler.updateFromOutput_alike hok r).isPrefillChunk]
    exact hflag
  have hdrafted : s'.request r = request.withSpecTokenIds (s'.request r).specTokenIds := by
    rw [heq]
    unfold Scheduler.drafted
    split <;> rfl
  dsimp only
  rw [hdrafted]
  show request.numComputedTokens + 1 = request.numTokens ∧
    request.numPromptTokens ≤ request.numComputedTokens
  by_cases hkey : r ∈ schedulerOutput.numScheduledTokens.keys
  · obtain ⟨n, hn⟩ := (Dict.mem_keys_iff ..).mp hkey
    have hall := h.flying r hwas hclear n hn
    have hlanded := hpaced.landed hanswers hwas hkey hgoes
    cases hgoes with
    | passed hscheduled =>
        have hpos := (hpaced.flying r hwas n hn).1
        rw [Dict.findD, hn, Option.getD_some] at hscheduled
        omega
    | @folded _ kept hscheduled hfolds hkept hpooled =>
        obtain ⟨hsampling, hsome, -⟩ :=
          (hanswers.scheduled r hwas hkey).generates (hpaced.pooling r) hpooled hall
        have hone := hlanded.sampled hsome
        have hlength := List.length_pos_of_ne_nil hsome
        have htokens : request.numTokens = (s.request r).numTokens + kept.length :=
          hfolds.numTokens_eq
        rw [hsampling, if_neg Bool.false_ne_true] at hkept
        rw [hkept] at htokens
        have hprompt : request.numPromptTokens = (s.request r).numPromptTokens := by
          rw [Request.numPromptTokens, hfolds.promptTokenIds_eq]
          rfl
        have hwithin : (s.request r).numPromptTokens ≤ (s.request r).numTokens := by
          rw [Request.numTokens, Request.allTokenIds, List.length_append]
          exact Nat.le_add_right ..
        exact ⟨hone, by omega⟩
  · cases hgoes with
    | passed hscheduled => exact h.past r hwas hclear ((Dict.find_eq_none_iff ..).mpr hkey)
    | folded hscheduled hfolds hkept hpooled =>
        exact absurd (Dict.findD_of_not_mem hkey 0) hscheduled

theorem Step.marked {e e' : Engine H} {event : Event} (hstep : Step e event e') (h : e.Marked)
    (hpaced : e.Paced) : e'.Marked := by
  cases hstep with
  | call hstep hanytime => exact h.call hpaced.settled hstep hanytime
  | schedule hok => exact h.schedule hpaced.settled hok
  | updateFromOutput hanswers hok => exact h.updateFromOutput hpaced hanswers hok

theorem init_marked {config : SchedulerConfig} {kvCacheConfig : KVCacheConfig}
    {enableCaching : Bool} {hashFn : HashInput H → H} {seed : ℕ}
    {connector : Option (SimSharedStoreConnector H)} {s₀ : Scheduler H}
    (hinit : Scheduler.init config kvCacheConfig enableCaching hashFn seed connector = .ok s₀) :
    Marked ⟨s₀, none⟩ := by
  obtain ⟨hsettled, hrequests, -⟩ := Scheduler.init_settled hinit
  have hnone : ∀ r, r ∉ s₀.running := fun r hr => by
    have hknown := hsettled.partition.known_of_running hr
    rw [hrequests] at hknown
    cases hknown
  exact ⟨fun r hr => absurd hr (hnone r), fun r hr => absurd hr (hnone r)⟩

theorem run_marked {e e' : Engine H} {events : List Event} (hrun : Run Step e events e')
    (h : e.Marked) (hpaced : e.Paced) : e'.Marked :=
  hrun.invariant (P := fun _ e => e.Marked) h fun _ _ _ _ hbefore h hstep =>
    hstep.marked h (run_paced hbefore hpaced)

/-- Over every run, a call that lets somebody in leaves no more than
`max_num_partial_prefills` running requests short of their known tokens, if it overlooks
nobody and no request past its prompt has used up the model's length. -/
theorem run_partialPrefills_le {config : SchedulerConfig} {kvCacheConfig : KVCacheConfig}
    {enableCaching : Bool} {hashFn : HashInput H → H} {seed : ℕ}
    {connector : Option (SimSharedStoreConnector H)} {s₀ s s' : Scheduler H}
    {events : List Event} {output : SchedulerOutput}
    (hinit : Scheduler.init config kvCacheConfig enableCaching hashFn seed connector = .ok s₀)
    (hchunked : config.enableChunkedPrefill = true)
    (himages : ∀ args, Event.addRequest args ∈ events → ∀ feature ∈ args.mmFeatures,
      feature.position + feature.length ≤ args.promptTokenIds.length)
    (hrun : Run Step ⟨s₀, none⟩ events ⟨s, none⟩)
    (hroom : ∀ r ∈ s.running, (s.request r).isPrefillChunk = false →
      (s.request r).numComputedTokens < config.maxModelLen)
    (hnot : ∀ l, StepState.Loops (StepState.start s) l → l.overlooks = false)
    (hok : s.schedule = .ok (output, s')) (hsome : ∃ r ∈ s'.running, r ∉ s.running) :
    s'.partialPrefills.length ≤ config.maxNumPartialPrefills := by
  obtain ⟨-, hrequests, -⟩ := Scheduler.init_settled hinit
  obtain ⟨hpolicied, hfirst⟩ := Scheduler.init_policied hinit
  have hsteps := run_scheduler hrun
  have hconfig : s.config = config := (Scheduler.run_policied hsteps hpolicied).2.trans hfirst
  have hpart := (run_paced hrun (init_paced hinit)).settled.partition
  have hmarks := run_marked hrun (init_marked hinit) (init_paced hinit)
  have hmarked : s.Marked := by
    intro r hr hflag
    obtain ⟨hlast, hprompt⟩ := hmarks.past r hr hflag rfl
    refine ⟨hlast, ?_, fun feature hfeature => ?_⟩
    · rw [hconfig]
      exact hroom r hr hflag
    · obtain ⟨args, hargs, -, hasked⟩ :=
        Scheduler.run_asked hsteps hrequests r (hpart.known_of_running hr)
      have hends := himages args hargs feature (hasked.mmFeatures ▸ hfeature)
      rw [← hasked.promptTokenIds] at hends
      exact hends.trans hprompt
  rw [← hconfig] at hchunked ⊢
  exact Scheduler.schedule_partialPrefills_le hpart hmarked hchunked hnot hok hsome

def oneAtATime : SchedulerConfig :=
  { Scheduler.shortConfig .fcfs with
    longPrefillTokenThreshold := 2
    maxNumPartialPrefills := 1
    maxNumPartialPrefills_pos := Nat.one_pos }

def burstRun (promptTokenIds : List TokenId) : Except PyError (Scheduler Digest × Request Digest ×
    Request Digest × Scheduler Digest × SchedulerOutput × Scheduler Digest) := do
  let s₀ ← Scheduler.init oneAtATime (Scheduler.shortKVConfig 8) true Digest.hash 0 none
  let first ← Request.init (.text 1 promptTokenIds 8)
  let second ← Request.init (.text 2 [3, 4, 5, 6, 7] 8)
  let s := (s₀.addRequest first).addRequest second
  let (output, s') ← s.schedule
  return (s₀, first, second, s, output, s')

theorem burstRun_reaches {promptTokenIds : List TokenId} {s₀ s s' : Scheduler Digest}
    {first second : Request Digest} {output : SchedulerOutput}
    (h : burstRun promptTokenIds = .ok (s₀, first, second, s, output, s'))
    (hfresh : 2 ∉ (s₀.addRequest first).requests) :
    Scheduler.init oneAtATime (Scheduler.shortKVConfig 8) true Digest.hash 0 none = .ok s₀ ∧
      Run Step ⟨s₀, none⟩ [.addRequest (.text 1 promptTokenIds 8),
        .addRequest (.text 2 [3, 4, 5, 6, 7] 8)] ⟨s, none⟩ ∧ s.schedule = .ok (output, s') := by
  unfold burstRun at h
  obtain ⟨_, hinit, h⟩ := except_bind_iff.mp h
  obtain ⟨_, hfirst, h⟩ := except_bind_iff.mp h
  obtain ⟨_, hsecond, h⟩ := except_bind_iff.mp h
  obtain ⟨⟨_, _⟩, hschedule, h⟩ := except_bind_iff.mp h
  cases h
  obtain ⟨-, hnone, -⟩ := Scheduler.init_settled hinit
  have hfresh₁ : 1 ∉ s₀.requests := by
    rw [hnone]
    exact List.not_mem_nil
  exact ⟨hinit, (Run.nil.snoc (Step.call (.addRequest hfirst hfresh₁) rfl)).snoc
    (Step.call (.addRequest hsecond hfresh) rfl), hschedule⟩

/-- A prompt that fits is let in beside one that does not. -/
theorem run_partialPrefills_one : ∃ s' : Scheduler Digest,
    s'.running = [1, 2] ∧ s'.partialPrefills = [2] ∧
      s'.partialPrefills.length ≤ oneAtATime.maxNumPartialPrefills := by
  obtain ⟨⟨s₀, first, second, s, output, s'⟩, hrun, hcheck⟩ :=
    exists_of_okAnd (x := burstRun [1, 2]) (p := fun (s₀, first, _, s, _, s') =>
      (StepState.start s).checkLoops (fun l => !l.overlooks) 16 &&
        decide (2 ∉ (s₀.addRequest first).requests ∧ s.running = [] ∧ s'.running = [1, 2] ∧
          s'.partialPrefills = [2])) (by decide +kernel)
  rw [Bool.and_eq_true, decide_eq_true_eq] at hcheck
  obtain ⟨hseen, hfresh, hidle, hrunning, hpartials⟩ := hcheck
  obtain ⟨hinit, hsteps, hschedule⟩ := burstRun_reaches hrun hfresh
  refine ⟨s', hrunning, hpartials, run_partialPrefills_le hinit rfl ?_ hsteps ?_ ?_ hschedule ?_⟩
  · intro args hmem feature hfeature
    rcases List.mem_cons.mp hmem with heq | hmem
    · cases heq
      cases hfeature
    · obtain heq := List.mem_singleton.mp hmem
      cases heq
      cases hfeature
  · rw [hidle]
    exact nofun
  · intro l hloops
    simpa using StepState.checkLoops_sound hseen hloops
  · rw [hidle, hrunning]
    exact ⟨1, List.mem_cons_self, List.not_mem_nil⟩

/-- Two long prompts that arrive together are both let in. -/
theorem burstRun_exceeds : ∃ (s₀ s s' : Scheduler Digest) (events : List Event)
    (output : SchedulerOutput),
    Scheduler.init oneAtATime (Scheduler.shortKVConfig 8) true Digest.hash 0 none = .ok s₀ ∧
      oneAtATime.enableChunkedPrefill = true ∧ Run Step ⟨s₀, none⟩ events ⟨s, none⟩ ∧
      s.schedule = .ok (output, s') ∧ (∃ r ∈ s'.running, r ∉ s.running) ∧
      ¬ s'.partialPrefills.length ≤ oneAtATime.maxNumPartialPrefills := by
  obtain ⟨⟨s₀, first, second, s, output, s'⟩, hrun, hcheck⟩ :=
    exists_of_okAnd (x := burstRun [1, 2, 8, 9, 10]) (p := fun (s₀, first, _, s, _, s') =>
      decide (2 ∉ (s₀.addRequest first).requests ∧ s.running = [] ∧
        s'.partialPrefills = [1, 2] ∧ s'.running = [1, 2])) (by decide +kernel)
  obtain ⟨hfresh, hidle, hpartials, hrunning⟩ := of_decide_eq_true hcheck
  obtain ⟨hinit, hsteps, hschedule⟩ := burstRun_reaches hrun hfresh
  refine ⟨s₀, s, s', _, output, hinit, rfl, hsteps, hschedule, ?_, ?_⟩
  · rw [hidle, hrunning]
    exact ⟨1, List.mem_cons_self, List.not_mem_nil⟩
  · rw [hpartials]
    exact Nat.not_le.mpr (Nat.lt_add_one 1)

end Engine

end Pvllm
