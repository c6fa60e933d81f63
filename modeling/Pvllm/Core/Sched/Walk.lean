import Pvllm.Core.Sched.Coherence

/-!
The walk of `schedule` over the running requests.

The first loop goes by index while its body takes victims out of the list. The
index goes back by one for a victim of the batch and stays for every other, so
a victim that the walk has passed without scheduling it moves the list under
the index: the request after the current one is stepped over. `Passed` says
what stands behind the index and what ahead of it, over lists; `Visited` is the
invariant of the walk. A request that is running at the end was examined unless
it was stepped over.
-/

namespace Pvllm

/-! ### A list walked by index -/

section Passed

variable {α : Type*} [DecidableEq α]

/-- Behind the index stand the entries examined, each once, and those missed; ahead of it,
neither. -/
structure Passed (list : List α) (i : ℕ) (examined missed : List α) : Prop where
  behind : ∀ a ∈ list.take i, a ∉ missed ∧ examined.count a = 1 ∨ a ∈ missed ∧ examined.count a = 0
  ahead : ∀ a ∈ list.drop i, a ∉ missed ∧ examined.count a = 0

variable {list examined missed : List α} {i : ℕ} {a b : α}

omit [DecidableEq α] in
theorem not_mem_drop_of_mem_take (hnodup : list.Nodup) (h : a ∈ list.take i) : a ∉ list.drop i := by
  rw [← List.take_append_drop i list, List.nodup_append] at hnodup
  exact fun hdrop => hnodup.2.2 a h a hdrop rfl

theorem drop_erase_of_mem (h : b ∈ list.take i) : (list.erase b).drop (i - 1) = list.drop i := by
  have hpos : i ≠ 0 := by
    rintro rfl
    exact List.not_mem_nil h
  have hle : 1 ≤ (list.take i).length := List.length_pos_of_mem h
  conv_lhs => rw [← List.take_append_drop i list, List.erase_append_left _ h]
  rw [List.drop_append, List.length_erase_of_mem h, List.drop_eq_nil_of_le, List.nil_append]
  · rw [List.length_take] at hle ⊢
    by_cases hlong : i ≤ list.length
    · rw [Nat.min_eq_left hlong, Nat.sub_self, List.drop_zero]
    · rw [List.drop_eq_nil_of_le (by omega : list.length ≤ i), List.drop_nil]
  · rw [List.length_erase_of_mem h, List.length_take]
    omega

theorem erase_ahead (h : b ∉ list.take i) :
    (list.erase b).take i = list.take i ∧ (list.erase b).drop i = (list.drop i).erase b := by
  induction list generalizing i with
  | nil => simp
  | cons c list ih =>
      cases i with
      | zero => exact ⟨rfl, rfl⟩
      | succ i =>
          rw [List.take_succ_cons, List.mem_cons, not_or] at h
          obtain ⟨htake, hdrop⟩ := ih h.2
          rw [List.erase_cons_tail (by simpa using Ne.symm h.1), List.take_succ_cons,
            List.take_succ_cons, List.drop_succ_cons, List.drop_succ_cons, htake, hdrop]
          exact ⟨rfl, rfl⟩

theorem Passed.nil (list : List α) : Passed list 0 [] [] where
  behind _ h := absurd h List.not_mem_nil
  ahead _ _ := ⟨List.not_mem_nil, rfl⟩

theorem Passed.examine (h : Passed list i examined missed) (hnodup : list.Nodup)
    (hnext : list[i]? = some b) : Passed list (i + 1) (examined ++ [b]) missed := by
  obtain ⟨hlt, rfl⟩ := List.getElem?_eq_some_iff.mp hnext
  have hsplit : list.drop i = list[i] :: list.drop (i + 1) := List.drop_eq_getElem_cons hlt
  obtain ⟨hover, hcount⟩ := h.ahead list[i] (by rw [hsplit]; exact List.mem_cons_self)
  have hother : ∀ a, a ≠ list[i] → (examined ++ [list[i]]).count a = examined.count a := by
    intro a hne
    rw [List.count_append, List.count_singleton, if_neg (by simpa using Ne.symm hne), Nat.add_zero]
  refine ⟨fun a ha => ?_, fun a ha => ?_⟩
  · rw [List.take_succ_eq_append_getElem hlt, List.mem_append, List.mem_singleton] at ha
    rcases ha with ha | rfl
    · have hne : a ≠ list[i] := by
        rintro rfl
        exact not_mem_take_of_getElem? hnodup hnext ha
      rw [hother a hne]
      exact h.behind a ha
    · left
      rw [List.count_append, hcount, List.count_singleton_self]
      exact ⟨hover, rfl⟩
  · have hne : a ≠ list[i] := by
      rintro rfl
      exact not_mem_drop_of_mem_take hnodup (mem_take_succ hnext) ha
    rw [hother a hne]
    refine h.ahead a ?_
    rw [hsplit]
    exact List.mem_cons_of_mem _ ha

theorem Passed.erase_behind (h : Passed list i examined missed) (hb : b ∈ list.take i) :
    Passed (list.erase b) (i - 1) examined missed := by
  refine ⟨fun a ha => ?_, fun a ha => ?_⟩
  · rw [take_erase_of_mem hb] at ha
    exact h.behind a (List.mem_of_mem_erase ha)
  · rw [drop_erase_of_mem hb] at ha
    exact h.ahead a ha

theorem Passed.erase_ahead (h : Passed list i examined missed) (hb : b ∉ list.take i) :
    Passed (list.erase b) i examined missed := by
  obtain ⟨htake, hdrop⟩ := Pvllm.erase_ahead hb
  refine ⟨fun a ha => ?_, fun a ha => ?_⟩
  · rw [htake] at ha
    exact h.behind a ha
  · rw [hdrop] at ha
    exact h.ahead a (List.mem_of_mem_erase ha)

theorem Passed.slip (h : Passed list i examined missed) (hnodup : list.Nodup)
    (hb : b ∈ list.take i) :
    Passed (list.erase b) i examined (missed ++ list[i]?.toList) := by
  have hb' : b ∈ list.take (i + 1) := mem_take_mono (Nat.le_succ i) hb
  have htake := take_erase_of_mem hb'
  have hdrop := drop_erase_of_mem hb'
  rw [Nat.add_sub_cancel] at htake hdrop
  refine ⟨fun a ha => ?_, fun a ha => ?_⟩
  · rw [htake] at ha
    have ha := List.mem_of_mem_erase ha
    rw [List.take_add_one, List.mem_append] at ha
    rcases ha with ha | ha
    · have hne : a ∉ list[i]?.toList := by
        intro hmem
        rw [Option.mem_toList] at hmem
        exact not_mem_take_of_getElem? hnodup hmem ha
      rw [List.mem_append, or_iff_left hne]
      exact h.behind a ha
    · right
      refine ⟨List.mem_append_right _ ha, (h.ahead a ?_).2⟩
      rw [Option.mem_toList] at ha
      obtain ⟨hlt, rfl⟩ := List.getElem?_eq_some_iff.mp ha
      rw [List.drop_eq_getElem_cons hlt]
      exact List.mem_cons_self
  · rw [hdrop] at ha
    have hmem : a ∈ list.drop i := by
      rw [← List.drop_drop] at ha
      exact List.mem_of_mem_drop ha
    obtain ⟨hover, hcount⟩ := h.ahead a hmem
    refine ⟨?_, hcount⟩
    rw [List.mem_append, not_or]
    refine ⟨hover, fun hnext => ?_⟩
    rw [Option.mem_toList] at hnext
    exact not_mem_drop_of_mem_take hnodup (mem_take_succ hnext) ha

end Passed

variable {H : Type} [DecidableEq H]

namespace StepState

/-! ### The walk -/

/-- What one step of the first loop does to the running requests: the one it
examines, the one it preempts, and the one the index steps over. -/
structure Stride where
  examined : Option RequestId
  victim : Option RequestId
  steppedOver : Option RequestId
deriving DecidableEq

/-- The victim stands behind the index, and the index does not go back for it. -/
def slips (l : StepState H) (victim : RequestId) : Bool :=
  decide (l.scheduler.config.policy = .priority) && !l.scheduledRunningReqs.contains victim &&
    (l.scheduler.running.take (l.reqIndex + 1)).contains victim

/-- The stride from a point of the first loop. A request is examined at the head
of the loop and is the current one until its allocation succeeds or preempts the
request itself. -/
def stride (l : StepState H) : Stride :=
  match l.phase with
  | .running =>
    ⟨if l.tokenBudget = 0 then none else l.scheduler.running[l.reqIndex]?, none, none⟩
  | .allocating r n =>
    match l.scheduler.kvCacheManager.allocateSlots (l.scheduler.request r) n 0 none 0 false,
        l.scheduler.selectVictim with
    | .ok (none, _), .ok victim =>
      ⟨none, some victim,
        if victim ≠ r ∧ l.slips victim = true then l.scheduler.running[l.reqIndex + 1]? else none⟩
    | _, _ => ⟨none, none, none⟩
  | _ => ⟨none, none, none⟩

/-- A step of the first loop. -/
def Walk (l : StepState H) (stride : Stride) (l' : StepState H) : Prop :=
  l.phase.overRunning = true ∧ l.advance = .ok l' ∧ stride = l.stride

/-- The requests the walk examined, those it preempted and those it stepped over. -/
def examined (strides : List Stride) : List RequestId := strides.filterMap Stride.examined

def victims (strides : List Stride) : List RequestId := strides.filterMap Stride.victim

def steppedOver (strides : List Stride) : List RequestId := strides.filterMap Stride.steppedOver

/-- The first loop ends because its index is past the running requests. -/
def AtEnd (l : StepState H) : Prop :=
  l.phase = .running ∧ l.scheduler.running.length ≤ l.reqIndex

/-- How many running requests the walk has passed, the current one included. -/
def numPassed (l : StepState H) : ℕ :=
  match l.phase with
  | .allocating _ _ => l.reqIndex + 1
  | _ => l.reqIndex

/-- The invariant of the walk. -/
structure Visited (strides : List Stride) (l : StepState H) : Prop where
  passed : Passed l.scheduler.running l.numPassed (examined strides) (steppedOver strides)
  missed : ∀ r ∈ steppedOver strides, r ∈ victims strides ∨ r ∈ l.scheduler.running
  victims : ∀ r ∈ victims strides, r ∉ l.scheduler.running

section

variable (strides : List Stride) (last : Stride)

theorem examined_snoc :
    examined (strides ++ [last]) = examined strides ++ last.examined.toList := by
  rw [examined, List.filterMap_append, examined]
  cases h : last.examined <;> simp [h]

theorem victims_snoc : victims (strides ++ [last]) = victims strides ++ last.victim.toList := by
  rw [victims, List.filterMap_append, victims]
  cases h : last.victim <;> simp [h]

theorem steppedOver_snoc :
    steppedOver (strides ++ [last]) = steppedOver strides ++ last.steppedOver.toList := by
  rw [steppedOver, List.filterMap_append, steppedOver]
  cases h : last.steppedOver <;> simp [h]

end

variable {l l' : StepState H} {strides : List Stride}

theorem Walk.loops (hwalk : Run Walk l strides l') : Loops l l' := by
  induction hwalk with
  | nil => exact .refl
  | snoc _ hstep ih => exact .tail ih hstep.2.1

omit [DecidableEq H] in
theorem runningStep_overRunning (hok : l.runningStep = .ok l')
    (hphase : l'.phase.overRunning = true) :
    l.tokenBudget ≠ 0 ∧ ∃ r, l.scheduler.running[l.reqIndex]? = some r := by
  have henter : ∀ {l' : StepState H}, l.enterAdmission = .ok l' →
      l'.phase.overRunning = false := by
    intro l' h
    obtain ⟨loras, rfl⟩ := enterAdmission_ok h
    dsimp only
    split
    · rfl
    · rfl
  unfold runningStep at hok
  split at hok
  · rw [henter hok] at hphase
    cases hphase
  rename_i r hr
  split at hok
  · rw [henter hok] at hphase
    cases hphase
  rename_i hbudget
  exact ⟨hbudget, r, hr⟩

omit [DecidableEq H] in
theorem Visited.start (s : Scheduler H) : Visited [] (start s) where
  passed := Passed.nil _
  missed _ h := absurd h List.not_mem_nil
  victims _ h := absurd h List.not_mem_nil

theorem passed_preempt {r victim : RequestId} {n reqIndex : ℕ} {seen missed : List RequestId}
    (hb : Batch l) (hphase : l.phase = .allocating r n)
    (hvictim : l.scheduler.selectVictim = .ok victim) (hother : victim ≠ r)
    (hindex : (l.scheduler.config.policy = .fcfs ∨ victim ∉ l.scheduledRunningReqs) ∧
        reqIndex = l.reqIndex ∨
      l.scheduler.config.policy = .priority ∧ victim ∈ l.scheduledRunningReqs ∧
        reqIndex = l.reqIndex - 1)
    (h : Passed l.scheduler.running (l.reqIndex + 1) seen missed) :
    Passed (l.scheduler.running.erase victim) (reqIndex + 1) seen
      (missed ++
        (if l.slips victim = true then l.scheduler.running[l.reqIndex + 1]? else none).toList) := by
  have hnodup := hb.partition.running_nodup
  have hnot : l.slips victim = false → (if l.slips victim = true
      then l.scheduler.running[l.reqIndex + 1]? else none).toList = [] := by
    intro hfalse
    rw [hfalse]
    rfl
  rcases hindex with ⟨hstays, rfl⟩ | ⟨hpolicy, hin, rfl⟩
  · by_cases hbehind : victim ∈ l.scheduler.running.take (l.reqIndex + 1)
    · -- the last running request is the current one or ahead of it
      have hpolicy : l.scheduler.config.policy = .priority := by
        cases hpolicy : l.scheduler.config.policy with
        | priority => rfl
        | fcfs =>
            have hat := (hb.allocating r n hphase).2.2.2 hpolicy
            have hlast := (selectVictim_mem hvictim).2 hpolicy
            rw [List.getLast?_eq_getElem?] at hlast
            have hlt := (List.getElem?_eq_some_iff.mp hat).1
            have hle : l.scheduler.running.length - 1 ≤ l.reqIndex := by
              by_contra hfar
              refine not_mem_take_of_getElem? hnodup hlast (mem_take_mono ?_ hbehind)
              omega
            have heq : l.scheduler.running.length - 1 = l.reqIndex := by omega
            rw [heq, hat] at hlast
            exact absurd (Option.some.inj hlast).symm hother
      have hslips : l.slips victim = true := by
        have hout : victim ∉ l.scheduledRunningReqs := by
          rcases hstays with hfcfs | hout
          · rw [hpolicy] at hfcfs
            cases hfcfs
          · exact hout
        unfold slips
        simp [hpolicy, hout, hbehind]
      rw [if_pos hslips]
      exact h.slip hnodup hbehind
    · rw [hnot (by unfold slips; simp [hbehind]), List.append_nil]
      exact h.erase_ahead hbehind
  · have hbefore := (hb.first (by rw [hphase]; rfl)).2.2 victim hin
    have hpos : l.reqIndex ≠ 0 := by
      intro hzero
      rw [hzero] at hbefore
      exact List.not_mem_nil hbefore
    rw [hnot (by unfold slips; simp [hin]), List.append_nil]
    have hnext := h.erase_behind (mem_take_mono (Nat.le_succ _) hbefore)
    rwa [show l.reqIndex + 1 - 1 = l.reqIndex - 1 + 1 by omega] at hnext

/-- One step of the walk. -/
theorem Visited.walk {stride : Stride} (h : Visited strides l) (hb : Batch l)
    (hwalk : Walk l stride l') (hphase' : l'.phase.overRunning = true) :
    Visited (strides ++ [stride]) l' := by
  obtain ⟨-, hok, rfl⟩ := hwalk
  have hnodup := hb.partition.running_nodup
  -- a request is examined: what is running stays
  have hexamine : ∀ {r}, l.phase = .running → l.scheduler.running[l.reqIndex]? = some r →
      l'.scheduler.running = l.scheduler.running → l'.numPassed = l.reqIndex + 1 →
      Visited (strides ++ [l.stride]) l' := by
    intro r hphase hr hrunning hpassed
    have hstep : l.runningStep = .ok l' := by
      unfold advance at hok
      rwa [hphase] at hok
    obtain ⟨hbudget, -⟩ := runningStep_overRunning hstep hphase'
    have hstride : l.stride = ⟨some r, none, none⟩ := by
      unfold StepState.stride
      rw [hphase]
      simp only [if_neg hbudget, hr]
    have hbefore : l.numPassed = l.reqIndex := by
      unfold numPassed
      rw [hphase]
    rw [hstride]
    refine ⟨?_, fun r' hr' => ?_, fun r' hr' => ?_⟩
    · have hpassed₀ := h.passed
      rw [hbefore] at hpassed₀
      have hnext := hpassed₀.examine hnodup hr
      rw [hrunning, hpassed, examined_snoc, steppedOver_snoc, Option.toList_none, List.append_nil]
      exact hnext
    · rw [steppedOver_snoc, Option.toList_none, List.append_nil] at hr'
      rw [hrunning, victims_snoc, Option.toList_none, List.append_nil]
      exact h.missed r' hr'
    · rw [victims_snoc, Option.toList_none, List.append_nil] at hr'
      rw [hrunning]
      exact h.victims r' hr'
  cases advance_outcome hok with
  | rest hphase => rw [hphase] at hphase'; cases hphase'
  | enter hphase hover =>
      dsimp only at hphase'
      split at hphase'
      · cases hphase'
      · cases hphase'
  | @pass r cache budget hphase hr hnone =>
      refine hexamine hphase hr (by simp) ?_
      unfold numPassed
      dsimp only
      rw [hphase]
  | @takeUp r n inputs cache budget hphase hr hn hbudget hspec hlen =>
      exact hexamine hphase hr (by simp) rfl
  | @commit r n blocks kv hphase hfits =>
      have hstride : l.stride = ⟨none, none, none⟩ := by
        unfold StepState.stride
        rw [hphase]
        simp only [hfits]
      have hpassed₀ := h.passed
      rw [show l.numPassed = l.reqIndex + 1 by unfold numPassed; rw [hphase]] at hpassed₀
      rw [hstride]
      have hrunning := commitRunning_running l r n blocks kv
      refine ⟨?_, ?_, ?_⟩
      · rw [hrunning]
        change Passed _ (l.reqIndex + 1) _ _
        rw [examined_snoc, steppedOver_snoc, Option.toList_none, List.append_nil, List.append_nil]
        exact hpassed₀
      · rw [hrunning, steppedOver_snoc, victims_snoc, Option.toList_none, List.append_nil,
          List.append_nil]
        exact h.missed
      · rw [hrunning, victims_snoc, Option.toList_none, List.append_nil]
        exact h.victims
  | @preempt r victim n kv inBatch blocks scheduled inputs cache encoderBudget tokenBudget reqIndex
      loras hphase hdeclined hvictim hstatus hfree hbatch hinputs =>
      have hother : victim ≠ r := by
        rintro rfl
        rw [if_pos rfl] at hphase'
        cases hphase'
      have hmem := (selectVictim_mem hvictim).1
      have hpassed₀ := h.passed
      rw [show l.numPassed = l.reqIndex + 1 by unfold numPassed; rw [hphase]] at hpassed₀
      have hstride : l.stride = ⟨none, some victim,
          if l.slips victim = true then l.scheduler.running[l.reqIndex + 1]? else none⟩ := by
        unfold StepState.stride
        rw [hphase]
        simp only [hdeclined, hvictim, ne_eq, hother, not_false_eq_true, true_and]
      rw [hstride]
      have hlist := passed_preempt hb hphase hvictim hother
        (hbatch.imp (fun hkept => ⟨hkept.1, hkept.2.2.2.2.2⟩)
          fun hdropped => ⟨hdropped.1, hdropped.2.1, hdropped.2.2.2.2.2.2⟩) hpassed₀
      have hrunning := dropVictim_eq hnodup hvictim
      refine ⟨?_, fun r' hr' => ?_, fun r' hr' => ?_⟩
      · have hpassed : ∀ l'' : StepState H, l''.reqIndex = reqIndex →
            l''.phase = .allocating r n → l''.numPassed = reqIndex + 1 := by
          intro l'' hindex hphase''
          unfold numPassed
          rw [hphase'', hindex]
        rw [hpassed _ rfl (if_neg hother), examined_snoc, steppedOver_snoc]
        dsimp only
        rw [hrunning, Option.toList_none, List.append_nil]
        exact hlist
      · dsimp only
        rw [hrunning, victims_snoc, List.mem_append]
        rw [steppedOver_snoc, List.mem_append] at hr'
        by_cases hself : r' = victim
        · exact .inl (.inr (by rw [hself]; exact List.mem_singleton.mpr rfl))
        rw [List.mem_erase_of_ne hself]
        rcases hr' with hr' | hr'
        · exact (h.missed r' hr').imp_left .inl
        · right
          dsimp only at hr'
          rw [Option.mem_toList] at hr'
          split at hr'
          · exact List.mem_of_getElem? hr'
          · cases hr'
      · dsimp only
        rw [hrunning]
        rw [victims_snoc, List.mem_append] at hr'
        rcases hr' with hr' | hr'
        · exact fun hmem => h.victims r' hr' (List.mem_of_mem_erase hmem)
        · obtain rfl := List.mem_singleton.mp hr'
          exact hnodup.not_mem_erase
  | close hadmission hs => cases hphase'
  | setAside hadmission hs hfree hpop => cases hphase'
  | lookUp hadmission hs hpreempted hhits hexternal hrunning hn hbudget hlen => cases hphase'
  | decline hadmitting hdeclined => cases hphase'
  | accept hadmitting hfits hpop hstatus hconnector => cases hphase'

/-- The invariant of every walk. -/
theorem walk_visited {s : Scheduler H} (hpart : s.Partitioned)
    (hwalk : Run Walk (StepState.start s) strides l) (hphase : l.phase.overRunning = true) :
    Visited strides l := by
  refine hwalk.invariant (P := fun strides l => l.phase.overRunning = true → Visited strides l)
    (fun _ => Visited.start s) ?_ hphase
  intro strides l stride l' hbefore hvisited hstep hphase'
  exact (hvisited hstep.1).walk ((Walk.loops hbefore).batch hpart) hstep hphase'

omit [DecidableEq H] in
/-- Where the first loop ends at the end of the running requests, each of them was
examined once exactly when every request stepped over was preempted. -/
theorem Visited.once_iff (h : Visited strides l) (hend : l.AtEnd) :
    (∀ r ∈ l.scheduler.running, (examined strides).count r = 1) ↔
      ∀ r ∈ steppedOver strides, r ∈ StepState.victims strides := by
  obtain ⟨hphase, hlong⟩ := hend
  have hbehind := h.passed.behind
  rw [show l.numPassed = l.reqIndex by unfold numPassed; rw [hphase],
    List.take_of_length_le hlong] at hbehind
  constructor
  · intro honce r hr
    refine (h.missed r hr).resolve_right fun hrunning => ?_
    rcases hbehind r hrunning with ⟨hnot, -⟩ | ⟨-, hnone⟩
    · exact hnot hr
    · rw [honce r hrunning] at hnone
      cases hnone
  · intro hover r hrunning
    rcases hbehind r hrunning with ⟨-, honce⟩ | ⟨hr, -⟩
    · exact honce
    · exact absurd hrunning (h.victims r (hover r hr))

/-- Under first come, first served nothing is stepped over. -/
theorem steppedOver_fcfs {s : Scheduler H} (hfcfs : s.config.policy = .fcfs)
    (hwalk : Run Walk (StepState.start s) strides l) : steppedOver strides = [] := by
  refine hwalk.invariant (P := fun strides _ => steppedOver strides = []) rfl ?_
  intro strides l stride l' hbefore hnone hstep
  have hpolicy : l.scheduler.config.policy = .fcfs := by
    rw [(Loops.static (Walk.loops hbefore)).1]
    exact hfcfs
  have hslips : ∀ victim, l.slips victim = false := by
    intro victim
    unfold slips
    simp [hpolicy]
  rw [steppedOver_snoc, hnone, hstep.2.2]
  unfold StepState.stride
  split
  · rfl
  · split
    · simp [hslips]
    · rfl
  · rfl

/-- The walk from a point of the first loop on, until it ends. -/
def walkOn (l : StepState H) : ℕ → List Stride × StepState H
  | 0 => ([], l)
  | fuel + 1 =>
    if l.phase.overRunning = true then
      match l.advance with
      | .error _ => ([], l)
      | .ok l' =>
        if l'.phase.overRunning = true then (l.stride :: (l'.walkOn fuel).1, (l'.walkOn fuel).2)
        else ([], l)
    else ([], l)

theorem walkOn_run (l : StepState H) (fuel : ℕ) :
    Run Walk l (l.walkOn fuel).1 (l.walkOn fuel).2 := by
  induction fuel generalizing l with
  | zero => exact .nil
  | succ fuel ih =>
      unfold walkOn
      split
      · rename_i hphase
        split
        · exact .nil
        rename_i l' hok
        split
        · have hfirst : Run Walk l ([] ++ [l.stride]) l' := Run.nil.snoc ⟨hphase, hok, rfl⟩
          exact hfirst.append (ih l')
        · exact .nil
      · exact .nil

end StepState

namespace Scheduler

/-- In every state of a run, where the first loop of a call ends at the end of the running
requests, each of them was examined exactly once if and only if the loop preempted every
request that it stepped over. -/
theorem run_visits_iff {config : SchedulerConfig} {kvCacheConfig : KVCacheConfig}
    {enableCaching : Bool} {hashFn : HashInput H → H} {seed : ℕ}
    {connector : Option (SimSharedStoreConnector H)} {s₀ s : Scheduler H} {events : List Event}
    {strides : List StepState.Stride} {l : StepState H}
    (hinit : init config kvCacheConfig enableCaching hashFn seed connector = .ok s₀)
    (hrun : Run Step s₀ events s) (hwalk : Run StepState.Walk (StepState.start s) strides l)
    (hend : l.AtEnd) :
    (∀ r ∈ l.scheduler.running, (StepState.examined strides).count r = 1) ↔
      ∀ r ∈ StepState.steppedOver strides, r ∈ StepState.victims strides := by
  obtain ⟨hsettled₀, -, -⟩ := init_settled hinit
  have hsettled := run_settled hrun hsettled₀
  have hvisited := StepState.walk_visited hsettled.partition hwalk (by rw [hend.1]; rfl)
  exact hvisited.once_iff hend

/-- Chunks of a block, and an encoder cache of one image. -/
def stepOverConfig : SchedulerConfig :=
  { shortConfig .priority with
    maxNumScheduledTokens := 256
    maxModelLen := 384
    longPrefillTokenThreshold := 64
    maxNumScheduledTokens_pos := Nat.succ_pos 255 }

def stepOverKVConfig : KVCacheConfig where
  numBlocks := 6
  blockSize := 64
  kvCacheGroups := [⟨.fullAttention, 64, Nat.succ_pos 63, KVCacheSpec.fullAttention_window_pos⟩]
  uniform _ h := by rw [List.mem_singleton.mp h]
  blockSize_pos := Nat.succ_pos 63

/-- A prompt with an image of 256 tokens between two texts. -/
def stepOverArgs (requestId : RequestId) (before after : List TokenId) (identifier : String)
    (priority : ℤ) : RequestArgs :=
  { RequestArgs.text requestId (before ++ List.replicate 256 4 ++ after) 8 with
    priority := priority
    mmFeatures := [⟨identifier, before.length, 256, 256⟩] }

/-- Two requests with images begin, then two without. In the next call the second waits for the
encoder cache and the third needs a block. -/
def stepOverRun : Except PyError (Scheduler Digest × SchedulerOutput × Scheduler Digest ×
    Scheduler Digest × SchedulerOutput × Scheduler Digest × Scheduler Digest) := do
  let s₀ ← init stepOverConfig stepOverKVConfig true Digest.hash 0 none
  let first ← Request.init (stepOverArgs 1 [] (List.replicate 64 5) "a" 0)
  let second ← Request.init (stepOverArgs 2 (List.replicate 64 6) [7] "b" 1)
  let third ← Request.init (.text 3 (List.replicate 200 8) 8)
  let fourth ← Request.init (.text 4 (List.replicate 200 9) 8)
  let s₁ := s₀.addRequest first
  let (output₂, s₂) ← (s₁.addRequest second).schedule
  let (_, s₃) ← s₂.updateFromOutput output₂ (Engine.answerAll [(1, [], []), (2, [], [])])
  let s₄ := s₃.addRequest third
  let (output₅, s₅) ← (s₄.addRequest fourth).schedule
  let (_, s) ← s₅.updateFromOutput output₅
    (Engine.answerAll [(1, [], []), (3, [], []), (4, [], [])])
  return (s₁, output₂, s₃, s₄, output₅, s₅, s)

/-- The two states the run passes through that are of interest: after the first call, and at
its end. -/
theorem stepOverRun_ok : ∃ (s₀ s₁ s₂ : Scheduler Digest) (events events' : List Event),
    init stepOverConfig stepOverKVConfig true Digest.hash 0 none = .ok s₀ ∧
      Run Step s₀ events s₁ ∧ Run Step s₀ events' s₂ ∧
      (((StepState.start s₁).walkOn 40).2.AtEnd ∧
        ((StepState.start s₁).walkOn 40).2.scheduler.running = [1, 2] ∧
        StepState.steppedOver ((StepState.start s₁).walkOn 40).1 = []) ∧
      ((StepState.start s₂).walkOn 40).2.AtEnd ∧
        ((StepState.start s₂).walkOn 40).2.scheduler.running = [1, 3, 4] ∧
        StepState.examined ((StepState.start s₂).walkOn 40).1 = [1, 2, 3] := by
  obtain ⟨⟨s₁, output₂, s₃, s₄, output₅, s₅, s⟩, hrun, hcheck⟩ :=
    exists_of_okAnd (x := stepOverRun) (p := fun (s₁, _, s₃, s₄, _, _, s) =>
      decide (2 ∉ s₁.requests ∧ 3 ∉ s₃.requests ∧ 4 ∉ s₄.requests) &&
      decide (((StepState.start s₃).walkOn 40).2.phase = .running ∧
        ((StepState.start s₃).walkOn 40).2.scheduler.running.length ≤
          ((StepState.start s₃).walkOn 40).2.reqIndex ∧
        ((StepState.start s₃).walkOn 40).2.scheduler.running = [1, 2] ∧
        StepState.steppedOver ((StepState.start s₃).walkOn 40).1 = []) &&
      decide (((StepState.start s).walkOn 40).2.phase = .running ∧
        ((StepState.start s).walkOn 40).2.scheduler.running.length ≤
          ((StepState.start s).walkOn 40).2.reqIndex ∧
        ((StepState.start s).walkOn 40).2.scheduler.running = [1, 3, 4] ∧
        StepState.examined ((StepState.start s).walkOn 40).1 = [1, 2, 3])) (by decide +kernel)
  rw [Bool.and_eq_true, Bool.and_eq_true] at hcheck
  obtain ⟨⟨hfresh, hone⟩, htwo⟩ := hcheck
  obtain ⟨hfresh₂, hfresh₃, hfresh₄⟩ := of_decide_eq_true hfresh
  obtain ⟨hphase₁, hlong₁, hrunning₁, hover₁⟩ := of_decide_eq_true hone
  obtain ⟨hphase₂, hlong₂, hrunning₂, hseen₂⟩ := of_decide_eq_true htwo
  unfold stepOverRun at hrun
  obtain ⟨s₀, hinit, hrun⟩ := except_bind_iff.mp hrun
  obtain ⟨_, hfirst, hrun⟩ := except_bind_iff.mp hrun
  obtain ⟨_, hsecond, hrun⟩ := except_bind_iff.mp hrun
  obtain ⟨_, hthird, hrun⟩ := except_bind_iff.mp hrun
  obtain ⟨_, hfourth, hrun⟩ := except_bind_iff.mp hrun
  obtain ⟨⟨_, _⟩, hcall₁, hrun⟩ := except_bind_iff.mp hrun
  obtain ⟨⟨_, _⟩, hback₁, hrun⟩ := except_bind_iff.mp hrun
  obtain ⟨⟨_, _⟩, hcall₂, hrun⟩ := except_bind_iff.mp hrun
  obtain ⟨⟨_, _⟩, hback₂, hrun⟩ := except_bind_iff.mp hrun
  cases hrun
  obtain ⟨-, hnone, -⟩ := init_settled hinit
  have hfresh₁ : 1 ∉ s₀.requests := by
    rw [hnone]
    exact List.not_mem_nil
  have hbegin := (((Run.nil.snoc (Step.addRequest hfirst hfresh₁)).snoc
    (Step.addRequest hsecond hfresh₂)).snoc (Step.schedule hcall₁)).snoc
      (Step.updateFromOutput hback₁)
  have hall := (((hbegin.snoc (Step.addRequest hthird hfresh₃)).snoc
    (Step.addRequest hfourth hfresh₄)).snoc (Step.schedule hcall₂)).snoc
      (Step.updateFromOutput hback₂)
  exact ⟨s₀, s₃, s, _, _, hinit, hbegin, hall, ⟨⟨hphase₁, hlong₁⟩, hrunning₁, hover₁⟩,
    ⟨hphase₂, hlong₂⟩, hrunning₂, hseen₂⟩

/-- Nothing is stepped over in the second call, although one request gets nothing. -/
theorem run_visits_iff_two : ∃ (s : Scheduler Digest) (strides : List StepState.Stride)
    (l : StepState Digest), Run StepState.Walk (StepState.start s) strides l ∧
      l.scheduler.running = [1, 2] ∧
      ∀ r ∈ l.scheduler.running, (StepState.examined strides).count r = 1 := by
  obtain ⟨s₀, s, -, events, -, hinit, hrun, -, ⟨hend, hrunning, hover⟩, -⟩ := stepOverRun_ok
  have hwalk := StepState.walkOn_run (StepState.start s) 40
  refine ⟨s, _, _, hwalk, hrunning, (run_visits_iff hinit hrun hwalk hend).mpr fun r hr => ?_⟩
  rw [hover] at hr
  exact absurd hr List.not_mem_nil

/-- The fourth request is running at the end of the loop, which never examined it. -/
theorem stepOverRun_unvisited : ∃ (s₀ s : Scheduler Digest) (events : List Event)
    (strides : List StepState.Stride) (l : StepState Digest),
    init stepOverConfig stepOverKVConfig true Digest.hash 0 none = .ok s₀ ∧
      Run Step s₀ events s ∧ Run StepState.Walk (StepState.start s) strides l ∧ l.AtEnd ∧
      4 ∈ l.scheduler.running ∧ (StepState.examined strides).count 4 = 0 := by
  obtain ⟨s₀, -, s, -, events, hinit, -, hrun, -, hend, hrunning, hseen⟩ := stepOverRun_ok
  have hwalk := StepState.walkOn_run (StepState.start s) 40
  refine ⟨s₀, s, events, _, _, hinit, hrun, hwalk, hend, ?_, ?_⟩
  · rw [hrunning]
    decide
  · rw [hseen]
    decide

end Scheduler

end Pvllm
