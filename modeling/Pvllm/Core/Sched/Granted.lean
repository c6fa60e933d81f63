import Pvllm.Core.Sched.Loads
import Pvllm.Core.Sched.Survivors

/-!
What a call of `schedule` grants the running requests.

At any point of a call a running request has been passed over so far, has been given
slots once, or has come in from the queue, with what was cached for it. Everything
else a call does to the manager leaves its tables alone. `Granted` says so, and the
facts about the tables of running requests are read off it.
-/

namespace Pvllm

variable {H : Type} [DecidableEq H]

open KVCacheManager (Continues)

/-- What a call that began at `s` has granted a running request: the tokens of its
step, if any, from the count it stands at, with the tables of the manager `m`. -/
inductive Granted (s : Scheduler H) (r : RequestId) :
    Option ℕ → ℕ → KVCacheManager H → Prop
  /-- Nothing so far. -/
  | passed {m : KVCacheManager H} (hrunning : r ∈ s.running)
      (hcontinues : Continues s.kvCacheManager m)
      (htables : m.getBlocks r = s.kvCacheManager.getBlocks r) :
      Granted s r none (s.request r).numComputedTokens m
  /-- Slots for `n` tokens, behind its tables. -/
  | grown {m₁ m₂ m : KVCacheManager H} {request : Request H} {n : ℕ}
      {blocks : List (List BlockId)} (hrunning : r ∈ s.running)
      (hbefore : Continues s.kvCacheManager m₁)
      (htables : m₁.getBlocks r = s.kvCacheManager.getBlocks r)
      (hrequest : (s.request r).Reworks request) (hid : request.requestId = r)
      (hcount : request.numComputedTokens = (s.request r).numComputedTokens) (hn : 0 < n)
      (hok : m₁.allocateSlots request n 0 none 0 false = .ok (some blocks, m₂))
      (hafter : Continues m₂ m) (hsame : m.getBlocks r = m₂.getBlocks r) :
      Granted s r (some n) (s.request r).numComputedTokens m
  /-- It came in, with what was cached for it and slots for `n` tokens. -/
  | entered {m₀ m₁ m₂ m : KVCacheManager H} {request : Request H}
      {hits blocks : List (List BlockId)} {numLocal numExternal n : ℕ}
      (hwaiting : r ∈ s.requests) (hnew : r ∉ s.running)
      (hbefore : Continues s.kvCacheManager m₀)
      (hrequest : (s.request r).Reworks request) (hid : request.requestId = r)
      (hcount : request.numComputedTokens = 0) (hidle : m₁.Idle r)
      (hhits : m₀.getComputedBlocks request = .ok ((hits, numLocal), m₁)) (hn : 0 < n)
      (hok : m₁.allocateSlots request n (numLocal + numExternal) (some hits) 0 false =
        .ok (some blocks, m₂))
      (hafter : Continues m₂ m) (hsame : m.getBlocks r = m₂.getBlocks r) :
      Granted s r (some n) (numLocal + numExternal) m

namespace Granted

variable {s : Scheduler H} {r : RequestId} {scheduled : Option ℕ} {count : ℕ}
  {m m' : KVCacheManager H}

/-- What leaves the tables of a request alone leaves what it was granted. -/
theorem later (h : Granted s r scheduled count m) (hcontinues : Continues m m')
    (hsame : m'.getBlocks r = m.getBlocks r) : Granted s r scheduled count m' := by
  cases h with
  | passed hrunning hbefore htables =>
      exact .passed hrunning (hbefore.trans hcontinues) (hsame.trans htables)
  | grown hrunning hbefore htables hrequest hid hcount hn hok hafter heq =>
      exact .grown hrunning hbefore htables hrequest hid hcount hn hok (hafter.trans hcontinues)
        (hsame.trans heq)
  | entered hwaiting hnew hbefore hrequest hid hcount hidle hhits hn hok hafter heq =>
      exact .entered hwaiting hnew hbefore hrequest hid hcount hidle hhits hn hok
        (hafter.trans hcontinues) (hsame.trans heq)

end Granted

namespace StepState

variable {s : Scheduler H} {l l' : StepState H}

/-- What has been granted at a point of a call, and where the hits of the request at
the head of the queue come from. -/
structure Granting (s : Scheduler H) (l : StepState H) : Prop where
  batch : Batch l
  newcomers : Newcomers s l
  reworks : ∀ r, (s.request r).Reworks (l.scheduler.request r)
  requests : l.scheduler.requests = s.requests
  continues : Continues s.kvCacheManager l.scheduler.kvCacheManager
  granted : ∀ r ∈ l.scheduler.running, Granted s r (l.numScheduledTokens.find r)
    (l.scheduler.request r).numComputedTokens l.scheduler.kvCacheManager
  found : ∀ r hits numLocal numExternal n inputs,
    l.phase = .admitting r hits numLocal numExternal n inputs → ∃ m,
      Continues s.kvCacheManager m ∧ m.getComputedBlocks (l.scheduler.request r) =
        .ok ((hits, numLocal), l.scheduler.kvCacheManager)

/-- A step after which a request runs on as it was, up to the manager. -/
theorem Granting.others (hg : Granting s l) (h : Outcome l l') {r : RequestId}
    (hrunning : r ∈ l.scheduler.running)
    (hfind : l'.numScheduledTokens.find r = l.numScheduledTokens.find r)
    (hcount : (l'.scheduler.request r).numComputedTokens =
      (l.scheduler.request r).numComputedTokens)
    (hsame : l'.scheduler.kvCacheManager.getBlocks r = l.scheduler.kvCacheManager.getBlocks r) :
    Granted s r (l'.numScheduledTokens.find r) (l'.scheduler.request r).numComputedTokens
      l'.scheduler.kvCacheManager := by
  rw [hfind, hcount]
  exact (hg.granted r hrunning).later (h.continues hg.batch) hsame

theorem Outcome.found (h : Outcome l l') {r : RequestId} {hits : List (List BlockId)}
    {numLocal numExternal n : ℕ} {inputs : List ℕ}
    (hphase' : l'.phase = .admitting r hits numLocal numExternal n inputs) :
    l.scheduler.kvCacheManager.getComputedBlocks (l'.scheduler.request r) =
      .ok ((hits, numLocal), l'.scheduler.kvCacheManager) := by
  cases h with
  | rest hphase =>
      rw [hphase] at hphase'
      cases hphase'
  | enter hphase =>
      dsimp only at hphase'
      split at hphase' <;> cases hphase'
  | pass hphase hr =>
      dsimp only at hphase'
      rw [hphase] at hphase'
      cases hphase'
  | takeUp hphase hr hn hbudget hspec hlen => cases hphase'
  | commit hphase hok =>
      unfold commitRunning at hphase'
      cases hphase'
  | preempt hphase hok hvictim hstatus hfree hbatch hinputs =>
      dsimp only at hphase'
      split at hphase' <;> cases hphase'
  | close hphase hs => cases hphase'
  | setAside hphase hs hfree hpop => cases hphase'
  | decline hphase hok => cases hphase'
  | accept hphase hok hpop hstatus hconnector => cases hphase'
  | lookUp hphase hs hpreempted hhits hexternal hrunning hn hbudget hlen =>
      obtain ⟨rfl, rfl, rfl, -, -, -⟩ := Phase.admitting.inj hphase'
      exact hhits

/-- What the running requests have been granted, a step of the loops further on. -/
theorem Outcome.granted (h : Outcome l l') (hg : Granting s l) :
    ∀ r ∈ l'.scheduler.running, Granted s r (l'.numScheduledTokens.find r)
      (l'.scheduler.request r).numComputedTokens l'.scheduler.kvCacheManager := by
  have hb := hg.batch
  have horder := hb.partition.order
  have hothers := fun r => hg.others (r := r) h
  intro r₁ hr₁
  cases h with
  | rest hphase => exact hg.granted r₁ hr₁
  | enter hphase => exact hg.granted r₁ hr₁
  | pass hphase hr =>
      rw [disableSpeculation_frame] at hr₁
      refine hothers r₁ hr₁ rfl (disableSpeculation_numComputedTokens ..) ?_
      rw [disableSpeculation_frame]
  | takeUp hphase hr hn hbudget hspec hlen =>
      rw [disableSpeculation_frame] at hr₁
      refine hothers r₁ hr₁ rfl (disableSpeculation_numComputedTokens ..) ?_
      rw [disableSpeculation_frame]
  | @commit r n blocks kv hphase hok =>
      have hover : l.phase.overRunning = true := by rw [hphase]; rfl
      obtain ⟨hn, hnot, htake, -⟩ := hb.allocating r n hphase
      have hscheduled : (l.commitRunning r n blocks kv).numScheduledTokens =
        l.numScheduledTokens.store r n := rfl
      obtain ⟨-, htables⟩ := allocateSlots_others horder (fun _ heq => by cases heq) hok
      rw [hb.partition.requestId] at htables
      rw [commitRunning_running] at hr₁
      by_cases heq : r₁ = r
      · -- it had nothing yet, and is given its slots
        subst heq
        have hfind : l.numScheduledTokens.find r₁ = none := by
          rw [Dict.find_eq_none_iff, hb.keys, hb.batch_eq hover]
          exact hnot
        have hgrant := hg.granted r₁ (List.mem_of_mem_take htake)
        rw [hfind] at hgrant
        rw [hscheduled, Dict.find_store, if_pos rfl, commitRunning_request]
        show Granted s r₁ (some n)
          (Function.update l.scheduler.request r₁ _ r₁).numComputedTokens kv
        rw [Function.update_self]
        show Granted s r₁ (some n) (l.scheduler.request r₁).numComputedTokens kv
        generalize hcount : (l.scheduler.request r₁).numComputedTokens = count at hgrant ⊢
        cases hgrant with
        | passed hrunning hbefore hsame =>
            exact .grown hrunning hbefore hsame (hg.reworks r₁) (hb.partition.requestId r₁) hcount
              hn hok (.refl (allocateSlots_others horder (fun _ heq => by cases heq) hok).1) rfl
      · refine hothers r₁ hr₁ ?_ ?_ ?_
        · rw [hscheduled, Dict.find_store, if_neg heq]
        · rw [commitRunning_request]
          show (Function.update l.scheduler.request r _ r₁).numComputedTokens = _
          rw [Function.update_of_ne heq]
        · rw [commitRunning_request]
          exact htables r₁ heq
  | @preempt r victim n kv inBatch blocks scheduled inputs cache encoderBudget tokenBudget reqIndex
      loras hphase hok hvictim hstatus hfree hbatch hinputs =>
      rw [dropVictim_eq hb.partition.running_nodup hvictim] at hr₁
      have hne : r₁ ≠ victim := fun heq => hb.partition.running_nodup.not_mem_erase (heq ▸ hr₁)
      refine hothers r₁ (List.mem_of_mem_erase hr₁) ?_ ?_ ?_
      · exact (hb.drops hphase hvictim hbatch).find r₁ hne
      · show (Function.update l.scheduler.request victim _ r₁).numComputedTokens = _
        rw [Function.update_of_ne hne]
      · obtain ⟨free, horder⟩ := horder
        exact KVCacheManager.free_getBlocks_of_ne horder hfree hne
  | close hphase hs =>
      rcases hs with rfl | ⟨r, hs⟩
      · exact hg.granted r₁ hr₁
      · exact hothers r₁ (hs.running_eq ▸ hr₁) rfl (hs.counts r₁).1 (hs.getBlocks horder r₁)
  | @setAside s' r kv waiting budget hphase hs hfree hpop =>
      have hr₁' : r₁ ∈ l.scheduler.running := hs.running_eq ▸ hr₁
      refine hothers r₁ hr₁' rfl (hs.counts r₁).1 ?_
      rcases hfree with rfl | hfree
      · exact hs.getBlocks horder r₁
      · obtain ⟨free, horder'⟩ := (hs.continues horder).order
        exact (KVCacheManager.free_getBlocks_of_ne horder' hfree (hb.ne_head hs.head hr₁')).trans
          (hs.getBlocks horder r₁)
  | lookUp hphase hs hpreempted hhits hexternal hrunning hn hbudget hlen =>
      exact hothers r₁ (hs.running_eq ▸ hr₁) rfl (hs.counts r₁).1 (hs.getBlocks horder r₁)
  | decline hphase hok => exact hg.granted r₁ hr₁
  | @accept r r' hits blocks numLocal numExternal n inputs kv waiting connector loras hphase hok
      hpop hstatus hconnector =>
      obtain ⟨hn, hhead, hhits⟩ := hb.admitting _ _ _ _ _ _ hphase
      obtain rfl := RequestQueue.head_of_pop hhead hpop
      obtain ⟨m, hbefore, hlookup⟩ := hg.found _ _ _ _ _ _ hphase
      obtain ⟨horder', htables⟩ := allocateSlots_others horder
        (fun _ heq => Option.some.inj heq ▸ hhits) hok
      rw [hb.partition.requestId] at htables
      have hwaiting : r' ∈ l.scheduler.queued :=
        List.mem_append_left _ (List.mem_of_mem_head? hhead)
      by_cases heq : r₁ = r'
      · subst heq
        show Granted s r₁ ((l.numScheduledTokens.store r₁ n).find r₁)
          (Function.update l.scheduler.request r₁ _ r₁).numComputedTokens kv
        rw [Dict.find_store, if_pos rfl, Function.update_self]
        have hstay := hg.newcomers.stay (hb.second (by rw [hphase]; rfl))
        refine .entered ?_
          (fun hwas => hb.partition.not_running_of_waiting hwaiting (hstay r₁ hwas))
          hbefore (hg.reworks r₁) (hb.partition.requestId r₁)
          (hb.partition.queued r₁ hwaiting).numComputedTokens
          (hb.partition.idle r₁ (hb.partition.not_running_of_waiting hwaiting)) hlookup hn hok
          (.refl horder') rfl
        rw [← hg.requests]
        exact hb.partition.known_of_waiting hwaiting
      · have hold : r₁ ∈ l.scheduler.running :=
          (List.mem_append.mp hr₁).resolve_right fun hself => heq (List.mem_singleton.mp hself)
        refine hothers r₁ hold ?_ ?_ (htables r₁ heq)
        · show (l.numScheduledTokens.store r' n).find r₁ = _
          rw [Dict.find_store, if_neg heq]
        · show (Function.update l.scheduler.request r' _ r₁).numComputedTokens = _
          rw [Function.update_of_ne heq]

theorem Outcome.granting (h : Outcome l l') (hg : Granting s l) : Granting s l' where
  batch := h.batch hg.batch
  newcomers := h.newcomers hg.batch hg.newcomers
  reworks r := (hg.reworks r).trans (h.reworks r)
  requests := h.static.2.1.trans hg.requests
  continues := hg.continues.trans (h.continues hg.batch)
  granted := h.granted hg
  found _ _ _ _ _ _ hphase := ⟨_, hg.continues, h.found hphase⟩

theorem granting_start (hpart : s.Partitioned) : Granting s (start s) where
  batch := batch_start hpart
  newcomers := ⟨fun _ _ hr => hr, fun _ hr => absurd hr List.not_mem_nil⟩
  reworks _ := .refl _
  requests := rfl
  continues := .refl hpart.order
  granted _ hr := .passed hr (.refl hpart.order) rfl
  found _ _ _ _ _ _ hphase := by cases hphase

theorem Loops.granting (hpart : s.Partitioned) (hloops : Loops (start s) l) : Granting s l :=
  hloops.invariant (granting_start hpart) fun _ _ hstep hg => hstep.granting hg

end StepState

/-- What a call has granted those that run after it. -/
theorem Scheduler.schedule_granted {s s' : Scheduler H} {output : SchedulerOutput}
    (h : s.Partitioned) (hok : s.schedule = .ok (output, s')) :
    ∀ r ∈ s'.running, ∃ count, Granted s r (output.numScheduledTokens.find r) count
      s'.kvCacheManager ∧ (s'.request r).numComputedTokens =
        count + (output.numScheduledTokens.find r).getD 0 := by
  obtain ⟨l, hloops, -, hfinishes⟩ := schedule_ok hok
  have hg := hloops.granting h
  intro r hr
  rw [hfinishes.state, StepState.restoreSkippedWaiting_frame] at hr ⊢
  rw [hfinishes.scheduled]
  refine ⟨_, hg.granted r hr, ?_⟩
  dsimp only
  cases hfind : l.numScheduledTokens.find r with
  | none => rw [advancedTable_of_not_mem ((Dict.find_eq_none_iff ..).mp hfind)]; rfl
  | some n =>
      rw [Dict.find] at hfind
      rw [StepState.advancedTable, hfind]
      rfl

end Pvllm
