import Pvllm.Core.Sched.Exactness
import Pvllm.Core.Sched.Holding
import Pvllm.Sim.Memory
import Mathlib.Algebra.Order.BigOperators.Group.List
import Mathlib.Algebra.Order.Ring.Nat

/-!
What a request takes of the pool at its peak.

Shedding comes after the step that computes, so a table is at its longest while the
step is in flight: a window, or a recurrent state, and behind it as many tokens as
a step may have. A request that runs on its own finds its slots in any pool that
holds that much in every group.
-/

namespace Pvllm

theorem ceilDiv_mono {n n' d : ℕ} (hd : 0 < d) (h : n ≤ n') : ceilDiv n d ≤ ceilDiv n' d :=
  (ceilDiv_le_iff hd).mpr (h.trans ((ceilDiv_le_iff hd).mp le_rfl))

namespace KVCacheSpec

variable (spec : KVCacheSpec)

/-- Blocks one request takes of a group at its peak, with up to `chunk` tokens in flight. -/
def peakBlocks (maxModelLen chunk : ℕ) : ℕ :=
  match spec.kind with
  | .fullAttention => ceilDiv maxModelLen spec.blockSize
  | .slidingWindow window =>
    min (windowedBlocksForOneRequest window spec.blockSize maxModelLen chunk)
      (ceilDiv maxModelLen spec.blockSize)
  | .mamba => stateBlocksForOneRequest spec.blockSize maxModelLen chunk

variable {spec} {n chunk maxModelLen : ℕ}

theorem le_add_of_shed {tokens room : ℕ} (htokens : tokens ≤ maxModelLen)
    (hroom : tokens ≤ (spec.numSkippedBlocks n + 1) * spec.blockSize + room) :
    ceilDiv tokens spec.blockSize ≤ spec.numSkippedBlocks n +
      (ceilDiv (min room maxModelLen) spec.blockSize + 1) := by
  have hpos := spec.blockSize_pos
  have hceil := (ceilDiv_le_iff (n := min room maxModelLen) hpos).mp le_rfl
  rw [ceilDiv_le_iff hpos, ← Nat.add_assoc, Nat.add_right_comm, Nat.add_mul]
  rcases min_choice room maxModelLen with heq | heq
  · rw [heq] at hceil ⊢
    omega
  · rw [heq] at hceil ⊢
    exact htokens.trans (hceil.trans (Nat.le_add_left ..))

/-- No table takes more than a peak behind what is shed. -/
theorem ceilDiv_le_peak : ceilDiv (min (n + chunk) maxModelLen) spec.blockSize ≤
    spec.numSkippedBlocks n + spec.peakBlocks maxModelLen chunk := by
  have hpos := spec.blockSize_pos
  have hwhole : ceilDiv (min (n + chunk) maxModelLen) spec.blockSize ≤
      ceilDiv maxModelLen spec.blockSize := ceilDiv_mono hpos (min_le_right ..)
  have hfirst : ¬ spec.numSkippedBlocks n < spec.numSkippedBlocks n := lt_irrefl _
  rw [lt_numSkippedBlocks_iff] at hfirst
  unfold peakBlocks
  cases hkind : spec.kind with
  | fullAttention => exact hwhole.trans (Nat.le_add_left ..)
  | slidingWindow window =>
      rw [hkind] at hfirst
      dsimp only at hfirst ⊢
      have hwindow := spec.window_pos window hkind
      have hroom : ceilDiv (min (n + chunk) maxModelLen) spec.blockSize ≤
          spec.numSkippedBlocks n +
            (ceilDiv (min (window - 1 + chunk) maxModelLen) spec.blockSize + 1) :=
        le_add_of_shed (min_le_right ..) (by omega)
      unfold windowedBlocksForOneRequest
      dsimp only
      omega
  | mamba =>
      rw [hkind] at hfirst
      dsimp only at hfirst ⊢
      have hroom : ceilDiv (min (n + chunk) maxModelLen) spec.blockSize ≤
          spec.numSkippedBlocks n + (ceilDiv (min chunk maxModelLen) spec.blockSize + 1) :=
        le_add_of_shed (min_le_right ..) (by omega)
      unfold stateBlocksForOneRequest
      dsimp only
      omega

end KVCacheSpec

variable {H : Type} [DecidableEq H]

/-! ### One table -/

section Table

variable {pool : BlockPool H} {spec : KVCacheSpec} {blocks : List BlockId} {n : ℕ}

omit [DecidableEq H]

theorem numHeld_le_of_gone (hgone : ∀ b ∈ blocks.take n, (pool.blocks b).isNull = true) :
    numHeld pool blocks ≤ blocks.length - n := by
  have hnone : (blocks.take n).countP (fun b => !(pool.blocks b).isNull) = 0 := by
    rw [List.countP_eq_zero]
    intro b hb
    rw [hgone b hb]
    exact Bool.false_ne_true
  rw [numHeld, ← List.take_append_drop n blocks, List.countP_append, hnone, Nat.zero_add,
    List.take_append_drop, ← List.length_drop]
  exact List.countP_le_length

theorem Shed.gone (h : Shed pool spec n blocks) :
    ∀ b ∈ blocks.take (spec.numSkippedBlocks n), (pool.blocks b).isNull = true := by
  intro b hb
  obtain ⟨i, hi⟩ := List.getElem?_of_mem hb
  obtain ⟨hlt, hi⟩ := getElem?_of_take hi
  exact h i b hi hlt

theorem numEvictable_le : SingleTypeKVCacheManager.numEvictable pool blocks ≤
    numHeld pool blocks := by
  unfold SingleTypeKVCacheManager.numEvictable numHeld
  rw [← List.countP_eq_length_filter]
  refine List.countP_mono_left fun b _ hb => ?_
  obtain ⟨-, hnull⟩ := of_decide_eq_true hb
  rw [hnull]
  rfl

end Table

namespace KVCacheManager

open KVCacheCoordinator SingleTypeKVCacheManager

variable {m m' : KVCacheManager H} {free free' : List BlockId} {request : Request H}
  {r : RequestId} {n n' k chunk lookahead : ℕ} {per : List (List BlockId)}

/-! ### How far the tables reach -/

/-- The tables of a request are no longer than `n` tokens take. -/
def Within (m : KVCacheManager H) (r : RequestId) (n : ℕ) : Prop :=
  ∀ manager ∈ m.singleTypeManagers, (manager.getBlocks r).length ≤
    ceilDiv (min n m.maxModelLen) manager.kvCacheSpec.blockSize

omit [DecidableEq H] in
theorem Within.mono (h : m.Within r n) (hle : n ≤ n') : m.Within r n' := fun manager hm =>
  (h manager hm).trans (ceilDiv_mono manager.kvCacheSpec.blockSize_pos (min_le_min_right _ hle))

omit [DecidableEq H] in
theorem Within.of_idle (h : m.Idle r) : m.Within r n := fun manager hm => by
  rw [h manager hm]
  exact Nat.zero_le _

omit [DecidableEq H] in
theorem HasShed.of_idle (h : m.Idle r) : m.HasShed r n := fun manager hm => by
  rw [h manager hm]
  intro i b hb
  rw [List.getElem?_nil] at hb
  cases hb

omit [DecidableEq H] in
theorem Within.congr (h : m.Within r n) (hs : SameSetup m m')
    (heq : m'.getBlocks r = m.getBlocks r) : m'.Within r n := by
  unfold Within
  rw [hs.maxModelLen]
  exact tables_congr (P := fun spec blocks =>
    blocks.length ≤ ceilDiv (min n m.maxModelLen) spec.blockSize) hs heq h

/-- Slots for tokens that are within `n` leave the tables within it. -/
theorem Within.allocates {news : List (List BlockId)} {numTokens : ℕ} {published : Option ℕ}
    {adopted : List SingleTypeKVCacheManager} {mid : BlockPool H} (h : m.InOrder free)
    (hwithin : m.Within request.requestId n)
    (hhits : List.Forall₂ (fun manager blocks => blocks.length ≤
      ceilDiv (min n m.maxModelLen) manager.kvCacheSpec.blockSize) m.singleTypeManagers per)
    (hslots : numTokens ≤ min n m.maxModelLen)
    (halloc : Allocates m m' free free' request per news numTokens published adopted mid) :
    m'.Within request.requestId n := by
  have hadopted : ∀ manager ∈ adopted, (manager.getBlocks request.requestId).length ≤
      ceilDiv (min n m.maxModelLen) manager.kvCacheSpec.blockSize := by
    rcases halloc.adopted_eq with ⟨-, rfl⟩ | ⟨-, -, -, rfl⟩
    · exact hwithin
    · intro manager hm
      obtain ⟨i, hi, rfl⟩ := List.mem_iff_getElem.mp hm
      rw [List.length_zipWith, lt_min_iff] at hi
      have hhit := (List.forall₂_iff_get.mp hhits).2 i hi.1 hi.2
      rwa [List.getElem_zipWith, SingleTypeKVCacheManager.getBlocks_setBlocks, if_pos rfl]
  intro manager' hm'
  obtain ⟨manager, hm, new, hspec, htable, hlength, -⟩ := halloc.table h hm'
  have hmissing := ceilDiv_mono manager.kvCacheSpec.blockSize_pos hslots
  have hlong := hadopted manager hm
  rw [halloc.setup.maxModelLen, hspec, htable, List.length_append, hlength,
    SingleTypeKVCacheManager.numMissingBlocks]
  omega

/-! ### A request on its own -/

def peakBlocks (m : KVCacheManager H) (chunk : ℕ) : ℕ :=
  (m.singleTypeManagers.map fun manager =>
    manager.kvCacheSpec.peakBlocks m.maxModelLen chunk).sum

omit [DecidableEq H] in
theorem card_held_le {pool : BlockPool H} {managers : List SingleTypeKVCacheManager}
    (halone : ∀ manager ∈ managers, ∀ r', r' ≠ r → manager.getBlocks r' = []) :
    ((heldBlocks managers).filter fun b => (pool.blocks b).isNull = false).card ≤
      (managers.map fun manager => numHeld pool (manager.getBlocks r)).sum := by
  induction managers with
  | nil => simp
  | cons manager managers ih =>
      obtain ⟨hfirst, hrest⟩ := List.forall_mem_cons.mp halone
      have hpop : (manager.popBlocks r).held = 0 := by
        refine Dict.total_eq_zero fun r' blocks hfind => ?_
        have htable : (manager.popBlocks r).getBlocks r' = blocks := by
          rw [SingleTypeKVCacheManager.getBlocks, Dict.findD, hfind]
          rfl
        rw [SingleTypeKVCacheManager.getBlocks_popBlocks] at htable
        split at htable
        · rw [← htable]
          rfl
        · rename_i hr
          rw [← htable, hfirst r' hr]
          rfl
      have hheld := manager.held_popBlocks r
      rw [hpop, zero_add] at hheld
      have hcount : (((manager.getBlocks r : List BlockId) : Multiset BlockId).filter fun b =>
          (pool.blocks b).isNull = false).card = numHeld pool (manager.getBlocks r) := by
        rw [Multiset.filter_coe, Multiset.coe_card, numHeld, List.countP_eq_length_filter]
        congr 2
        funext b
        cases (pool.blocks b).isNull <;> rfl
      rw [heldBlocks_cons, ← hheld, Multiset.filter_add, Multiset.card_add, hcount, List.map_cons,
        List.sum_cons]
      exact Nat.add_le_add_left (ih hrest) _

omit [DecidableEq H] in
/-- What is missing, the hits in the queue and what is held are together no more than
a request takes at its peak. -/
theorem shortage_le_peak {pool : BlockPool H} {numTokens window : ℕ}
    {managers : List SingleTypeKVCacheManager} (hslots : numTokens ≤ min (n + chunk) window)
    (hstands : List.Forall₂ (fun manager blocks =>
      numHeld pool blocks + numHeld pool (manager.getBlocks r) +
          manager.kvCacheSpec.numSkippedBlocks n ≤
        blocks.length + (manager.getBlocks r).length ∧
      blocks.length + (manager.getBlocks r).length ≤
        ceilDiv (min (n + chunk) window) manager.kvCacheSpec.blockSize) managers per) :
    shortage r numTokens managers per +
        numEvictable pool per.flatten +
          (managers.map fun manager => numHeld pool (manager.getBlocks r)).sum ≤
      (managers.map fun manager => manager.kvCacheSpec.peakBlocks window chunk).sum := by
  induction hstands with
  | nil => simp [shortage, SingleTypeKVCacheManager.numEvictable]
  | @cons manager blocks managers per hfirst _ ih =>
      have hshortage : shortage r numTokens (manager :: managers) (blocks :: per) =
          ceilDiv numTokens manager.kvCacheSpec.blockSize -
              (blocks.length + (manager.getBlocks r).length) +
            shortage r numTokens managers per := rfl
      have hevictable : numEvictable pool (blocks :: per).flatten =
          numEvictable pool blocks +
            numEvictable pool per.flatten := by
        simp [SingleTypeKVCacheManager.numEvictable]
      have hfew := @numEvictable_le _ pool blocks
      have hceil := ceilDiv_mono manager.kvCacheSpec.blockSize_pos hslots
      have hpeak := @KVCacheSpec.ceilDiv_le_peak manager.kvCacheSpec n chunk window
      simp only [hshortage, hevictable, List.map_cons, List.sum_cons]
      omega

/-- How the tables and the hits of a request stand that asks for slots. -/
theorem Fitting.stands (hfitting : m.Fitting request n per)
    (hshed : m.HasShed request.requestId n) (hwithin : m.Within request.requestId (n + chunk))
    (hwindow : n ≤ m.maxModelLen) :
    List.Forall₂ (fun manager blocks =>
      numHeld m.blockPool blocks + numHeld m.blockPool (manager.getBlocks request.requestId) +
          manager.kvCacheSpec.numSkippedBlocks n ≤
        blocks.length + (manager.getBlocks request.requestId).length ∧
      blocks.length + (manager.getBlocks request.requestId).length ≤
        ceilDiv (min (n + chunk) m.maxModelLen) manager.kvCacheSpec.blockSize)
      m.singleTypeManagers per := by
  have hboth := (List.forall₂_and_left _ _).mpr ⟨fun _ hm => hm, hfitting.reaches⟩
  rcases hfitting.place with rfl | ⟨-, hidle⟩
  · unfold emptyBlocks at hboth ⊢
    rw [List.forall₂_map_right_iff, List.forall₂_same] at hboth ⊢
    intro manager hm
    obtain ⟨-, hcovers, -⟩ := hboth manager hm
    have hheld := numHeld_le_of_gone (hshed manager hm).gone
    have hlong := hwithin manager hm
    have hnil : numHeld m.blockPool [] = 0 := rfl
    rw [List.length_nil] at hcovers ⊢
    change manager.kvCacheSpec.numSkippedBlocks n ≤ _ at hcovers
    omega
  · obtain ⟨hlen, hreaches⟩ := List.forall₂_iff_get.mp hboth
    obtain ⟨-, hcomputed⟩ := List.forall₂_iff_get.mp hfitting.computed
    refine List.forall₂_iff_get.mpr ⟨hlen, fun i hi hi' => ?_⟩
    obtain ⟨hm, hcovers, hgone⟩ := hreaches i hi hi'
    have hlength := hcomputed i hi hi'
    generalize m.singleTypeManagers.get ⟨i, hi⟩ = manager at hm hcovers hgone hlength ⊢
    generalize per.get ⟨i, hi'⟩ = blocks at hcovers hgone hlength ⊢
    have hpos := manager.kvCacheSpec.blockSize_pos
    rw [hidle manager hm] at hcovers hgone ⊢
    rw [List.length_nil, Nat.sub_zero] at hgone
    have hheld := numHeld_le_of_gone hgone
    have hnil : numHeld m.blockPool [] = 0 := rfl
    have hslots := (ceilDiv_le_iff (n := min (n + chunk) m.maxModelLen) hpos).mp le_rfl
    have hlong : blocks.length ≤
        ceilDiv (min (n + chunk) m.maxModelLen) manager.kvCacheSpec.blockSize := by
      refine Nat.le_of_mul_le_mul_right (hlength.trans (le_trans ?_ hslots)) hpos
      exact le_min (Nat.le_add_right ..) hwindow
    rw [List.length_nil] at hcovers ⊢
    change manager.kvCacheSpec.numSkippedBlocks n ≤ _ at hcovers
    change _ ≤ _ - manager.kvCacheSpec.numSkippedBlocks n at hheld
    omega

/-- For a request on its own, in a pool with blocks for its peak, there is always room. -/
theorem Fitting.lone (h : m.InOrder free)
    (hfitting : m.Fitting request (request.numComputedTokens + k) per)
    (hshed : m.HasShed request.requestId (request.numComputedTokens + k))
    (hwithin : m.Within request.requestId (request.numComputedTokens + k + chunk))
    (hwindow : request.numComputedTokens + k ≤ m.maxModelLen) (hchunk : n ≤ chunk)
    (halone : ∀ r, r ≠ request.requestId → m.Idle r)
    (hample : m.peakBlocks chunk ≤ m.blockPool.numUsableBlocks) :
    m.charged request n k 0 per ≤ free.length := by
  have husable := h.books.usable_le
  have hheld := @card_held_le _ request.requestId m.blockPool m.singleTypeManagers
    fun manager hm r hr => halone r hr manager hm
  have hcharge : m.charged request n k 0 per + (m.singleTypeManagers.map fun manager =>
      numHeld m.blockPool (manager.getBlocks request.requestId)).sum ≤ m.peakBlocks chunk := by
    rw [charged, charge_eq hfitting.reaches]
    refine shortage_le_peak ?_ (hfitting.stands hshed hwithin hwindow)
    unfold numTokensNeedingSlots
    omega
  omega

end KVCacheManager

/-! ### Over runs of the engine -/

/-- What a call grants leaves the tables of a running request within a step of where it
stands. -/
theorem Granted.within {s : Scheduler H} {r : RequestId} {scheduled : Option ℕ} {count chunk : ℕ}
    {m : KVCacheManager H} (h : Granted s r scheduled count m)
    (hhashed : r ∈ s.requests → (s.request r).HashedAs s.kvCacheManager.blockHasher)
    (hwindow : r ∈ s.requests → (s.request r).numTokens ≤ s.kvCacheManager.maxModelLen)
    (hchunk : scheduled.getD 0 ≤ chunk)
    (hwithin : r ∈ s.running →
      s.kvCacheManager.Within r ((s.request r).numComputedTokens + chunk)) :
    m.Within r (count + chunk) := by
  cases h with
  | passed hrunning hbefore htables => exact (hwithin hrunning).congr hbefore.setup htables
  | @grown m₁ m₂ _ request n blocks hrunning hbefore htables hrequest hid hcount hn hok hafter
      hsame =>
      obtain ⟨free₁, horder₁⟩ := hbefore.order
      have hfirst := (hwithin hrunning).congr hbefore.setup htables
      have hnone : m₁.cachedBlocks (m₁.perGroupCached none) = [] := by
        unfold KVCacheManager.cachedBlocks KVCacheManager.perGroupCached
        rw [KVCacheManager.emptyBlocks_flatten, List.filter_nil]
      rcases KVCacheManager.allocateSlots_ok horder₁
        (by rw [hnone]; exact fun b hb => absurd hb List.not_mem_nil) hok with
        ⟨hfail, -⟩ | ⟨news, free', adopted, mid, -, halloc⟩
      · cases hfail
      rw [Option.getD_some] at hchunk
      have hsecond : m₂.Within request.requestId ((s.request r).numComputedTokens + chunk) := by
        refine KVCacheManager.Within.allocates horder₁ (hid.symm ▸ hfirst) ?_ ?_ halloc
        · exact KVCacheManager.forall₂_emptyBlocks fun manager => Nat.zero_le _
        · unfold KVCacheManager.numTokensNeedingSlots
          omega
      rw [hid] at hsecond
      exact hsecond.congr hafter.setup hsame
  | @entered m₀ m₁ m₂ _ request hits blocks numLocal numExternal n hwaiting hnew hbefore hrequest
      hid hcount hidle hhits hn hok hafter hsame =>
      obtain ⟨free₀, horder₀⟩ := hbefore.order
      obtain ⟨horder₁, -⟩ := KVCacheManager.getComputedBlocks_inOrder horder₀ hhits
      obtain ⟨hsetup, hpool, hmanagers, hlooked⟩ :=
        KVCacheManager.getComputedBlocks_ok horder₀ hhits
      -- what the lookup found is of one length, and ends within the request
      have hrequest' : request.HashedAs m₀.blockHasher := by
        rw [hbefore.setup.blockHasher]
        exact (Request.HashedAs.lasting _).reworks (hhashed hwaiting) hrequest
      obtain ⟨hits', k, m', hfound, hle, hdvd, hshaped⟩ :=
        KVCacheManager.getComputedBlocks_shaped horder₀ (KVCacheManager.hashes_reach hrequest')
      rw [hhits] at hfound
      obtain ⟨⟨rfl, rfl⟩, rfl⟩ := Prod.mk.inj (Except.ok.inj hfound) |>.imp Prod.mk.inj id
      rw [← hpool, ← hmanagers] at hshaped
      rw [← hsetup.kvCacheConfig] at hshaped hdvd
      have hhits₁ : m₁.Hits request hits := by
        unfold KVCacheManager.Hits at hlooked ⊢
        rwa [hpool, hmanagers]
      have hfoundBlocks : m₁.FoundBlocks (numLocal / m₁.kvCacheConfig.blockSize) hits := hshaped
      have hwindow' : numLocal ≤ m₁.maxModelLen := by
        rw [hsetup.maxModelLen, hbefore.setup.maxModelLen]
        rw [hrequest.numTokens_eq] at hle
        exact hle.trans ((Nat.sub_le ..).trans (hwindow hwaiting))
      rcases KVCacheManager.allocateSlots_ok horder₁ (KVCacheManager.cachedBlocks_lt horder₁
        fun _ heq => Option.some.inj heq ▸ hhits₁) hok with
        ⟨hfail, -⟩ | ⟨news, free', adopted, mid, -, halloc⟩
      · cases hfail
      rw [hfoundBlocks.perGroupCached_eq] at halloc
      rw [Option.getD_some] at hchunk
      have hsecond : m₂.Within request.requestId (numLocal + numExternal + chunk) := by
        refine KVCacheManager.Within.allocates horder₁ (.of_idle (hid.symm ▸ hidle)) ?_ ?_ halloc
        · refine List.Forall₂.imp ?_
            ((List.forall₂_and_left _ _).mpr ⟨fun _ hm => hm, hfoundBlocks⟩)
          rintro manager blocks ⟨hm, hlength, -⟩
          have hpos := manager.kvCacheSpec.blockSize_pos
          have hslots := (ceilDiv_le_iff (n := min (numLocal + numExternal + chunk)
            m₁.maxModelLen) hpos).mp le_rfl
          rw [hlength, ← horder₁.blockSize_eq hm]
          refine Nat.le_of_mul_le_mul_right (le_trans ?_ hslots) hpos
          exact (Nat.div_mul_le_self ..).trans (le_min (by omega) hwindow')
        · unfold KVCacheManager.numTokensNeedingSlots
          omega
      rw [hid] at hsecond
      exact hsecond.congr hafter.setup hsame

theorem KVCacheManager.Within.removeSkippedBlocks {m m' : KVCacheManager H} {free : List BlockId}
    {request : Request H} {r : RequestId} {n : ℕ} (hwithin : m.Within r n) (h : m.InOrder free)
    (hok : m.removeSkippedBlocks request = .ok m') : m'.Within r n := by
  obtain ⟨m₁, free', hok', -, hsetup, -, hsheds⟩ := removeSkippedBlocks_spec h request
  rw [hok, Except.ok.injEq] at hok'
  subst hok'
  rcases hsheds with ⟨-, rfl, -⟩ | hsheds
  · exact hwithin
  intro manager' hm'
  obtain ⟨i, hi, rfl⟩ := List.mem_iff_getElem.mp hm'
  have hi₀ : i < m.singleTypeManagers.length := hsheds.length_eq ▸ hi
  have hshed := (List.forall₂_iff_get.mp hsheds).2 i hi₀ hi
  have hlong := hwithin _ (List.getElem_mem hi₀)
  have hspec := hshed.group.2
  rw [List.get_eq_getElem, List.get_eq_getElem] at hspec
  rw [hsetup.maxModelLen, hspec]
  refine le_trans ?_ hlong
  obtain ⟨null, k, hk, -, ⟨-, heq⟩ | heq⟩ := hshed
  · exact (congrArg (fun manager => (manager.getBlocks r).length) heq).le
  · refine (congrArg (fun manager => (manager.getBlocks r).length) heq).le.trans ?_
    rw [SingleTypeKVCacheManager.getBlocks_setBlocks]
    split
    · rename_i hr
      subst hr
      rw [List.length_append, List.length_replicate, List.length_drop]
      dsimp only [List.get_eq_getElem] at hk ⊢
      omega
    · exact le_rfl

namespace StepState

variable {s : Scheduler H} {l : StepState H}

theorem Loops.within_budget (hpart : s.Partitioned) (hloops : Loops (start s) l) :
    (∀ r n, l.numScheduledTokens.find r = some n → n ≤ s.config.maxNumScheduledTokens) ∧
      l.phase.asked ≤ s.config.maxNumScheduledTokens := by
  have htokens : l.Batch ∧ l.Tokens := hloops.invariant (P := fun l => l.Batch ∧ l.Tokens)
    ⟨batch_start hpart, Nat.add_zero _, Nat.zero_le _⟩ fun _ _ hstep ⟨hb, ht⟩ =>
      ⟨hstep.batch hb, hstep.tokens hb ht⟩
  obtain ⟨hbalance, hasked⟩ := htokens.2
  rw [(Loops.static hloops).1] at hbalance
  refine ⟨fun r n hfind => ?_, hasked.trans (hbalance ▸ Nat.le_add_right ..)⟩
  have hmem : n ∈ l.numScheduledTokens.items.map Prod.snd :=
    List.mem_map.mpr ⟨(r, n), (Dict.find_eq_some_iff ..).mp hfind, rfl⟩
  have hle : n ≤ l.numScheduledTokens.total id :=
    List.single_le_sum (fun _ _ => Nat.zero_le _) n hmem
  show n ≤ (start s).scheduler.config.maxNumScheduledTokens
  omega

end StepState

namespace Engine

variable {s s' : Scheduler H} {chunk : ℕ}

/-- The tables of the running requests reach no further than a step of `chunk` tokens from
where they stood before the step in flight. -/
def Stretched (e : Engine H) (chunk : ℕ) : Prop :=
  ∀ r ∈ e.scheduler.running, e.scheduler.kvCacheManager.Within r
    ((e.scheduler.request r).numComputedTokens - (e.scheduledFor r).getD 0 + chunk)

theorem Stretched.call {event : Event} {inFlight : Option SchedulerOutput}
    (h : Stretched ⟨s, inFlight⟩ chunk) (hsettled : s.Settled)
    (hstep : Scheduler.Step s event s') (hanytime : event.anytime = true) :
    Stretched ⟨s', inFlight⟩ chunk := by
  intro r hr
  obtain ⟨hwas, grammar, heq⟩ := hstep.follows hanytime hsettled r hr
  have hcount : (s'.request r).numComputedTokens = (s.request r).numComputedTokens := by rw [heq]
  dsimp only
  rw [hcount]
  exact (h r hwas).congr (hstep.continues hsettled).setup (hstep.tables hanytime hsettled r hr)

theorem Stretched.schedule {output : SchedulerOutput} (h : Stretched ⟨s, none⟩ chunk)
    (hready : s.Ready) (hchunk : s.config.maxNumScheduledTokens ≤ chunk)
    (hok : s.schedule = .ok (output, s')) : Stretched ⟨s', some output⟩ chunk := by
  have hpart := hready.settled.partition
  intro r hr
  obtain ⟨count, hgranted, hcount⟩ := Scheduler.schedule_granted hpart hok r hr
  obtain ⟨l, hloops, -, hfinishes⟩ := Scheduler.schedule_ok hok
  have hfew : (output.numScheduledTokens.find r).getD 0 ≤ chunk := by
    rw [hfinishes.scheduled]
    cases hfind : l.numScheduledTokens.find r with
    | none => exact Nat.zero_le _
    | some n => exact ((StepState.Loops.within_budget hpart hloops).1 r n hfind).trans hchunk
  have hwithin := hgranted.within (hready.hashed r) (hready.window r) hfew fun hwas => by
    have hfirst := h r hwas
    change s.kvCacheManager.Within r ((s.request r).numComputedTokens - 0 + chunk) at hfirst
    rwa [Nat.sub_zero] at hfirst
  show s'.kvCacheManager.Within r ((s'.request r).numComputedTokens -
    (output.numScheduledTokens.find r).getD 0 + chunk)
  rw [hcount, Nat.add_sub_cancel]
  exact hwithin

theorem Stretched.updateFromOutput {schedulerOutput : SchedulerOutput}
    {modelRunnerOutput : ModelRunnerOutput} {outputs : Dict ℕ (List EngineCoreOutput)}
    (h : Stretched ⟨s, some schedulerOutput⟩ chunk) (hpaced : Paced ⟨s, some schedulerOutput⟩)
    (hretaining : Retaining ⟨s, some schedulerOutput⟩)
    (hok : s.updateFromOutput schedulerOutput modelRunnerOutput = .ok (outputs, s')) :
    Stretched ⟨s', none⟩ chunk := by
  intro r hr
  obtain ⟨hwas, -, hidle, hforward⟩ := hpaced.lands hok hr fun n hfind =>
    (hretaining.ahead r ((Scheduler.updateFromOutput_follows hpaced.settled hok).running r hr).1
      n hfind).2
  obtain ⟨u, s₁, hall, hshed, -, heq⟩ := Scheduler.updateFromOutput_ok hok
  obtain ⟨-, hcontinues, htables⟩ := Scheduler.updateAll_tables hpaced.settled hall
  have hrunning : r ∈ u.stillRunning := by
    rw [heq] at hr
    exact hr
  have hbefore := (h r hwas).congr hcontinues.setup (htables r hrunning)
  have hafter := (Scheduler.shedAll_ok (P := fun m => (∃ free, m.InOrder free) ∧
    m.Within r ((s.request r).numComputedTokens -
      (schedulerOutput.numScheduledTokens.find r).getD 0 + chunk)) hshed
    ⟨hcontinues.order, hbefore⟩ fun _ _ m m' hok ⟨⟨free, horder⟩, hm⟩ => by
      obtain ⟨free', horder', -⟩ := KVCacheManager.removeSkippedBlocks_inOrder horder hok
      exact ⟨⟨free', horder'⟩, hm.removeSkippedBlocks horder hok⟩).1.2
  have hmanager : s'.kvCacheManager = s₁.kvCacheManager := by rw [heq]
  show s'.kvCacheManager.Within r ((s'.request r).numComputedTokens - 0 + chunk)
  rw [hmanager]
  refine hafter.mono ?_
  cases hfind : schedulerOutput.numScheduledTokens.find r with
  | none =>
      rw [hidle hfind]
      exact le_rfl
  | some n =>
      -- the step computed a token at least
      have hlt := hforward n hfind
      rw [Option.getD_some]
      omega

end Engine

/-! ### A request that runs on its own -/

/-- A scheduler with room for one request at its peak, over plain requests. -/
structure Scheduler.Roomy (s : Scheduler H) : Prop where
  ready : s.Ready
  shed : ∀ r ∈ s.running, s.kvCacheManager.HasShed r (s.request r).numComputedTokens
  within : ∀ r ∈ s.running, s.kvCacheManager.Within r
    ((s.request r).numComputedTokens + s.config.maxNumScheduledTokens)
  ample : s.kvCacheManager.peakBlocks s.config.maxNumScheduledTokens ≤
    s.kvCacheManager.blockPool.numUsableBlocks

omit [DecidableEq H] in
/-- A manager over the same layout has the same room. -/
theorem KVCacheManager.SameSetup.room {m m' : KVCacheManager H} {chunk : ℕ} (h : SameSetup m m')
    (hample : m.peakBlocks chunk ≤ m.blockPool.numUsableBlocks) :
    m'.peakBlocks chunk ≤ m'.blockPool.numUsableBlocks := by
  have hblocks : m'.peakBlocks chunk = m.peakBlocks chunk := by
    have hgroups := congrArg (List.map fun group : ℕ × KVCacheSpec =>
      group.2.peakBlocks m.maxModelLen chunk) h.groups
    simp only [KVCacheManager.groups, List.map_map, Function.comp_def] at hgroups
    rw [peakBlocks, peakBlocks, h.maxModelLen, hgroups]
  rw [hblocks, BlockPool.numUsableBlocks, h.frame.numGpuBlocks, h.frame.nullBlock]
  exact hample

namespace StepState

variable {s : Scheduler H} {l : StepState H} {r : RequestId} {n k : ℕ}
  {hits : Option (List (List BlockId))}

/-- Where slots are asked for, the tables of the request are shed, and within a step of what
it has computed. -/
theorem Loops.asks_stands (hroomy : s.Roomy) (hloops : Loops (start s) l)
    (hasks : l.Asks r n k hits) :
    l.scheduler.kvCacheManager.HasShed r ((l.scheduler.request r).numComputedTokens + k) ∧
      l.scheduler.kvCacheManager.Within r
        ((l.scheduler.request r).numComputedTokens + k + s.config.maxNumScheduledTokens) ∧
      n ≤ s.config.maxNumScheduledTokens := by
  have hpart := hroomy.ready.settled.partition
  have hb := Loops.batch hpart hloops
  have hg := Loops.granting hpart hloops
  obtain ⟨-, hasked⟩ := hloops.within_budget hpart
  cases hasks with
  | running hphase =>
      have hover : l.phase.overRunning = true := by rw [hphase]; rfl
      obtain ⟨-, hout, htake, -⟩ := hb.allocating r n hphase
      -- it has not been given slots in this call
      have hnone : l.numScheduledTokens.find r = none := by
        rw [Dict.find_eq_none_iff, hb.keys, hb.batch_eq hover]
        exact hout
      have hgranted := hg.granted r (List.mem_of_mem_take htake)
      rw [hnone] at hgranted
      rw [hphase] at hasked
      generalize (l.scheduler.request r).numComputedTokens = count at hgranted ⊢
      cases hgranted with
      | passed hrunning hcontinues htables =>
          obtain ⟨free, horder⟩ := hpart.order
          obtain ⟨⟨free', horder'⟩, hsetup⟩ := hcontinues
          exact ⟨(hroomy.shed r hrunning).congr horder horder' hsetup htables,
            (hroomy.within r hrunning).congr hsetup htables, hasked⟩
  | admission hphase =>
      obtain ⟨-, hhead, -⟩ := hb.admitting _ _ _ _ _ _ hphase
      have hidle := hb.partition.idle r (hb.partition.not_running_of_waiting
        (List.mem_append_left _ (List.mem_of_head? hhead)))
      rw [hphase] at hasked
      exact ⟨.of_idle hidle, .of_idle hidle, hasked⟩

/-- A request that runs on its own gets its slots. -/
theorem Loops.alone (hroomy : s.Roomy) (hloops : Loops (start s) l) (hasks : l.Asks r n k hits)
    (halone : ∀ r' ∈ l.scheduler.running, r' = r) :
    ∃ news kv, l.scheduler.kvCacheManager.allocateSlots (l.scheduler.request r) n k hits 0 false =
      .ok (some news, kv) := by
  have hb := Loops.batch hroomy.ready.settled.partition hloops
  have hg := Loops.granting hroomy.ready.settled.partition hloops
  obtain ⟨free, horder⟩ := hb.partition.order
  obtain ⟨hn, -, hfitting, hwindow⟩ := Loops.asks_fitting hroomy.ready hloops hasks
  obtain ⟨hshed, hwithin, hchunk⟩ := hloops.asks_stands hroomy hasks
  have hid := hb.partition.requestId r
  refine KVCacheManager.allocateSlots_goes horder hn hfitting
    (hfitting.lone horder (hid.symm ▸ hshed) (hid.symm ▸ hwithin) (by omega) hchunk ?_ ?_)
  · intro r' hr'
    rw [hid] at hr'
    exact hb.partition.idle r' fun hmem => hr' (halone r' hmem)
  · exact hg.continues.setup.room hroomy.ample

end StepState

def SchedulerConfig.peakBlocks (config : SchedulerConfig) (kvCacheConfig : KVCacheConfig) : ℕ :=
  (kvCacheConfig.kvCacheGroups.map fun spec =>
    spec.peakBlocks config.maxModelLen config.maxNumScheduledTokens).sum +
      if kvCacheConfig.kvCacheGroups.any (·.isSkipping) then 1 else 0

theorem KVCacheManager.init_room {kvCacheConfig : KVCacheConfig} {config : SchedulerConfig}
    {enableCaching enableKvCacheEvents : Bool} {hashFn : HashInput H → H} {seed : ℕ}
    {m : KVCacheManager H}
    (hok : init kvCacheConfig config.maxModelLen enableCaching enableKvCacheEvents hashFn seed =
      .ok m)
    (hample : config.peakBlocks kvCacheConfig ≤ kvCacheConfig.numBlocks) :
    m.peakBlocks config.maxNumScheduledTokens ≤ m.blockPool.numUsableBlocks := by
  obtain ⟨horder, hconfig, hlength, -⟩ := init_inOrder hok
  have hpeak : m.peakBlocks config.maxNumScheduledTokens =
      (kvCacheConfig.kvCacheGroups.map fun spec =>
        spec.peakBlocks config.maxModelLen config.maxNumScheduledTokens).sum := by
    rw [peakBlocks, hlength, ← hconfig, ← horder.toConfigured.specs, List.map_map]
    rfl
  rw [hpeak]
  unfold SchedulerConfig.peakBlocks at hample
  unfold init at hok
  split at hok
  · cases hok
  split at hok
  · cases hok
  rename_i pool hpool
  obtain rfl := Except.ok.inj hok
  obtain ⟨-, hnum, -, hnull, -⟩ := BlockPool.init_wellFormed hpool
  dsimp only [BlockPool.numUsableBlocks]
  rw [hnum, hnull]
  omega

namespace Engine

variable {config : SchedulerConfig} {kvCacheConfig : KVCacheConfig} {enableCaching : Bool}
  {hashFn : HashInput H → H} {seed : ℕ} {s₀ : Scheduler H} {e : Engine H}
  {events : List Event}

/-- The tables stay within a step of what is computed, over every tame run. -/
theorem run_stretched (hinit : Scheduler.init config kvCacheConfig enableCaching hashFn seed none =
      .ok s₀) (hrun : Run Step ⟨s₀, none⟩ events e) (htame : Tame config.maxModelLen events) :
    e.Stretched config.maxNumScheduledTokens := by
  obtain ⟨hsettled, hstart, -⟩ := Scheduler.init_settled hinit
  obtain ⟨hpolicied, hconfig⟩ := Scheduler.init_policied hinit
  refine hrun.invariant (P := fun events e => Tame config.maxModelLen events →
    e.Stretched config.maxNumScheduledTokens) (fun _ r hr => ?_) ?_ htame
  · have hknown := hsettled.partition.known_of_running hr
    rw [hstart] at hknown
    cases hknown
  intro events e event e' hbefore h hstep htame
  have htame' : Tame config.maxModelLen events := htame.left
  have hpaced := run_paced hbefore (init_paced hinit)
  cases hstep with
  | call hstep hanytime => exact (h htame').call hpaced.settled hstep hanytime
  | schedule hok =>
      have hconfig' := (Scheduler.run_policied (run_scheduler hbefore) hpolicied).2.trans hconfig
      exact (h htame').schedule (run_ready hinit hbefore htame' rfl)
        (congrArg SchedulerConfig.maxNumScheduledTokens hconfig').le hok
  | updateFromOutput hanswers hok =>
      exact (h htame').updateFromOutput hpaced (run_retaining hinit hbefore) hok

/-- Between steps of a tame run there is room for one request. -/
theorem run_roomy (hample : config.peakBlocks kvCacheConfig ≤ kvCacheConfig.numBlocks)
    (hinit : Scheduler.init config kvCacheConfig enableCaching hashFn seed none = .ok s₀)
    (hrun : Run Step ⟨s₀, none⟩ events e) (htame : Tame config.maxModelLen events)
    (hnone : e.inFlight = none) : e.scheduler.Roomy := by
  obtain ⟨hsettled, hstart, -⟩ := Scheduler.init_settled hinit
  obtain ⟨hpolicied, hconfig⟩ := Scheduler.init_policied hinit
  have hconfig' : e.scheduler.config = config :=
    (Scheduler.run_policied (run_scheduler hrun) hpolicied).2.trans hconfig
  have hcontinues := Scheduler.run_continues (run_scheduler hrun) hsettled
  have hroom : s₀.kvCacheManager.peakBlocks config.maxNumScheduledTokens ≤
      s₀.kvCacheManager.blockPool.numUsableBlocks := by
    unfold Scheduler.init at hinit
    split at hinit
    · cases hinit
    rename_i kv hkv
    split at hinit
    · cases hinit
    obtain rfl := Except.ok.inj hinit
    exact KVCacheManager.init_room hkv hample
  refine ⟨run_ready hinit hrun htame hnone, (run_retaining hinit hrun).shed hnone,
    fun r hr => ?_, ?_⟩
  · have hwithin := run_stretched hinit hrun htame r hr
    rw [scheduledFor, hnone] at hwithin
    rw [hconfig']
    exact hwithin
  · rw [hconfig']
    exact hcontinues.setup.room hroom

end Engine

end Pvllm
