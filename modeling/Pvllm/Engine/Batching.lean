import Pvllm.Engine.Detokenizer

/-!
Feeding a detokenizer its tokens in batches.

A batch is searched once, with the place from which its text is new. The match found is
the one that ends first, and so the one that feeding token by token comes to first. Empty
stop strings are the exception: where one of them is found depends on how much is new.
-/

namespace Pvllm

/-! ### The first stop string past a place -/

/-- An occurrence that ends past a place, and none before it does. -/
structure EndsFirst (text : Text) (lo : ℕ) (s : Text) (i : ℕ) : Prop where
  past : lo < i + s.length
  occurs : s <+: text.drop i
  first : ∀ j < i, lo < j + s.length → ¬ s <+: text.drop j

theorem find_searchStart {text s : Text} {lo i : ℕ} (hlo : lo < text.length) (hs : s ≠ []) :
    find text s (searchStart (text.length - lo) s) = some i ↔ EndsFirst text lo s i := by
  have hpos := List.length_pos_of_ne_nil hs
  have hplace : place text.length (searchStart (text.length - lo) s) = lo + 1 - s.length := by
    unfold place searchStart
    rw [if_pos (by omega)]
    omega
  rw [find_eq_some_iff, hplace]
  constructor
  · rintro ⟨hle, hend, hoccurs, hfirst⟩
    refine ⟨by omega, hoccurs, fun j hj hpast => hfirst j (by omega) hj⟩
  · rintro ⟨hpast, hoccurs, hfirst⟩
    have hlength := hoccurs.length_le
    rw [List.length_drop] at hlength
    exact ⟨by omega, by omega, hoccurs, fun j hle hj => hfirst j hj (by omega)⟩

theorem endsFirst_take {text s : Text} {lo hi i : ℕ} (hs : s ≠ []) :
    EndsFirst (text.take hi) lo s i ↔ EndsFirst text lo s i ∧ i + s.length ≤ hi := by
  have hpos := List.length_pos_of_ne_nil hs
  have hoccurs (j : ℕ) : s <+: (text.take hi).drop j ↔ s <+: text.drop j ∧ j + s.length ≤ hi := by
    rw [List.drop_take, List.prefix_take_iff]
    apply and_congr_right'
    omega
  constructor
  · rintro ⟨hpast, hthere, hfirst⟩
    obtain ⟨hthere, hle⟩ := (hoccurs i).mp hthere
    refine ⟨⟨hpast, hthere, fun j hj hpast' hother => ?_⟩, hle⟩
    exact hfirst j hj hpast' ((hoccurs j).mpr ⟨hother, by omega⟩)
  · rintro ⟨⟨hpast, hthere, hfirst⟩, hle⟩
    refine ⟨hpast, (hoccurs i).mpr ⟨hthere, hle⟩, fun j hj hpast' hother => ?_⟩
    exact hfirst j hj hpast' ((hoccurs j).mp hother).1

/-- Where nothing ends up to a later place, what comes first past the one comes first past the
other. -/
theorem endsFirst_mono {text s : Text} {lo hi i : ℕ} (hle : lo ≤ hi)
    (hnone : ∀ j, lo < j + s.length → j + s.length ≤ hi → ¬ s <+: text.drop j) :
    EndsFirst text lo s i ↔ EndsFirst text hi s i := by
  constructor
  · rintro ⟨hpast, hoccurs, hfirst⟩
    refine ⟨?_, hoccurs, fun j hj hpast' => hfirst j hj (by omega)⟩
    by_contra hend
    exact hnone i hpast (by omega) hoccurs
  · rintro ⟨hpast, hoccurs, hfirst⟩
    refine ⟨by omega, hoccurs, fun j hj hpast' hother => ?_⟩
    by_cases hend : j + s.length ≤ hi
    · exact hnone j hpast' hend hother
    · exact hfirst j hj (by omega) hother

def firstStop (text : Text) (lo : ℕ) (stop : List Text) : Option StopMatch :=
  if text.length ≤ lo then none else bestStop text (text.length - lo) stop

section FirstStop

variable {text : Text} {lo hi : ℕ} {stop : List Text}

theorem betterStop_filter {before : Text} {n n' : ℕ} {s : Text} (best : Option StopMatch)
    (hfind : find before s (1 - n - s.length) =
      (find text s (1 - n' - s.length)).filter fun i => i + s.length ≤ hi) :
    betterStop before n (best.filter fun m => m.stopEnd ≤ hi) s =
      (betterStop text n' best s).filter fun m => m.stopEnd ≤ hi := by
  unfold betterStop
  rw [hfind]
  cases find text s (1 - n' - s.length) with
  | none => rfl
  | some i =>
      cases best with
      | none =>
          by_cases hend : i + s.length ≤ hi
          · simp [Option.filter, hend]
          · simp [Option.filter, hend]
      | some old =>
          by_cases hend : i + s.length ≤ hi <;> by_cases hold : old.stopEnd ≤ hi
          · by_cases hlt : i + s.length < old.stopEnd <;>
              simp [Option.filter, hend, hold, hlt]
          · have hlt : i + s.length < old.stopEnd := by omega
            simp [Option.filter, hend, hold, hlt]
          · have hlt : ¬ i + s.length < old.stopEnd := by omega
            simp [Option.filter, hend, hold, hlt]
          · by_cases hlt : i + s.length < old.stopEnd <;>
              simp [Option.filter, hend, hold, hlt]

theorem bestStop_filter {before : Text} {n n' : ℕ}
    (hfind : ∀ s ∈ stop, find before s (1 - n - s.length) =
      (find text s (1 - n' - s.length)).filter fun i => i + s.length ≤ hi) :
    bestStop before n stop = (bestStop text n' stop).filter fun m => m.stopEnd ≤ hi := by
  suffices h : ∀ best : Option StopMatch,
      stop.foldl (betterStop before n) (best.filter fun m => m.stopEnd ≤ hi) =
        (stop.foldl (betterStop text n') best).filter fun m => m.stopEnd ≤ hi from h none
  induction stop with
  | nil => exact fun best => rfl
  | cons s rest ih =>
      intro best
      rw [List.forall_mem_cons] at hfind
      rw [List.foldl_cons, List.foldl_cons, betterStop_filter best hfind.1]
      exact ih hfind.2 _

theorem firstStop_take (hempty : [] ∉ stop) (hlo : lo < hi) (hhi : hi ≤ text.length) :
    firstStop (text.take hi) lo stop = (firstStop text lo stop).filter fun m => m.stopEnd ≤ hi := by
  have hlength : (text.take hi).length = hi := List.length_take_of_le hhi
  unfold firstStop
  rw [if_neg (by omega), if_neg (by omega)]
  apply bestStop_filter
  intro s hs
  have hne : s ≠ [] := fun h => hempty (h ▸ hs)
  ext i
  refine (find_searchStart (by omega) hne).trans ((endsFirst_take hne).trans ?_)
  rw [← find_searchStart (by omega) hne, Option.filter_eq_some_iff, decide_eq_true_eq]
  rfl

theorem firstStop_stopEnd {m : StopMatch} (h : firstStop text lo stop = some m) :
    m.stopEnd = m.stopIndex + m.stopStr.length := by
  have hscanned := foldl_betterStop_scanned text (text.length - lo) stop none
  unfold firstStop at h
  split at h
  · cases h
  · exact ((hscanned.found m h).resolve_left nofun).stopEnd

theorem cut_le_of_firstStop {m : StopMatch} (h : firstStop text lo stop = some m)
    (includeInOutput : Bool) : m.cut includeInOutput ≤ m.stopEnd := by
  have hend := firstStop_stopEnd h
  unfold StopMatch.cut
  split <;> omega

theorem not_occurs_of_find {s : Text} (hlo : lo < text.length) (hs : s ≠ [])
    (hnone : find text s (searchStart (text.length - lo) s) = none) (j : ℕ)
    (hpast : lo < j + s.length) : ¬ s <+: text.drop j := by
  intro hoccurs
  have hex : ∃ j, lo < j + s.length ∧ s <+: text.drop j := ⟨j, hpast, hoccurs⟩
  have hfound : find text s (searchStart (text.length - lo) s) = some (Nat.find hex) := by
    rw [find_searchStart hlo hs]
    refine ⟨(Nat.find_spec hex).1, (Nat.find_spec hex).2, fun i hi hpast' hother => ?_⟩
    exact Nat.find_min hex hi ⟨hpast', hother⟩
  rw [hnone] at hfound
  cases hfound

/-- Where the text so far has no stop string, the search may go on from its end. -/
theorem firstStop_of_none (hempty : [] ∉ stop) (hlo : lo ≤ hi) (hhi : hi ≤ text.length)
    (hnone : firstStop (text.take hi) lo stop = none) :
    firstStop text lo stop = firstStop text hi stop := by
  rcases Nat.eq_or_lt_of_le hlo with rfl | hlo
  · rfl
  rcases Nat.eq_or_lt_of_le hhi with rfl | hhi
  · rw [List.take_length] at hnone
    rw [hnone, firstStop, if_pos le_rfl]
  have hlength : (text.take hi).length = hi := List.length_take_of_le hhi.le
  have hscanned := foldl_betterStop_scanned (text.take hi) ((text.take hi).length - lo) stop none
  unfold firstStop at hnone ⊢
  rw [if_neg (by omega)] at hnone
  rw [if_neg (by omega), if_neg (by omega)]
  apply List.foldl_ext
  intro best s hs
  have hne : s ≠ [] := fun h => hempty (h ▸ hs)
  have hnot := not_occurs_of_find (by omega) hne ((hscanned.none_iff.mp hnone).2 s hs)
  have hfind : find text s (searchStart (text.length - lo) s) =
      find text s (searchStart (text.length - hi) s) := by
    ext i
    refine (find_searchStart (by omega) hne).trans (Iff.trans ?_ (find_searchStart hhi hne).symm)
    apply endsFirst_mono hlo.le
    intro j hpast hend hoccurs
    apply hnot j hpast
    rw [List.drop_take, List.prefix_take_iff]
    exact ⟨hoccurs, by omega⟩
  unfold betterStop
  unfold searchStart at hfind
  rw [hfind]

end FirstStop

/-! ### Batches -/

namespace Detokenizer

variable {σ : Type} (decoder : Decoder σ) (params : StopParams)

def feed : Detokenizer σ → List (List TokenId × Bool) → Option Text × Detokenizer σ
  | d, [] => (none, d)
  | d, (newTokenIds, stopTerminated) :: rest =>
    match d.update decoder params newTokenIds stopTerminated with
    | (some stopString, d) => (some stopString, d)
    | (none, d) => feed d rest

def calls (stopTerminated : Bool) : List (List TokenId) → List (List TokenId × Bool)
  | [] => []
  | [last] => [(last, stopTerminated)]
  | batch :: rest => (batch, false) :: calls stopTerminated rest

def singly (tokenIds : List TokenId) : List (List TokenId) := tokenIds.map ([·])

variable {decoder params}

/-! ### Two updates for one -/

/-- The stop string that the search after some tokens finds, past the place it begins at. -/
def searched (params : StopParams) (a : Detokenizer σ × ℕ) : Option StopMatch :=
  if params.minTokens < a.1.numOutputTokens then firstStop a.1.outputText a.2 params.stop else none

/-- What a match reports, and the text it leaves. -/
def cutAt (params : StopParams) (d : Detokenizer σ) : Option StopMatch →
    Option Text × Detokenizer σ
  | none => (none, d)
  | some m => (some m.stopStr,
      { d with outputText := d.outputText.take (m.cut params.includeStopStrInOutput) })

theorem update_eq (d : Detokenizer σ) {newTokenIds : List TokenId} (hne : newTokenIds ≠ [])
    (stopTerminated : Bool) :
    d.update decoder params newTokenIds stopTerminated =
      cutAt params (d.absorb decoder params newTokenIds stopTerminated).1
        (searched params (d.absorb decoder params newTokenIds stopTerminated)) := by
  unfold update searched
  rw [if_neg hne]
  generalize d.absorb decoder params newTokenIds stopTerminated = a
  dsimp only
  by_cases hmin : params.minTokens < a.1.numOutputTokens
  · rw [if_pos hmin]
    by_cases hstop : params.stop = []
    · rw [if_neg fun h => h.1 hstop, hstop]
      have hnone : firstStop a.1.outputText a.2 [] = none := by
        unfold firstStop
        split <;> rfl
      rw [hnone]
      rfl
    · rw [if_pos ⟨hstop, hmin⟩]
      unfold checkStopStrings firstStop
      by_cases hnew : a.1.outputText.length ≤ a.2
      · rw [if_pos (Or.inl (by omega)), if_pos hnew]
        rfl
      · have hnew' : ¬ (a.1.outputText.length - a.2 = 0 ∨ params.stop = []) := by
          rintro (h | h)
          · omega
          · exact hstop h
        rw [if_neg hnew', if_neg hnew]
        cases bestStop a.1.outputText (a.1.outputText.length - a.2) params.stop with
        | none => rfl
        | some m =>
            unfold cutAt StopMatch.cut
            dsimp only
            cases params.includeStopStrInOutput with
            | true =>
                by_cases hend : a.1.outputText.length ≤ m.stopEnd
                · simp [hend, List.take_of_length_le hend]
                · have hcut : ¬ ((m.stopEnd : ℤ) = -1) := by omega
                  simp [hend, hcut]
            | false =>
                have hcut : ¬ ((m.stopIndex : ℤ) = -1) := by omega
                simp [hcut]
  · rw [if_neg hmin, if_neg fun h => hmin h.2]
    rfl

theorem decodeAll_append (d : Detokenizer σ) (check : ℕ) (first second : List TokenId) :
    decodeAll decoder params d check (first ++ second) =
      decodeAll decoder params (decodeAll decoder params d check first).1
        (decodeAll decoder params d check first).2 second := by
  induction first generalizing d check with
  | nil => rfl
  | cons newTokenId rest ih => exact ih _ _

theorem decodeAll_fst (d : Detokenizer σ) (check check' : ℕ) (newTokenIds : List TokenId) :
    (decodeAll decoder params d check newTokenIds).1 =
      (decodeAll decoder params d check' newTokenIds).1 := by
  induction newTokenIds generalizing d check check' with
  | nil => rfl
  | cons newTokenId rest ih => exact ih _ _ _

theorem decodeAll_above (d : Detokenizer σ) (check : ℕ) (newTokenIds : List TokenId)
    (hhigh : params.minTokens + d.promptLen ≤ d.tokenIds.length) :
    (decodeAll decoder params d check newTokenIds).2 = check := by
  induction newTokenIds generalizing d check with
  | nil => rfl
  | cons newTokenId rest ih =>
      have hcount : params.minTokens < (d.decodeOne decoder newTokenId).numOutputTokens := by
        show _ < (d.tokenIds ++ [newTokenId]).length - d.promptLen
        rw [List.length_append, List.length_singleton]
        omega
      unfold decodeAll
      dsimp only
      rw [if_neg fun h => by omega]
      apply ih
      show _ + d.promptLen ≤ (d.tokenIds ++ [newTokenId]).length
      rw [List.length_append, List.length_singleton]
      omega

theorem decodeAll_all_below (d : Detokenizer σ) (check : ℕ) {newTokenIds : List TokenId}
    (hne : newTokenIds ≠ []) (hmin : params.minTokens ≠ 0)
    (hlow : d.tokenIds.length + newTokenIds.length ≤ params.minTokens + d.promptLen) :
    (decodeAll decoder params d check newTokenIds).2 =
      (decodeAll decoder params d check newTokenIds).1.outputText.length := by
  induction newTokenIds generalizing d check with
  | nil => exact absurd rfl hne
  | cons newTokenId rest ih =>
      rw [List.length_cons] at hlow
      have hcount : (d.decodeOne decoder newTokenId).numOutputTokens ≤ params.minTokens := by
        show (d.tokenIds ++ [newTokenId]).length - d.promptLen ≤ _
        rw [List.length_append, List.length_singleton]
        omega
      unfold decodeAll
      dsimp only
      rw [if_pos ⟨hmin, hcount⟩]
      rcases eq_or_ne rest [] with rfl | hrest
      · rfl
      · apply ih _ _ hrest
        show (d.tokenIds ++ [newTokenId]).length + _ ≤ _ + d.promptLen
        rw [List.length_append, List.length_singleton]
        omega

/-- The tokens of an update that become text. -/
def rendered (params : StopParams) (newTokenIds : List TokenId) (stopTerminated : Bool) :
    List TokenId :=
  if stopTerminated ∧ params.includeStopStrInOutput = false then newTokenIds.dropLast
  else newTokenIds

/-- The token of an update that is only recorded. -/
def recorded (params : StopParams) (newTokenIds : List TokenId) (stopTerminated : Bool) :
    List TokenId :=
  if stopTerminated ∧ params.includeStopStrInOutput = false then newTokenIds.getLast?.toList
  else []

theorem absorb_eq (d : Detokenizer σ) (newTokenIds : List TokenId) (stopTerminated : Bool) :
    d.absorb decoder params newTokenIds stopTerminated =
      let result := decodeAll decoder params d d.outputText.length
        (rendered params newTokenIds stopTerminated)
      ({ result.1 with
        tokenIds := result.1.tokenIds ++ recorded params newTokenIds stopTerminated },
          result.2) := by
  unfold absorb rendered recorded
  split
  · rfl
  · dsimp only
    rw [List.append_nil]

theorem rendered_append (first : List TokenId) {second : List TokenId} (hsecond : second ≠ [])
    (stopTerminated : Bool) :
    rendered params (first ++ second) stopTerminated =
      first ++ rendered params second stopTerminated := by
  unfold rendered
  split
  · exact List.dropLast_append_of_ne_nil hsecond
  · rfl

theorem recorded_append (first : List TokenId) {second : List TokenId} (hsecond : second ≠ [])
    (stopTerminated : Bool) :
    recorded params (first ++ second) stopTerminated = recorded params second stopTerminated := by
  unfold recorded
  rw [List.getLast?_append_of_ne_nil first hsecond]

theorem absorb_false (d : Detokenizer σ) (newTokenIds : List TokenId) :
    d.absorb decoder params newTokenIds false =
      decodeAll decoder params d d.outputText.length newTokenIds := by
  unfold absorb
  rw [if_neg fun h => Bool.false_ne_true h.1]

/-- Two results that a caller does not tell apart: the token ids recorded after a match may
differ. -/
structure Like (result result' : Option Text × Detokenizer σ) : Prop where
  stop : result.1 = result'.1
  text : result.2.outputText = result'.2.outputText
  same : result.1 = none → result.2 = result'.2

theorem Like.refl (result : Option Text × Detokenizer σ) : Like result result :=
  ⟨rfl, rfl, fun _ => rfl⟩

theorem Like.trans {first second third : Option Text × Detokenizer σ} (h : Like first second)
    (h' : Like second third) : Like first third where
  stop := h.stop.trans h'.stop
  text := h.text.trans h'.text
  same hnone := (h.same hnone).trans (h'.same (h.stop ▸ hnone))

def next (decoder : Decoder σ) (params : StopParams) (result : Option Text × Detokenizer σ)
    (rest : List (List TokenId × Bool)) : Option Text × Detokenizer σ :=
  match result with
  | (some stopString, d) => (some stopString, d)
  | (none, d) => feed decoder params d rest

theorem next_none (d : Detokenizer σ) (newTokenIds : List TokenId) (stopTerminated : Bool) :
    next decoder params (none, d) [(newTokenIds, stopTerminated)] =
      d.update decoder params newTokenIds stopTerminated := by
  show (match d.update decoder params newTokenIds stopTerminated with
    | (some stopString, d) => (some stopString, d)
    | (none, d) => (none, d)) = _
  split <;> rename_i heq <;> rw [heq]

theorem Like.next {result result' : Option Text × Detokenizer σ} (h : Like result result')
    (rest : List (List TokenId × Bool)) :
    Like (next decoder params result rest) (next decoder params result' rest) := by
  obtain ⟨stop, d⟩ := result
  obtain ⟨stop', d'⟩ := result'
  obtain rfl : stop = stop' := h.stop
  cases stop with
  | none =>
      obtain rfl : d = d' := h.same rfl
      exact .refl _
  | some stopString => exact h

/-- Tokens absorbed at once, or in two updates: the second goes on where the first ended. -/
theorem update_append (hempty : [] ∉ params.stop) (d : Detokenizer σ)
    (hprompt : d.promptLen ≤ d.tokenIds.length) {first second : List TokenId}
    (hfirst : first ≠ []) (hsecond : second ≠ []) (stopTerminated : Bool) :
    Like (d.update decoder params (first ++ second) stopTerminated)
      (next decoder params (d.update decoder params first false) [(second, stopTerminated)]) := by
  have hpos := List.length_pos_of_ne_nil hfirst
  -- Both ways the same is decoded; only the place of the search may differ.
  have htwice : d.absorb decoder params (first ++ second) stopTerminated =
      (((d.absorb decoder params first false).1.absorb decoder params second stopTerminated).1,
        (decodeAll decoder params (d.absorb decoder params first false).1
          (d.absorb decoder params first false).2 (rendered params second stopTerminated)).2) := by
    rw [absorb_eq, absorb_eq, absorb_false, rendered_append _ hsecond, recorded_append _ hsecond,
      decodeAll_append]
    dsimp only
    rw [decodeAll_fst _ _
      (decodeAll decoder params d d.outputText.length first).1.outputText.length]
  have hplace : (d.absorb decoder params first false).1.tokenIds.length ≤
        params.minTokens + d.promptLen →
      (d.absorb decoder params first false).2 =
        (d.absorb decoder params first false).1.outputText.length := by
    intro hlow
    rw [(d.absorb_absorbed decoder params first false).tokenIds, List.length_append] at hlow
    rw [absorb_false]
    exact decodeAll_all_below d _ hfirst (by omega) hlow
  have habsorbed := d.absorb_absorbed decoder params first false
  rw [d.update_eq hfirst, d.update_eq (List.append_ne_nil_of_left_ne_nil hfirst second), htwice]
  generalize d.absorb decoder params first false = a at htwice hplace habsorbed ⊢
  obtain ⟨d₁, check⟩ := a
  have hlater := d₁.absorb_absorbed decoder params second stopTerminated
  have hlength₁ := congrArg List.length habsorbed.tokenIds
  have hlength₂ := congrArg List.length hlater.tokenIds
  have hprompt₁ := habsorbed.promptLen
  have hprompt₂ := hlater.promptLen
  rw [List.length_append] at hlength₁ hlength₂
  have hcount₁ : d₁.numOutputTokens = d₁.tokenIds.length - d.promptLen := by
    rw [numOutputTokens, hprompt₁]
  dsimp only at *
  have hplace₂ : (d₁.absorb decoder params second stopTerminated).2 =
      (decodeAll decoder params d₁ d₁.outputText.length
        (rendered params second stopTerminated)).2 := by
    rw [absorb_eq]
  have hupdate := @update_eq σ decoder params d₁ second hsecond stopTerminated
  generalize d₁.absorb decoder params second stopTerminated = e at *
  obtain ⟨e, check₂⟩ := e
  dsimp only at *
  by_cases hlow : d₁.tokenIds.length ≤ params.minTokens + d.promptLen
  · -- The first update does not search, and the second begins where the whole batch does.
    have hnone : searched params (d₁, check) = none := if_neg (by dsimp only; omega)
    rw [hnone, hplace hlow, ← hplace₂]
    show Like _ (next decoder params (none, d₁) _)
    rw [next_none, hupdate]
    exact .refl _
  · -- The first update searches; from its end the second does.
    have hcount₂ : params.minTokens < e.numOutputTokens := by
      rw [numOutputTokens]
      omega
    have hcheck : check ≤ d₁.outputText.length := habsorbed.check_le
    have hfits := hlater.text.length_le
    have htake := List.prefix_iff_eq_take.mp hlater.text
    rw [decodeAll_above _ _ _ (by omega)] at hplace₂ ⊢
    subst hplace₂
    have hsearched₁ : searched params (d₁, check) = firstStop d₁.outputText check params.stop :=
      if_pos (by dsimp only; omega)
    have hsearched (lo : ℕ) : searched params (e, lo) = firstStop e.outputText lo params.stop :=
      if_pos hcount₂
    rw [hsearched] at hupdate
    rw [hsearched, hsearched₁]
    cases hfound : firstStop d₁.outputText check params.stop with
    | none =>
        rw [htake] at hfound
        rw [firstStop_of_none hempty hcheck hfits hfound]
        show Like _ (next decoder params (none, d₁) _)
        rw [next_none, hupdate]
        exact .refl _
    | some m =>
        have hlt : check < d₁.outputText.length := by
          unfold firstStop at hfound
          split at hfound
          · cases hfound
          · omega
        rw [htake, firstStop_take hempty hlt hfits, Option.filter_eq_some_iff,
          decide_eq_true_eq] at hfound
        obtain ⟨hfound, hend⟩ := hfound
        rw [hfound]
        refine ⟨rfl, ?_, fun hnone => (by cases hnone)⟩
        show e.outputText.take _ = d₁.outputText.take _
        have hcut := (cut_le_of_firstStop hfound params.includeStopStrInOutput).trans hend
        rw [htake, List.take_take, min_eq_left hcut]

/-! ### A run of updates -/

theorem feed_cons (d : Detokenizer σ) (newTokenIds : List TokenId) (stopTerminated : Bool)
    (rest : List (List TokenId × Bool)) :
    feed decoder params d ((newTokenIds, stopTerminated) :: rest) =
      next decoder params (d.update decoder params newTokenIds stopTerminated) rest := rfl

theorem next_next (result : Option Text × Detokenizer σ)
    (first second : List (List TokenId × Bool)) :
    next decoder params (next decoder params result first) second =
      next decoder params result (first ++ second) := by
  obtain ⟨stop, d⟩ := result
  cases stop with
  | some stopString => rfl
  | none =>
      show next decoder params (feed decoder params d first) second = feed decoder params d _
      induction first generalizing d with
      | nil => rfl
      | cons call rest ih =>
          obtain ⟨newTokenIds, stopTerminated⟩ := call
          rw [List.cons_append, feed_cons, feed_cons]
          cases d.update decoder params newTokenIds stopTerminated with
          | mk stop d =>
            cases stop with
            | some stopString => rfl
            | none => exact ih d

theorem calls_append (first : List (List TokenId)) {second : List (List TokenId)}
    (hsecond : second ≠ []) (stopTerminated : Bool) :
    calls stopTerminated (first ++ second) = calls false first ++ calls stopTerminated second := by
  induction first with
  | nil => rfl
  | cons batch rest ih =>
      have hcons (l : List (List TokenId)) (hl : l ≠ []) (flag : Bool) :
          calls flag (batch :: l) = (batch, false) :: calls flag l := by
        obtain ⟨next, l, rfl⟩ := List.exists_cons_of_ne_nil hl
        rfl
      rw [List.cons_append, hcons _ (List.append_ne_nil_of_right_ne_nil rest hsecond), ih]
      rcases eq_or_ne rest [] with rfl | hrest
      · rfl
      · rw [hcons _ hrest]
        rfl

/-- A batch does what its tokens do one at a time. -/
theorem update_singly (hempty : [] ∉ params.stop) (d : Detokenizer σ)
    (hprompt : d.promptLen ≤ d.tokenIds.length) {newTokenIds : List TokenId}
    (hne : newTokenIds ≠ []) (stopTerminated : Bool) :
    Like (d.update decoder params newTokenIds stopTerminated)
      (feed decoder params d (calls stopTerminated (singly newTokenIds))) := by
  induction newTokenIds generalizing d with
  | nil => exact absurd rfl hne
  | cons newTokenId rest ih =>
      rcases eq_or_ne rest [] with rfl | hrest
      · show Like _ (next decoder params (none, d) [([newTokenId], stopTerminated)])
        rw [next_none]
        exact .refl _
      · have happend := @update_append σ decoder params hempty d hprompt _ _
          (List.cons_ne_nil newTokenId []) hrest stopTerminated
        have hcalls : calls stopTerminated (singly (newTokenId :: rest)) =
            ([newTokenId], false) :: calls stopTerminated (singly rest) :=
          calls_append [[newTokenId]] (fun h => hrest (List.map_eq_nil_iff.mp h)) stopTerminated
        rw [hcalls, feed_cons]
        refine happend.trans ?_
        have habsorbed := d.absorb_absorbed decoder params [newTokenId] false
        rw [d.update_eq (List.cons_ne_nil newTokenId [])]
        cases searched params (d.absorb decoder params [newTokenId] false) with
        | some m => exact .refl _
        | none =>
            show Like (next decoder params (none, _) _) _
            rw [next_none]
            apply ih _ _ hrest
            rw [habsorbed.promptLen, habsorbed.tokenIds, List.length_append]
            omega

/-- The flag comes with a token: the last batch of a run that has it is not empty. -/
def Flagged (batches : List (List TokenId)) (stopTerminated : Bool) : Prop :=
  stopTerminated = true → batches.getLast? ≠ some []

/-- Batches do what their tokens do one at a time. -/
theorem feed_singly (hempty : [] ∉ params.stop) (d : Detokenizer σ)
    (hprompt : d.promptLen ≤ d.tokenIds.length) {batches : List (List TokenId)}
    {stopTerminated : Bool} (hflag : Flagged batches stopTerminated) :
    Like (feed decoder params d (calls stopTerminated batches))
      (feed decoder params d (calls stopTerminated (singly batches.flatten))) := by
  induction batches generalizing d with
  | nil => exact .refl _
  | cons batch rest ih =>
      rcases eq_or_ne rest [] with rfl | hrest
      · rw [List.flatten_cons, List.flatten_nil, List.append_nil]
        rcases eq_or_ne batch [] with rfl | hbatch
        · exact .refl _
        · refine Like.trans ?_ (update_singly hempty d hprompt hbatch stopTerminated)
          show Like (next decoder params (none, d) [(batch, stopTerminated)]) _
          rw [next_none]
          exact .refl _
      have hflagRest : Flagged rest stopTerminated := by
        intro hstop
        rw [← List.getLast?_cons_of_ne_nil (x := batch) hrest]
        exact hflag hstop
      have hcalls : calls stopTerminated (batch :: rest) =
          (batch, false) :: calls stopTerminated rest :=
        calls_append [batch] hrest stopTerminated
      rcases eq_or_ne batch [] with rfl | hbatch
      · rw [hcalls]
        exact ih d hprompt hflagRest
      have hsingly : calls stopTerminated (singly (batch :: rest).flatten) =
          calls false (singly batch) ++ calls stopTerminated (singly rest.flatten) := by
        rw [List.flatten_cons, singly, List.map_append]
        rcases eq_or_ne rest.flatten [] with hnil | hne
        · -- The last batch is empty, so the flag does not come with it.
          have hunflagged : stopTerminated = false := by
            by_contra hstop
            have hlast := List.flatten_eq_nil_iff.mp hnil _ (List.getLast_mem hrest)
            apply hflagRest (Bool.not_eq_false _ ▸ hstop)
            rw [List.getLast?_eq_some_getLast hrest, hlast]
          rw [hnil, hunflagged]
          exact (congrArg (calls false) (List.append_nil _)).trans (List.append_nil _).symm
        · exact calls_append _ (fun h => hne (List.map_eq_nil_iff.mp h)) stopTerminated
      have hone := @update_singly σ decoder params hempty d hprompt _ hbatch false
      have hlater : Like
          (next decoder params (d.update decoder params batch false) (calls stopTerminated rest))
          (next decoder params (d.update decoder params batch false)
            (calls stopTerminated (singly rest.flatten))) := by
        have habsorbed := d.absorb_absorbed decoder params batch false
        rw [d.update_eq hbatch]
        cases searched params (d.absorb decoder params batch false) with
        | some m => exact .refl _
        | none =>
            apply ih _ _ hflagRest
            rw [habsorbed.promptLen, habsorbed.tokenIds, List.length_append]
            omega
      rw [hcalls, hsingly, feed_cons]
      refine hlater.trans ?_
      have hsplit := @next_next σ decoder params (none, d)
        (calls false (singly batch)) (calls stopTerminated (singly rest.flatten))
      show Like _ (next decoder params (none, d) _)
      rw [← hsplit]
      exact hone.next _

end Detokenizer

/-! ### Which stop strings may be fed in batches -/

/-- For every decoder and prompt, batches report the stop string and leave the text that feeding
the tokens one at a time does. -/
def BatchesAlike (params : StopParams) : Prop :=
  ∀ (σ : Type) (decoder : Decoder σ) (decoderState : σ) (promptTokenIds : List TokenId)
    (batches : List (List TokenId)) (stopTerminated : Bool),
    Detokenizer.Flagged batches stopTerminated →
    let d := Detokenizer.init promptTokenIds decoderState
    let batched := d.feed decoder params (Detokenizer.calls stopTerminated batches)
    let single := d.feed decoder params
      (Detokenizer.calls stopTerminated (Detokenizer.singly batches.flatten))
    batched.1 = single.1 ∧ batched.2.outputText = single.2.outputText

def letters : Decoder Unit := spelled fun tokenId => if tokenId = 0 then [] else ['a']

theorem decodeAll_quiet (params : StopParams) (d : Detokenizer Unit) (hd : d.outputText = [])
    (k : ℕ) : Detokenizer.decodeAll letters params d 0 (List.replicate k 0) =
      ({ d with tokenIds := d.tokenIds ++ List.replicate k 0 }, 0) := by
  induction k generalizing d with
  | zero => simp [Detokenizer.decodeAll]
  | succ k ih =>
      rw [List.replicate_succ, Detokenizer.decodeAll, letters, decodeOne_spelled]
      dsimp only
      rw [if_pos rfl, List.append_nil, hd]
      simp only [List.length_nil, ite_self]
      refine (ih _ rfl).trans ?_
      simp

theorem decodeAll_letters (params : StopParams) (d : Detokenizer Unit) (check k : ℕ) :
    (Detokenizer.decodeAll letters params d check (List.replicate k 1)).1 =
      { d with
        tokenIds := d.tokenIds ++ List.replicate k 1
        outputText := d.outputText ++ List.replicate k 'a' } := by
  induction k generalizing d check with
  | zero => simp [Detokenizer.decodeAll]
  | succ k ih =>
      rw [List.replicate_succ, Detokenizer.decodeAll, letters, decodeOne_spelled]
      refine (ih _ _).trans ?_
      simp [List.replicate_succ]

/-- Past `min_tokens` empty tokens, characters are searched from the beginning of the text. -/
theorem update_letters (params : StopParams) (k : ℕ) :
    (Detokenizer.init [] ()).update letters params
        (List.replicate params.minTokens 0 ++ List.replicate (k + 1) 1) false =
      Detokenizer.cutAt params
        ⟨List.replicate params.minTokens 0 ++ List.replicate (k + 1) 1, 0, (),
          List.replicate (k + 1) 'a', 0⟩
        (firstStop (List.replicate (k + 1) 'a') 0 params.stop) := by
  have hquiet := decodeAll_quiet params (Detokenizer.init [] ()) rfl params.minTokens
  have habsorb : (Detokenizer.init [] ()).absorb letters params
      (List.replicate params.minTokens 0 ++ List.replicate (k + 1) 1) false =
      (⟨List.replicate params.minTokens 0 ++ List.replicate (k + 1) 1, 0, (),
        List.replicate (k + 1) 'a', 0⟩, 0) := by
    rw [Detokenizer.absorb_false, Detokenizer.decodeAll_append,
      show (Detokenizer.init [] ()).outputText.length = 0 from rfl, hquiet]
    apply Prod.ext
    · exact decodeAll_letters params _ _ _
    · apply Detokenizer.decodeAll_above
      simp [Detokenizer.init]
  rw [Detokenizer.update_eq _ (by simp), habsorb]
  congr 1
  apply if_pos
  simp [Detokenizer.numOutputTokens]

theorem firstStop_letters {stop : List Text} (hempty : [] ∈ stop) (k : ℕ) :
    ∃ m, firstStop (List.replicate (k + 1) 'a') 0 stop = some m ∧ m.stopEnd ≤ min k 1 ∧
      (m.stopStr = [] → m.stopIndex = min k 1) := by
  have hscanned := foldl_betterStop_scanned (List.replicate (k + 1) 'a')
    ((List.replicate (k + 1) 'a').length - 0) stop none
  have hplace : place (List.replicate (k + 1) 'a').length
      (searchStart ((List.replicate (k + 1) 'a').length - 0) []) = min k 1 := by
    unfold place searchStart
    rw [List.length_replicate]
    split <;> simp at * <;> omega
  have hfind : find (List.replicate (k + 1) 'a') []
      (searchStart ((List.replicate (k + 1) 'a').length - 0) []) = some (min k 1) := by
    rw [find_nil, hplace]
    rw [hplace, List.length_replicate]
    omega
  have hfirst : firstStop (List.replicate (k + 1) 'a') 0 stop =
      bestStop (List.replicate (k + 1) 'a') ((List.replicate (k + 1) 'a').length - 0) stop := by
    apply if_neg
    rw [List.length_replicate]
    omega
  rw [hfirst]
  cases hbest : bestStop (List.replicate (k + 1) 'a')
      ((List.replicate (k + 1) 'a').length - 0) stop with
  | none =>
      have hnone := (hscanned.none_iff.mp hbest).2 [] hempty
      rw [hfind] at hnone
      cases hnone
  | some m =>
      refine ⟨m, rfl, hscanned.first m hbest [] hempty _ hfind, fun hnil => ?_⟩
      have hfound := ((hscanned.found m hbest).resolve_left nofun).found
      rw [hnil, hfind] at hfound
      exact (Option.some.inj hfound).symm

/-- With an empty stop string a character that comes alone is cut away, and of two that come
together the first is left. -/
theorem not_batchesAlike {params : StopParams} (hempty : [] ∈ params.stop) :
    ¬ BatchesAlike params := by
  intro h
  let zeros : List TokenId := List.replicate params.minTokens 0
  obtain ⟨m₁, hfirst₁, hend₁, -⟩ := firstStop_letters hempty 0
  obtain ⟨m₂, hfirst₂, hend₂, hindex₂⟩ := firstStop_letters hempty 1
  have happart := h Unit letters () [] [zeros ++ [1], [1]] false nofun
  have htogether := h Unit letters () [] [zeros ++ [1, 1]] false nofun
  have hflatten : [zeros ++ [1], [1]].flatten = [zeros ++ [1, 1]].flatten := by simp
  dsimp only at happart htogether
  rw [hflatten, ← htogether.1, ← htogether.2] at happart
  have halone : (Detokenizer.init [] ()).feed letters params
      (Detokenizer.calls false [zeros ++ [1], [1]]) =
        Detokenizer.cutAt params ⟨zeros ++ [1], 0, (), ['a'], 0⟩ (some m₁) := by
    have hupdate := update_letters params 0
    rw [hfirst₁] at hupdate
    show Detokenizer.next letters params ((Detokenizer.init [] ()).update letters params
      (zeros ++ List.replicate (0 + 1) 1) false) _ = _
    rw [hupdate]
    rfl
  have hboth : (Detokenizer.init [] ()).feed letters params
      (Detokenizer.calls false [zeros ++ [1, 1]]) =
        Detokenizer.cutAt params ⟨zeros ++ [1, 1], 0, (), ['a', 'a'], 0⟩ (some m₂) := by
    have hupdate := update_letters params 1
    rw [hfirst₂] at hupdate
    show Detokenizer.next letters params ((Detokenizer.init [] ()).update letters params
      (zeros ++ List.replicate (1 + 1) 1) false) _ = _
    rw [hupdate]
    rfl
  rw [halone, hboth] at happart
  obtain ⟨hstop, htext⟩ := happart
  have hstop : m₁.stopStr = m₂.stopStr := Option.some.inj hstop
  have hends₁ := firstStop_stopEnd hfirst₁
  have hends₂ := firstStop_stopEnd hfirst₂
  have hnil : m₁.stopStr = [] := List.length_eq_zero_iff.mp (by omega)
  have hcut₁ := cut_le_of_firstStop hfirst₁ params.includeStopStrInOutput
  have hcut₂ : m₂.cut params.includeStopStrInOutput = 1 := by
    have hindex := hindex₂ (hstop ▸ hnil)
    rw [← hstop, hnil, List.length_nil] at hends₂
    unfold StopMatch.cut
    split <;> omega
  have htext : ['a'].take (m₁.cut params.includeStopStrInOutput) =
      ['a', 'a'].take (m₂.cut params.includeStopStrInOutput) := htext
  have hlength := congrArg List.length htext
  rw [hcut₂, List.length_take, List.length_take] at hlength
  simp only [List.length_cons, List.length_nil] at hlength
  omega

/-- Batching does not matter exactly when no stop string is empty. -/
theorem batchesAlike_iff (params : StopParams) : BatchesAlike params ↔ [] ∉ params.stop := by
  constructor
  · exact fun h hempty => not_batchesAlike hempty h
  · intro hempty σ decoder decoderState promptTokenIds batches stopTerminated hflag
    have hlike := @Detokenizer.feed_singly σ decoder params hempty
      (Detokenizer.init promptTokenIds decoderState) le_rfl _ _ hflag
    exact ⟨hlike.stop, hlike.text⟩

/-- Two one-character tokens with an empty stop string: together they leave a character, one at a
time none. -/
theorem batches_differ :
    let params : StopParams := ⟨[[]], 0, false⟩
    let d := Detokenizer.init [] ()
    let batched := d.feed letters params (Detokenizer.calls false [[1, 1]])
    let single := d.feed letters params (Detokenizer.calls false (Detokenizer.singly [1, 1]))
    Detokenizer.Flagged [[1, 1]] false ∧ batched.1 = some [] ∧ single.1 = some [] ∧
      batched.2.outputText = ['a'] ∧ single.2.outputText = [] ∧ ¬ BatchesAlike params := by
  refine ⟨nofun, by decide +kernel, by decide +kernel, by decide +kernel, by decide +kernel, ?_⟩
  intro h
  have htext := (h Unit letters () [] [[1, 1]] false nofun).2
  revert htext
  decide +kernel

end Pvllm
