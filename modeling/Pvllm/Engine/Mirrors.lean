import Pvllm.Engine.Twins

/-!
A stream that no test waits for: `min_tokens` is zero, and the stop strings are any.

With nothing but empty stop strings, which are kept out of the output, the first new
text is cut to one character at most, and the deltas run a character ahead of it: unless
it comes in the first report there is nothing left to stream. In every other case the
deltas add up to the text. The rest of what a streamed child and its mirror agree on
does not depend on the stop strings at all.
-/

namespace Pvllm

variable {σ : Type}

/-! ### Nothing but empty stop strings -/

/-- There are stop strings, kept out of the output, and all of them are empty. -/
structure StopParams.Blank (params : StopParams) : Prop where
  mem : [] ∈ params.stop
  eq_nil : ∀ s ∈ params.stop, s = []
  excluded : params.includeStopStrInOutput = false
  minTokens : params.minTokens = 0

theorem StopParams.blank_of_not_proper {params : StopParams} (hmin : params.minTokens = 0)
    (h : ¬params.Proper) : params.Blank := by
  unfold Proper at h
  rw [not_or, not_not, not_and, not_or] at h
  obtain ⟨hmem, hthen⟩ := h
  obtain ⟨hexclude, hall⟩ := hthen hmin
  exact ⟨hmem, fun s hs => by_contra fun hne => hall ⟨s, hs, hne⟩,
    Bool.not_eq_true _ ▸ hexclude, hmin⟩

theorem StopParams.Blank.buffer_eq {params : StopParams} (h : params.Blank) :
    params.stopBufferLength = -1 := by
  unfold stopBufferLength
  rw [if_pos ⟨List.ne_nil_of_mem h.mem, h.excluded⟩, foldl_max_eq_zero]
  · rfl
  · rw [List.forall_mem_map]
    intro s hs
    rw [h.eq_nil s hs, List.length_nil]

section Blank

variable {decoder : Decoder σ} {params : StopParams} {d : Detokenizer σ}

/-- A detokenizer with no text yet. -/
structure Detokenizer.Silent (d : Detokenizer σ) : Prop where
  outputText : d.outputText = []
  promptLen_le : d.promptLen ≤ d.tokenIds.length

/-- The first new text is the end, and one character of it is kept at most. -/
theorem Detokenizer.Silent.update (hblank : params.Blank) (h : d.Silent)
    (newTokenIds : List TokenId) (stopTerminated : Bool) :
    let u := d.update decoder params newTokenIds stopTerminated
    u.2.lastOutputTextOffset = d.lastOutputTextOffset ∧
      (u.1 = none ∧ u.2.Silent ∨ u.1.isSome = true ∧ u.2.outputText.length ≤ 1) := by
  intro u
  have ha := d.absorb_absorbed decoder params newTokenIds stopTerminated
  have hspec := d.update_spec decoder params newTokenIds stopTerminated
  generalize d.absorb decoder params newTokenIds stopTerminated = a at *
  have hcheck := ha.check_eq hblank.minTokens
  rw [h.outputText, List.length_nil] at hcheck
  have hle : a.1.promptLen ≤ a.1.tokenIds.length := by
    rw [ha.promptLen, ha.tokenIds, List.length_append]
    exact le_add_right h.promptLen_le
  dsimp only at hspec
  rw [hcheck, Nat.sub_zero] at hspec
  rcases hspec with ⟨hupdate, hnone⟩ | ⟨m, hm, hnew, -, hupdate⟩
  · rw [show u = (none, a.1) from hupdate]
    refine ⟨ha.offset, Or.inl ⟨rfl, ?_, hle⟩⟩
    by_contra hne
    have htokens : newTokenIds ≠ [] := fun hnil => hne ((ha.text_nil hnil).trans h.outputText)
    refine find_empty_ne_none (fun hzero => hne (List.length_eq_zero_iff.mp hzero))
      (hnone ?_ (fun hzero => hne (List.length_eq_zero_iff.mp hzero)) [] hblank.mem)
    rw [hblank.minTokens]
    unfold Detokenizer.numOutputTokens
    rw [ha.promptLen, ha.tokenIds, List.length_append]
    have hpos := List.length_pos_iff.mpr htokens
    have hprompt := h.promptLen_le
    omega
  · rw [show u = _ from hupdate]
    refine ⟨ha.offset, Or.inr ⟨rfl, ?_⟩⟩
    have hfound := hm.found
    rw [hblank.eq_nil _ hm.mem] at hfound
    have hplace : place a.1.outputText.length (searchStart a.1.outputText.length []) ≤ 1 := by
      unfold place searchStart
      rw [List.length_nil]
      split <;> omega
    rw [find_nil (hplace.trans (Nat.one_le_iff_ne_zero.mpr hnew))] at hfound
    have hcut : m.cut params.includeStopStrInOutput ≤ 1 := by
      unfold StopMatch.cut
      rw [hblank.excluded]
      exact Option.some.inj hfound ▸ hplace
    dsimp only
    rw [List.length_take]
    omega

theorem Detokenizer.getNextOutputText_last (u : Detokenizer σ) :
    (u.getNextOutputText params true true).1 = u.outputText.drop u.lastOutputTextOffset := by
  unfold getNextOutputText
  rw [if_pos rfl, if_pos rfl, sub_zero]
  dsimp only
  rw [Int.toNat_natCast, List.take_length]
  split
  · rfl
  · rename_i hread
    rw [List.drop_of_length_le (by omega)]

/-- A report with no text is read a character too far. -/
theorem Detokenizer.Silent.getNextOutputText (hblank : params.Blank) {u : Detokenizer σ}
    (h : u.Silent) :
    let read := u.getNextOutputText params false true
    read.1 = [] ∧ read.2.Silent ∧ 1 ≤ read.2.lastOutputTextOffset := by
  intro read
  have hread : read = if (u.lastOutputTextOffset : ℤ) < 1 then
      ([], { u with lastOutputTextOffset := 1 }) else ([], u) := by
    show u.getNextOutputText params false true = _
    unfold Detokenizer.getNextOutputText
    simp [hblank.buffer_eq, h.outputText]
  rw [hread]
  split
  · exact ⟨rfl, ⟨h.outputText, h.promptLen_le⟩, le_rfl⟩
  · exact ⟨rfl, h, by dsimp only; omega⟩

theorem processChunk_blank (hblank : params.Blank) (h : d.Silent) (chunk : Chunk) :
    let result := processChunk decoder params true d chunk
    (result.2.1 = none → result.1 = [] ∧ result.2.2.Silent ∧
        1 ≤ result.2.2.lastOutputTextOffset) ∧
      ∀ e, result.2.1 = some e → e.outputText.length ≤ 1 ∧
        result.1 = e.outputText.drop d.lastOutputTextOffset := by
  obtain ⟨hoffset, hupdate⟩ := @Detokenizer.Silent.update _ decoder params d hblank h
    chunk.newTokenIds (chunk.finishReason = some .stop)
  unfold processChunk
  dsimp only
  generalize d.update decoder params chunk.newTokenIds (chunk.finishReason = some .stop) = u at *
  cases hfinished : chunk.finishReason.isSome || u.1.isSome with
  | true =>
      rw [if_pos rfl]
      refine ⟨fun hnone => (by cases hnone), fun e he => ?_⟩
      obtain rfl := Option.some.inj he
      refine ⟨?_, ?_⟩
      · rcases hupdate with ⟨-, hsilent⟩ | ⟨-, hlength⟩
        · show u.2.outputText.length ≤ 1
          rw [hsilent.outputText]
          exact Nat.zero_le 1
        · exact hlength
      · rw [Detokenizer.getNextOutputText_last, hoffset]
  | false =>
      rw [if_neg Bool.false_ne_true]
      refine ⟨fun _ => ?_, fun e he => (by cases he)⟩
      obtain ⟨-, hgoes⟩ := Bool.or_eq_false_iff.mp hfinished
      rcases hupdate with ⟨-, hsilent⟩ | ⟨hstops, -⟩
      · exact hsilent.getNextOutputText hblank
      · rw [hgoes] at hstops
        cases hstops

/-- The deltas add up to the text, or there are none. -/
theorem stream_blank (hblank : params.Blank) (h : d.Silent) {chunks : List Chunk}
    {texts : List Text} {ending : Ending}
    (hstream : stream decoder params true d chunks = some (texts, ending)) :
    (1 ≤ d.lastOutputTextOffset → ∀ text ∈ texts, text = []) ∧
      (d.lastOutputTextOffset = 0 → texts.flatten = ending.outputText ∨
        ∀ text ∈ texts, text = []) := by
  induction chunks generalizing d texts with
  | nil => cases hstream
  | cons chunk rest ih =>
      obtain ⟨hgoes, hends⟩ := @processChunk_blank _ decoder params d hblank h chunk
      unfold stream at hstream
      rcases hchunk : processChunk decoder params true d chunk with ⟨text, result, d'⟩
      rw [hchunk] at hgoes hends hstream
      cases result with
      | some e =>
          obtain ⟨rfl, rfl⟩ := Prod.mk.inj (Option.some.inj hstream)
          obtain ⟨hlength, htext⟩ := hends e rfl
          dsimp only at htext
          refine ⟨fun hread => List.forall_mem_singleton.mpr ?_, fun hzero => Or.inl ?_⟩
          · rw [htext, List.drop_of_length_le (by omega)]
          · rw [htext, hzero, List.drop_zero, List.flatten_singleton]
      | none =>
          obtain ⟨⟨later, e⟩, hlater, heq⟩ := Option.map_eq_some_iff.mp hstream
          obtain ⟨rfl, rfl⟩ := Prod.mk.inj heq
          obtain ⟨rfl, hsilent, hread⟩ := hgoes rfl
          have hrest : ∀ text ∈ [] :: later, text = [] :=
            List.forall_mem_cons.mpr ⟨rfl, (ih hsilent hlater).1 hread⟩
          exact ⟨fun _ => hrest, fun _ => Or.inr hrest⟩

end Blank

/-- With no `min_tokens` a stream adds up to the text it ends with, or has no text at all. -/
theorem stream_adds {decoder : Decoder σ} {params : StopParams} (hmin : params.minTokens = 0)
    {promptTokenIds : List TokenId} {decoderState : σ} {chunks : List Chunk}
    {texts : List Text} {ending : Ending}
    (h : stream decoder params true (Detokenizer.init promptTokenIds decoderState) chunks =
      some (texts, ending)) :
    texts.flatten = ending.outputText ∨ ∀ text ∈ texts, text = [] := by
  by_cases hproper : params.Proper
  · exact Or.inl (safeParams_of_proper hproper _ _ _ _ _ _ _ _ h).complete
  · exact (stream_blank (StopParams.blank_of_not_proper hmin hproper) ⟨rfl, le_rfl⟩ h).2 rfl

theorem Detokenizer.update_promptLen_le {d : Detokenizer σ} (decoder : Decoder σ)
    (params : StopParams) (h : d.promptLen ≤ d.tokenIds.length) (newTokenIds : List TokenId)
    (stopTerminated : Bool) :
    let u := (d.update decoder params newTokenIds stopTerminated).2
    u.promptLen ≤ u.tokenIds.length := by
  intro u
  have ha := d.absorb_absorbed decoder params newTokenIds stopTerminated
  have hle : d.promptLen ≤ (d.tokenIds ++ newTokenIds).length := by
    rw [List.length_append]
    exact le_add_right h
  rw [← ha.tokenIds, ← ha.promptLen] at hle
  have hsame : u.promptLen = (d.absorb decoder params newTokenIds stopTerminated).1.promptLen ∧
      u.tokenIds = (d.absorb decoder params newTokenIds stopTerminated).1.tokenIds := by
    show (d.update decoder params newTokenIds stopTerminated).2.promptLen = _ ∧
      (d.update decoder params newTokenIds stopTerminated).2.tokenIds = _
    rcases d.update_spec decoder params newTokenIds stopTerminated with ⟨hupdate, -⟩ |
      ⟨m, -, -, -, hupdate⟩
    · rw [hupdate]
      exact ⟨rfl, rfl⟩
    · rw [hupdate]
      exact ⟨rfl, rfl⟩
  rw [hsame.1, hsame.2]
  exact hle

namespace Frontend

/-! ### A child and its mirror -/

theorem RequestState.turn_promptLen_le {state : RequestState σ} (decoder : Decoder σ)
    (params : SamplingParams) (now : ℚ) (output : EngineCoreOutput)
    (h : state.detokenizer.promptLen ≤ state.detokenizer.tokenIds.length) :
    let d := (state.turn decoder params now output).state.detokenizer
    d.promptLen ≤ d.tokenIds.length := by
  intro d
  obtain ⟨-, -, hread⟩ := state.turn_update decoder params now output
  obtain ⟨read, heq⟩ := Detokenizer.getNextOutputText_readTo params.stop
    (state.detokenizer.update decoder params.stop output.newTokenIds
      (output.finishReason = some .stop)).2 _ _
  rw [show d = _ from hread.trans heq]
  exact Detokenizer.update_promptLen_le decoder params.stop h _ _

theorem RequestState.turn_numCachedTokens (state : RequestState σ) (decoder : Decoder σ)
    (params : SamplingParams) (now : ℚ) (output : EngineCoreOutput) :
    (state.turn decoder params now output).state.numCachedTokens = output.numCachedTokens := by
  have htimed := RequestState.timed { state with
    detokenizer := (state.detokenizer.update decoder params.stop output.newTokenIds
      (output.finishReason = some .stop)).2
    numCachedTokens := output.numCachedTokens } now output
  exact htimed.numCachedTokens

/-- A child that is streamed, and the same child when it is not, whatever the stop strings: in
flight with the same tokens, or over for the same reason, after as many reports. -/
inductive Mirror (params : StopParams) (i : ℕ) : Child σ → Child σ → Prop where
  | running {streamed whole : List CompletionOutput} {s w : RequestState σ} {read : ℕ}
      (streams : Asked params true i s) (waits : Asked params false i w)
      (detokenizer : s.detokenizer = w.detokenizer.readTo read)
      (prompt : w.detokenizer.promptLen ≤ w.detokenizer.tokenIds.length)
      (count : streamed.length = whole.length)
      (tokens : (streamed.map (·.tokenIds.length)).sum = w.detokenizer.outputTokenIds.length)
      (going : ∀ completion ∈ streamed, completion.finishReason = none)
      (goes : ∀ completion ∈ whole, completion.finishReason = none) :
      Mirror params i ⟨streamed, some s⟩ ⟨whole, some w⟩
  | ended {streamed whole : List CompletionOutput} {last final : CompletionOutput}
      (finished : final.finishReason.isSome = true)
      (finishReason : last.finishReason = final.finishReason)
      (count : streamed.length = whole.length)
      (tokens : ((streamed ++ [last]).map (·.tokenIds.length)).sum = final.tokenIds.length)
      (going : ∀ completion ∈ streamed, completion.finishReason = none) :
      Mirror params i ⟨streamed ++ [last], none⟩ ⟨whole ++ [final], none⟩

section Mirror

variable {decoder : Decoder σ} {params : StopParams} {i : ℕ}

/-- Children that have just been registered. -/
theorem Mirror.start {s w : RequestState σ} {promptTokenIds : List TokenId} {decoderState : σ}
    (streams : Asked params true i s) (waits : Asked params false i w)
    (hs : s.detokenizer = .init promptTokenIds decoderState)
    (hw : w.detokenizer = .init promptTokenIds decoderState) :
    Mirror params i ⟨[], some s⟩ ⟨[], some w⟩ := by
  have hsame : s.detokenizer = w.detokenizer.readTo w.detokenizer.lastOutputTextOffset :=
    hs.trans hw.symm
  refine .running streams waits hsame ?_ rfl ?_ ?_ ?_
  · rw [hw]
    exact le_rfl
  · rw [hw]
    show 0 = (promptTokenIds.drop promptTokenIds.length).length
    rw [List.drop_length]
    rfl
  · exact fun completion hmem => absurd hmem List.not_mem_nil
  · exact fun completion hmem => absurd hmem List.not_mem_nil

/-- An output keeps a child and its mirror. -/
theorem Mirror.output {streamed whole : Child σ} (h : Mirror params i streamed whole) (now : ℚ)
    (output : EngineCoreOutput) :
    Mirror params i (streamed.output decoder now output) (whole.output decoder now output) := by
  cases h with
  | ended hfinished hreason hcount htokens hgoing =>
      exact .ended hfinished hreason hcount htokens hgoing
  | running hstreams hwaits hdetokenizer hprompt hcount htokens hgoing hgoes =>
      rename_i chunks made s w read
      obtain ⟨own, hkind, hdelta, rfl⟩ := hstreams.kind
      obtain ⟨own', hkind', hwhole, hstop⟩ := hwaits.kind
      rw [Child.output_of_some decoder now output rfl hkind,
        Child.output_of_some decoder now output rfl hkind']
      have hstreams' := hstreams.turn decoder own now output
      have hwaits' := hwaits.turn decoder own' now output
      have hpaired := paired_turns decoder (s := s.prefilled) (w := w.prefilled)
        hdetokenizer hprompt (of_decide_eq_true hdelta) (of_decide_eq_false hwhole) hstop now
        output
      have hprompt' := @RequestState.turn_promptLen_le _ w.prefilled decoder own' now output hprompt
      generalize s.prefilled.turn decoder own now output = turn at *
      generalize w.prefilled.turn decoder own' now output = turn' at *
      obtain ⟨read', hread'⟩ := hpaired.detokenizer
      have hsum : ((chunks ++ [turn.completion]).map (·.tokenIds.length)).sum =
          (w.detokenizer.outputTokenIds ++ output.newTokenIds).length := by
        rw [List.map_append, List.sum_append, htokens, List.map_singleton, List.sum_singleton,
          hpaired.streamed, List.length_append]
      have hlength : (chunks ++ [turn.completion]).length =
          (made ++ [turn'.completion]).length := by
        rw [List.length_append, List.length_append, hcount]
        rfl
      cases hfinished : turn.finishReason.isSome with
      | true =>
          have hfinished' : turn'.finishReason.isSome = true := by
            rw [← hpaired.finishReason, hfinished]
          rw [if_pos rfl, if_pos hfinished']
          refine .ended (by rw [hpaired.reason', hfinished']) ?_ hcount ?_ hgoing
          · rw [hpaired.reason, hpaired.reason', hpaired.finishReason]
          · rw [hsum, hpaired.whole]
            rfl
      | false =>
          have hnone : turn.finishReason = none :=
            Option.isNone_iff_eq_none.mp (Option.isSome_eq_false_iff.mp hfinished)
          have hnone' : turn'.finishReason = none := hpaired.finishReason.symm.trans hnone
          rw [if_neg Bool.false_ne_true, hnone', Option.isSome_none, if_neg Bool.false_ne_true]
          refine .running hstreams' hwaits' hread' hprompt' hlength ?_ ?_ ?_
          · rw [hsum, hpaired.recorded]
            rfl
          · exact List.forall_mem_append.mpr ⟨hgoing, List.forall_mem_singleton.mpr
              (hpaired.reason.trans hnone)⟩
          · exact List.forall_mem_append.mpr ⟨hgoes, List.forall_mem_singleton.mpr
              (hpaired.reason'.trans hnone')⟩

/-- A child and its mirror are given the same outputs. -/
theorem Mirror.follow {streamed whole : Child σ} (h : Mirror params i streamed whole) (id : Text)
    (outputs : List (ℚ × EngineCoreOutput)) :
    Mirror params i (streamed.follow decoder id outputs) (whole.follow decoder id outputs) := by
  induction outputs generalizing streamed whole with
  | nil => exact h
  | cons o rest ih =>
      rw [Child.follow_cons, Child.follow_cons]
      by_cases hid : o.2.requestId = id
      · rw [if_pos hid, if_pos hid]
        exact ih (h.output o.1 o.2)
      · rw [if_neg hid, if_neg hid]
        exact ih h

/-- They finish together. -/
theorem Mirror.finished {streamed whole : Child σ} (h : Mirror params i streamed whole) :
    streamed.finished = whole.finished := by
  cases h with
  | running _ _ _ _ _ _ hgoing hgoes =>
      rw [Child.finished_of_going hgoing, Child.finished_of_going hgoes]
  | ended _ hreason _ _ _ =>
      unfold Child.finished
      rw [List.getLast?_concat, List.getLast?_concat]
      show Option.isSome _ = Option.isSome _
      rw [hreason]

theorem Mirror.length {streamed whole : Child σ} (h : Mirror params i streamed whole) :
    streamed.chunks.length = whole.chunks.length := by
  cases h with
  | running _ _ _ _ hcount _ _ _ => exact hcount
  | ended _ _ hcount _ _ =>
      simp only [List.length_append, hcount, List.length_singleton]

end Mirror

/-! ### What they have made once they are over -/

def ownOutputs (id : Text) (outputs : List (ℚ × EngineCoreOutput)) :
    List (ℚ × EngineCoreOutput) :=
  outputs.filter fun o => o.2.requestId = id

theorem Child.follow_ownOutputs (decoder : Decoder σ) (id : Text) (child : Child σ)
    (outputs : List (ℚ × EngineCoreOutput)) :
    child.follow decoder id (ownOutputs id outputs) = child.follow decoder id outputs := by
  induction outputs generalizing child with
  | nil => rfl
  | cons o rest ih =>
      unfold ownOutputs at ih ⊢
      rw [List.filter_cons, Child.follow_cons]
      by_cases hid : o.2.requestId = id
      · rw [if_pos (decide_eq_true hid), Child.follow_cons, if_pos hid]
        exact ih _
      · rw [if_neg (by simpa using hid), if_neg hid]
        exact ih _

section Results

variable {decoder : Decoder σ} {params : StopParams} {i : ℕ}

theorem Child.follow_going {delta : Bool} {state : RequestState σ}
    (hasked : Asked params delta i state) {made : List CompletionOutput} {id : Text}
    {outputs : List (ℚ × EngineCoreOutput)} (hids : ∀ o ∈ outputs, o.2.requestId = id)
    (hgoing : ∀ completion ∈ made, completion.finishReason = none)
    (h : stream decoder params delta state.detokenizer
      (outputs.map fun o => ⟨o.2.newTokenIds, o.2.finishReason⟩) = none) :
    ((Child.mk made (some state)).follow decoder id outputs).finished = false := by
  induction outputs generalizing state made with
  | nil => exact Child.finished_of_going hgoing
  | cons o rest ih =>
      obtain ⟨hid, hrest⟩ := List.forall_mem_cons.mp hids
      obtain ⟨own, hkind, hdelta, hstop⟩ := hasked.kind
      have hnext := hasked.turn decoder own o.1 o.2
      rw [Child.follow_cons, if_pos hid, Child.output_of_some decoder o.1 o.2 rfl hkind]
      obtain ⟨-, hends, hread⟩ := state.prefilled.turn_processChunk decoder own o.1 o.2
      have hreason := state.prefilled.turn_finishReason decoder own o.1 o.2
      generalize state.prefilled.turn decoder own o.1 o.2 = turn at *
      rw [show state.prefilled.detokenizer = state.detokenizer from rfl, hdelta, hstop]
        at hends hread
      rw [List.map_cons] at h
      unfold stream at h
      rcases hresult : processChunk decoder params delta state.detokenizer
        ⟨o.2.newTokenIds, o.2.finishReason⟩ with ⟨text, result, d⟩
      rw [hresult] at h hends hread
      cases result with
      | some e => cases h
      | none =>
          rw [Option.isSome_none] at hends
          rw [hends, if_neg Bool.false_ne_true]
          refine ih hnext hrest ?_ ?_
          · refine List.forall_mem_append.mpr ⟨hgoing, List.forall_mem_singleton.mpr ?_⟩
            rw [← hreason] at hends
            exact Option.isNone_iff_eq_none.mp (Option.isSome_eq_false_iff.mp hends)
          · rw [hread]
            exact Option.map_eq_none_iff.mp h

/-- What a child and its mirror have made once they are over. -/
structure MirrorResults (streamed whole : List CompletionOutput) : Prop where
  ends : ∃ before last made final, streamed = before ++ [last] ∧ whole = made ++ [final] ∧
    (∀ completion ∈ before, completion.finishReason = none) ∧
    final.finishReason.isSome = true ∧ last.finishReason = final.finishReason ∧
    (streamed.map (·.tokenIds.length)).sum = final.tokenIds.length ∧
    (streamed.flatMap (·.text) = final.text ∨ ∀ completion ∈ streamed, completion.text = [])
  count : streamed.length = whole.length

/-- The deltas add up to the text, or there are none; the tokens always add up. -/
theorem mirrorResults {s w : RequestState σ} {promptTokenIds : List TokenId} {decoderState : σ}
    (hmin : params.minTokens = 0) (streams : Asked params true i s)
    (waits : Asked params false i w) (hs : s.detokenizer = .init promptTokenIds decoderState)
    (hw : w.detokenizer = .init promptTokenIds decoderState) (id : Text)
    (outputs : List (ℚ × EngineCoreOutput))
    (hfinished : ((Child.mk [] (some w)).follow decoder id outputs).finished = true) :
    MirrorResults ((Child.mk [] (some s)).follow decoder id outputs).chunks
      ((Child.mk [] (some w)).follow decoder id outputs).chunks := by
  have hmirror := @Mirror.follow σ decoder _ _ _ _ (Mirror.start streams waits hs hw) id outputs
  have hids : ∀ o ∈ ownOutputs id outputs, o.2.requestId = id := fun o ho =>
    of_decide_eq_true (List.mem_filter.mp ho).2
  -- the streams that the two children are
  obtain ⟨texts, ending, hstream⟩ : ∃ texts ending, stream decoder params true s.detokenizer
      ((ownOutputs id outputs).map fun o => ⟨o.2.newTokenIds, o.2.finishReason⟩) =
        some (texts, ending) := by
    rcases hstream : stream decoder params true s.detokenizer
      ((ownOutputs id outputs).map fun o => ⟨o.2.newTokenIds, o.2.finishReason⟩)
      with _ | ⟨texts, ending⟩
    · have hgoes := @Child.follow_going σ decoder params i true s streams [] id _ hids
        (fun completion hmem => absurd hmem List.not_mem_nil) hstream
      rw [Child.follow_ownOutputs, hmirror.finished, hfinished] at hgoes
      cases hgoes
    · exact ⟨texts, ending, hstream⟩
  obtain ⟨texts', hwhole, hlast⟩ := stream_readTo decoder params w.detokenizer
    w.detokenizer.lastOutputTextOffset (by rw [hs] at hstream; rw [hw]; exact hstream)
  have htexts := (Child.follow_stream streams [] hids hstream).1
  have htexts' := (Child.follow_stream waits [] hids hwhole).1
  rw [Child.follow_ownOutputs] at htexts htexts'
  rw [hs] at hstream
  have hadds := stream_adds hmin hstream
  have hcount := hmirror.length
  generalize (Child.mk [] (some s)).follow decoder id outputs = streamed at *
  generalize (Child.mk [] (some w)).follow decoder id outputs = whole at *
  cases hmirror with
  | running _ _ _ _ _ _ _ hgoes =>
      rw [Child.finished_of_going hgoes] at hfinished
      cases hfinished
  | ended hisSome hreason hsame htokens hgoing =>
      rename_i before made last final
      refine ⟨⟨before, last, made, final, rfl, rfl, hgoing, hisSome, hreason, htokens, ?_⟩, hcount⟩
      replace htexts : (before ++ [last]).map (·.text) = texts := htexts
      replace htexts' : (made ++ [final]).map (·.text) = texts' := htexts'
      have hfinal : final.text = ending.outputText := by
        rw [← htexts', List.map_append] at hlast
        exact Option.some.inj ((List.getLast?_concat ..).symm.trans hlast)
      rw [List.flatMap_def, htexts, hfinal]
      rcases hadds with hsum | hall
      · exact Or.inl hsum
      · refine Or.inr fun completion hmem => hall _ ?_
        rw [← htexts]
        exact List.mem_map_of_mem hmem

end Results

/-! ### What its reports say is cached -/

section Cached

variable {detokenizing : Detokenizing σ} {requestId : Text} {params : SamplingParams}
  {promptTokenIds : List TokenId} {child : Child σ}

theorem Solo.reports_call {session : Session σ}
    (h : Solo requestId params promptTokenIds child session.processor
      (reports requestId session.emitted)) (o : ℚ × EngineCoreOutput) :
    (reports requestId (session.call detokenizing (.processOutput o.1 o.2)).emitted).map
        (·.numCachedTokens) =
      (reports requestId session.emitted).map (·.numCachedTokens) ++
        if o.2.requestId = requestId ∧ child.state.isSome then [o.2.numCachedTokens] else [] := by
  rw [Session.call_processOutput]
  dsimp only
  rw [reports_append, List.map_append]
  congr 1
  by_cases hid : o.2.requestId = requestId
  · cases hstate : child.state with
    | some state =>
        rw [if_pos ⟨hid, rfl⟩, h.reports_own o.1 session.stats hid hstate, List.map_singleton,
          RequestState.turn_numCachedTokens]
    | none =>
        rw [if_neg fun hown => Bool.false_ne_true hown.2,
          OutputProcessor.processOutput_unknown (by rw [hid, h.live, hstate])]
        rfl
  · rw [if_neg fun hown => hid hown.1, reports_processOutput hid h.foreign]
    rfl

/-- The counts of the reports are those of the first outputs. -/
theorem Solo.run_numCachedTokens {session : Session σ}
    (h : Solo requestId params promptTokenIds child session.processor
      (reports requestId session.emitted)) (outputs : List (ℚ × EngineCoreOutput)) :
    let ended := session.run detokenizing (outputs.map fun o => .processOutput o.1 o.2)
    ∃ counts, (reports requestId ended.emitted).map (·.numCachedTokens) =
        (reports requestId session.emitted).map (·.numCachedTokens) ++ counts ∧
      counts <+: (ownOutputs requestId outputs).map (·.2.numCachedTokens) := by
  induction outputs generalizing session child with
  | nil => exact ⟨[], (List.append_nil _).symm, List.nil_prefix⟩
  | cons o rest ih =>
      have hnext := h.call detokenizing o
      have hcall := @Solo.reports_call _ detokenizing _ _ _ _ _ h o
      have hended := hnext.run detokenizing rest
      obtain ⟨counts, hcounts, hkeeps⟩ := ih hnext
      rw [hcall] at hcounts
      by_cases hid : o.2.requestId = requestId
      · have hown : ownOutputs requestId (o :: rest) = o :: ownOutputs requestId rest :=
          List.filter_cons_of_pos (decide_eq_true hid)
        rw [hown, List.map_cons]
        cases hstate : child.state with
        | some state =>
            rw [hstate, if_pos ⟨hid, rfl⟩, List.append_assoc] at hcounts
            exact ⟨_, hcounts, List.cons_prefix_cons.mpr ⟨rfl, hkeeps⟩⟩
        | none =>
            -- after its end there are no more reports
            rw [hstate, if_neg fun hown => Bool.false_ne_true hown.2, List.append_nil] at hcounts
            rw [if_pos hid, Child.output_of_none _ _ _ hstate, Child.follow_of_none hstate]
              at hended
            have hbefore := congrArg List.length h.sent
            have hafter := congrArg List.length hended.sent
            have hlength := congrArg List.length hcounts
            simp only [List.length_map, List.length_append] at hbefore hafter hlength
            have hnil : counts = [] := List.length_eq_zero_iff.mp (by
              have heq := hlength.symm.trans (hafter.trans hbefore.symm)
              omega)
            subst hnil
            exact ⟨[], hcounts, List.nil_prefix⟩
      · have hown : ownOutputs requestId (o :: rest) = ownOutputs requestId rest :=
          List.filter_cons_of_neg (by simpa using hid)
        rw [if_neg fun hown => hid hown.1, List.append_nil] at hcounts
        rw [hown]
        exact ⟨counts, hcounts, hkeeps⟩

end Cached

end Frontend

end Pvllm
