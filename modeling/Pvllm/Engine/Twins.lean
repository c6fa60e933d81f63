import Pvllm.Engine.Generate

/-!
A child that is streamed and one that is not, of the same outputs.

Their detokenizers differ in nothing but how much has been read, so that they end
together, for the same reason. What has been streamed is what the other says at the end
when no stop string can cut text that is out, which is what proper parameters give.
-/

namespace Pvllm

variable {σ : Type}

namespace Detokenizer

def readTo (d : Detokenizer σ) (offset : ℕ) : Detokenizer σ :=
  { d with lastOutputTextOffset := offset }

section ReadTo

variable (decoder : Decoder σ) (params : StopParams) (d : Detokenizer σ) (offset : ℕ)

@[simp] theorem readTo_tokenIds : (d.readTo offset).tokenIds = d.tokenIds := rfl
@[simp] theorem readTo_promptLen : (d.readTo offset).promptLen = d.promptLen := rfl
@[simp] theorem readTo_outputText : (d.readTo offset).outputText = d.outputText := rfl
@[simp] theorem readTo_numOutputTokens :
    (d.readTo offset).numOutputTokens = d.numOutputTokens := rfl
@[simp] theorem readTo_outputTokenIds : (d.readTo offset).outputTokenIds = d.outputTokenIds := rfl
@[simp] theorem readTo_readTo (other : ℕ) : (d.readTo offset).readTo other = d.readTo other := rfl

theorem decodeAll_readTo (check : ℕ) (newTokenIds : List TokenId) :
    decodeAll decoder params (d.readTo offset) check newTokenIds =
      ((decodeAll decoder params d check newTokenIds).1.readTo offset,
        (decodeAll decoder params d check newTokenIds).2) := by
  induction newTokenIds generalizing d check with
  | nil => rfl
  | cons newTokenId rest ih => exact ih (d.decodeOne decoder newTokenId) _

theorem absorb_readTo (newTokenIds : List TokenId) (stopTerminated : Bool) :
    (d.readTo offset).absorb decoder params newTokenIds stopTerminated =
      ((d.absorb decoder params newTokenIds stopTerminated).1.readTo offset,
        (d.absorb decoder params newTokenIds stopTerminated).2) := by
  unfold absorb
  split
  · rw [readTo_outputText, decodeAll_readTo]
    rfl
  · exact decodeAll_readTo ..

/-- Nothing an update does depends on what has been read. -/
theorem update_readTo (newTokenIds : List TokenId) (stopTerminated : Bool) :
    (d.readTo offset).update decoder params newTokenIds stopTerminated =
      ((d.update decoder params newTokenIds stopTerminated).1,
        (d.update decoder params newTokenIds stopTerminated).2.readTo offset) := by
  unfold update
  split
  · rfl
  · rw [absorb_readTo]
    generalize d.absorb decoder params newTokenIds stopTerminated = a
    dsimp only
    by_cases hsearch : params.stop ≠ [] ∧ params.minTokens < (a.1.readTo offset).numOutputTokens
    · rw [if_pos hsearch, if_pos (readTo_numOutputTokens a.1 offset ▸ hsearch), readTo_outputText]
      split
      · rfl
      · split <;> rfl
    · rw [if_neg hsearch, if_neg (readTo_numOutputTokens a.1 offset ▸ hsearch)]

theorem update_outputTokenIds (hprompt : d.promptLen ≤ d.tokenIds.length)
    (newTokenIds : List TokenId) (stopTerminated : Bool) :
    (d.update decoder params newTokenIds stopTerminated).2.outputTokenIds =
      d.outputTokenIds ++ newTokenIds := by
  have ha := d.absorb_absorbed decoder params newTokenIds stopTerminated
  have htokens : (d.absorb decoder params newTokenIds stopTerminated).1.outputTokenIds =
      d.outputTokenIds ++ newTokenIds := by
    unfold outputTokenIds
    rw [ha.tokenIds, ha.promptLen, List.drop_append_of_le_length hprompt]
  rcases d.update_spec decoder params newTokenIds stopTerminated with ⟨hupdate, -⟩ |
    ⟨m, -, -, -, hupdate⟩
  · rw [hupdate]
    exact htokens
  · rw [hupdate]
    exact htokens

/-- Reading changes nothing but what has been read. -/
theorem getNextOutputText_readTo (finished delta : Bool) :
    ∃ read, (d.getNextOutputText params finished delta).2 = d.readTo read := by
  unfold getNextOutputText
  cases delta with
  | false => exact ⟨d.lastOutputTextOffset, rfl⟩
  | true =>
      dsimp only
      generalize (d.outputText.length : ℤ) - (if finished then 0 else params.stopBufferLength) =
        length
      rw [if_pos rfl]
      split
      · exact ⟨_, rfl⟩
      · exact ⟨d.lastOutputTextOffset, rfl⟩

end ReadTo

end Detokenizer

namespace Frontend

/-- A turn, by what it does to the detokenizer. -/
theorem RequestState.turn_update (state : RequestState σ) (decoder : Decoder σ)
    (params : SamplingParams) (now : ℚ) (output : EngineCoreOutput) :
    let turn := state.turn decoder params now output
    let updated := state.detokenizer.update decoder params.stop output.newTokenIds
      (output.finishReason = some .stop)
    let finishReason := if updated.1.isSome && output.finishReason.isNone then some .stop
      else output.finishReason
    let read := updated.2.getNextOutputText params.stop finishReason.isSome
      (params.outputKind = .delta)
    turn.completion = ⟨state.index, read.1,
        if params.outputKind = .delta then output.newTokenIds else read.2.outputTokenIds,
        finishReason, updated.1.elim output.stopReason fun s => some (.string s)⟩ ∧
      turn.finishReason = finishReason ∧ turn.state.detokenizer = read.2 := by
  intro turn updated finishReason read
  have htimed := RequestState.timed { state with
    detokenizer := updated.2
    numCachedTokens := output.numCachedTokens } now output
  have hdetokenizer : ((output.events.foldl foldEvent { state with
      detokenizer := updated.2
      numCachedTokens := output.numCachedTokens }).recordTokens now
        output.newTokenIds.length).2.detokenizer.getNextOutputText params.stop
          finishReason.isSome (params.outputKind = .delta) = read := by
    rw [htimed.detokenizer]
  refine ⟨?_, rfl, congrArg Prod.snd hdetokenizer⟩
  show CompletionOutput.mk _ _ _ _ _ = _
  rw [CompletionOutput.mk.injEq]
  refine ⟨htimed.index, congrArg Prod.fst hdetokenizer, ?_, rfl, ?_⟩
  · simp only [decide_eq_true_eq]
    exact if_congr Iff.rfl rfl (congrArg (fun r => r.2.outputTokenIds) hdetokenizer)
  · have hstop : turn.completion.stopReason =
        updated.1.elim output.stopReason fun s => some (.string s) := by
      unfold turn updated RequestState.turn
      dsimp only
      generalize state.detokenizer.update decoder params.stop output.newTokenIds
        (output.finishReason = some .stop) = found
      obtain ⟨stopString, d⟩ := found
      cases stopString <;> rfl
    exact hstop

/-- What a child in flight is asked for. -/
structure Asked (params : StopParams) (delta : Bool) (i : ℕ) (state : RequestState σ) : Prop where
  kind : ∃ own, state.kind = .generate own ∧ decide (own.outputKind = .delta) = delta ∧
    own.stop = params
  index : state.index = i

/-- A child that is streamed, and the same child when it is not: in flight with the same
tokens and text, or over with the same result. -/
inductive Twin (params : StopParams) (i : ℕ) : Child σ → Child σ → Prop where
  | running {streamed whole : List CompletionOutput} {s w : RequestState σ} {read : ℕ}
      (streams : Asked params true i s) (waits : Asked params false i w)
      (detokenizer : s.detokenizer = w.detokenizer.readTo read)
      (held : Held params true s.detokenizer (streamed.flatMap (·.text)))
      (tokens : (streamed.map (·.tokenIds.length)).sum = s.detokenizer.outputTokenIds.length)
      (going : ∀ completion ∈ streamed, completion.finishReason = none)
      (goes : ∀ completion ∈ whole, completion.finishReason = none) :
      Twin params i ⟨streamed, some s⟩ ⟨whole, some w⟩
  | ended {streamed whole : List CompletionOutput} {last final : CompletionOutput}
      (finished : final.finishReason.isSome = true)
      (index : final.index = i)
      (finishReason : last.finishReason = final.finishReason)
      (stopReason : last.stopReason = final.stopReason)
      (text : (streamed ++ [last]).flatMap (·.text) = final.text)
      (tokens : ((streamed ++ [last]).map (·.tokenIds.length)).sum = final.tokenIds.length)
      (going : ∀ completion ∈ streamed, completion.finishReason = none) :
      Twin params i ⟨streamed ++ [last], none⟩ ⟨whole ++ [final], none⟩

section Twin

variable {decoder : Decoder σ} {params : StopParams} {i : ℕ}

/-- Children that have just been registered. -/
theorem Twin.start {s w : RequestState σ} {promptTokenIds : List TokenId} {decoderState : σ}
    (streams : Asked params true i s) (waits : Asked params false i w)
    (hs : s.detokenizer = .init promptTokenIds decoderState)
    (hw : w.detokenizer = .init promptTokenIds decoderState) :
    Twin params i ⟨[], some s⟩ ⟨[], some w⟩ := by
  have hsame : s.detokenizer = w.detokenizer.readTo w.detokenizer.lastOutputTextOffset :=
    hs.trans hw.symm
  refine .running streams waits hsame ?_ ?_ ?_ ?_
  · rw [hs]
    exact held_init promptTokenIds decoderState
  · rw [hs]
    show 0 = (promptTokenIds.drop promptTokenIds.length).length
    rw [List.drop_length]
    rfl
  · exact fun completion hmem => absurd hmem List.not_mem_nil
  · exact fun completion hmem => absurd hmem List.not_mem_nil

theorem processChunk_ending (decoder : Decoder σ) (params : StopParams) (delta : Bool)
    (d : Detokenizer σ) (chunk : Chunk) (e : Ending)
    (h : (processChunk decoder params delta d chunk).2.1 = some e) :
    e.outputText = (processChunk decoder params delta d chunk).2.2.outputText := by
  unfold processChunk at h ⊢
  dsimp only at h ⊢
  split at h
  · obtain ⟨read, hread⟩ := Detokenizer.getNextOutputText_readTo params
      (d.update decoder params chunk.newTokenIds (chunk.finishReason = some .stop)).2
      (chunk.finishReason.isSome || (d.update decoder params chunk.newTokenIds
        (chunk.finishReason = some .stop)).1.isSome) delta
    rw [hread]
    exact congrArg Ending.outputText (Option.some.inj h).symm
  · cases h

/-- A turn keeps what was asked for. -/
theorem Asked.turn (decoder : Decoder σ) {delta : Bool} {state : RequestState σ}
    (h : Asked params delta i state) (own : SamplingParams) (now : ℚ) (output : EngineCoreOutput) :
    Asked params delta i (state.prefilled.turn decoder own now output).state := by
  have hsame := (state.prefilled.turn_same decoder own now output).trans state.prefilled_same
  obtain ⟨asked, hkind, hrest⟩ := h.kind
  exact ⟨⟨asked, hsame.kind.trans hkind, hrest⟩, hsame.index.trans h.index⟩

/-- The turns two twins take on one output. -/
structure Paired (tokenIds newTokenIds : List TokenId) (streams waits : RequestState.Turn σ) :
    Prop where
  finishReason : streams.finishReason = waits.finishReason
  reason : streams.completion.finishReason = streams.finishReason
  reason' : waits.completion.finishReason = waits.finishReason
  stopReason : streams.completion.stopReason = waits.completion.stopReason
  streamed : streams.completion.tokenIds = newTokenIds
  whole : waits.completion.tokenIds = tokenIds ++ newTokenIds
  recorded : waits.state.detokenizer.outputTokenIds = tokenIds ++ newTokenIds
  text : waits.finishReason.isSome = true →
    waits.completion.text = waits.state.detokenizer.outputText
  detokenizer : ∃ read, streams.state.detokenizer = waits.state.detokenizer.readTo read

theorem paired_turns (decoder : Decoder σ) {s w : RequestState σ}
    {own own' : SamplingParams} {read : ℕ}
    (hdetokenizer : s.detokenizer = w.detokenizer.readTo read)
    (hprompt : w.detokenizer.promptLen ≤ w.detokenizer.tokenIds.length)
    (hdelta : own.outputKind = .delta) (hwhole : own'.outputKind ≠ .delta)
    (hstop : own'.stop = own.stop) (now : ℚ) (output : EngineCoreOutput) :
    Paired w.detokenizer.outputTokenIds output.newTokenIds (s.turn decoder own now output)
      (w.turn decoder own' now output) := by
  obtain ⟨hcompletion, hfinish, hnext⟩ := s.turn_update decoder own now output
  obtain ⟨hcompletion', hfinish', hnext'⟩ := w.turn_update decoder own' now output
  have hrecorded := w.detokenizer.update_outputTokenIds decoder own.stop hprompt
    output.newTokenIds (output.finishReason = some .stop)
  rw [hdetokenizer, Detokenizer.update_readTo] at hcompletion hfinish hnext
  rw [hstop] at hcompletion' hfinish' hnext'
  generalize w.detokenizer.update decoder own.stop output.newTokenIds
    (output.finishReason = some .stop) = u at *
  dsimp only at hcompletion hfinish hnext hcompletion' hfinish' hnext'
  generalize (if u.1.isSome && output.finishReason.isNone then some FinishReason.stop
    else output.finishReason) = finishReason at *
  rw [if_pos hdelta] at hcompletion
  rw [if_neg hwhole, decide_eq_false hwhole] at hcompletion'
  rw [decide_eq_false hwhole] at hnext'
  have hkept : (w.turn decoder own' now output).state.detokenizer = u.2 := hnext'
  refine ⟨hfinish.trans hfinish'.symm, ?_, ?_, ?_, ?_, ?_, ?_, fun hends => ?_, ?_⟩
  · rw [hcompletion, hfinish]
  · rw [hcompletion', hfinish']
  · rw [hcompletion, hcompletion']
  · rw [hcompletion]
  · rw [hcompletion']
    exact hrecorded
  · rw [hkept, hrecorded]
  · rw [hfinish'] at hends
    rw [hcompletion', hkept, hends]
    exact getNextOutputText_finished own.stop u.2 false
  · obtain ⟨read', hread'⟩ := Detokenizer.getNextOutputText_readTo own.stop (u.2.readTo read)
      finishReason.isSome (decide (own.outputKind = .delta))
    exact ⟨read', by rw [hnext, hread', hkept, Detokenizer.readTo_readTo]⟩

/-- An output keeps two children twins. -/
theorem Twin.output (hproper : params.Proper) {streamed whole : Child σ}
    (h : Twin params i streamed whole) (now : ℚ) (output : EngineCoreOutput) :
    Twin params i (streamed.output decoder now output) (whole.output decoder now output) := by
  cases h with
  | ended hfinished hindex hreason hstop htext htokens hgoing =>
      exact .ended hfinished hindex hreason hstop htext htokens hgoing
  | running hstreams hwaits hdetokenizer hheld htokens hgoing hgoes =>
      rename_i chunks made s w read
      obtain ⟨own, hkind, hdelta, rfl⟩ := hstreams.kind
      obtain ⟨own', hkind', hwhole, hstop⟩ := hwaits.kind
      have hdelta := of_decide_eq_true hdelta
      rw [Child.output_of_some decoder now output rfl hkind,
        Child.output_of_some decoder now output rfl hkind']
      have hprompt : w.detokenizer.promptLen ≤ w.detokenizer.tokenIds.length := by
        have hle := hheld.promptLen_le
        rwa [hdetokenizer] at hle
      have hstreams' := hstreams.turn decoder own now output
      have hwaits' := hwaits.turn decoder own' now output
      have hpaired := paired_turns decoder (s := s.prefilled) (w := w.prefilled)
        hdetokenizer hprompt hdelta (of_decide_eq_false hwhole) hstop now output
      have hindex' := (w.prefilled.turn_index decoder own' now output).trans hwaits.index
      -- what a client has of the stream
      have hchunk := s.prefilled.turn_processChunk decoder own now output
      rw [hdelta, decide_eq_true rfl] at hchunk
      obtain ⟨htext, hends, hread⟩ := hchunk
      have hending := processChunk_ending decoder own.stop true s.detokenizer
        ⟨output.newTokenIds, output.finishReason⟩
      rcases hresult : processChunk decoder own.stop true s.detokenizer
        ⟨output.newTokenIds, output.finishReason⟩ with ⟨text, ending, d⟩
      obtain ⟨-, hgoes', hover⟩ := processChunk_held hproper hheld _ hresult
      rw [if_pos rfl] at hgoes' hover
      generalize s.prefilled.turn decoder own now output = turn at *
      generalize w.prefilled.turn decoder own' now output = turn' at *
      rw [show s.prefilled.detokenizer = s.detokenizer from rfl, hresult] at htext hends hread
      rw [hresult] at hending
      dsimp only at htext hends hread hending
      obtain ⟨read', hread'⟩ := hpaired.detokenizer
      have hsum : ((chunks ++ [turn.completion]).map (·.tokenIds.length)).sum =
          (w.detokenizer.outputTokenIds ++ output.newTokenIds).length := by
        rw [List.map_append, List.sum_append, htokens, hdetokenizer, List.map_singleton,
          List.sum_singleton, hpaired.streamed, List.length_append]
        rfl
      have hseen : (chunks ++ [turn.completion]).flatMap (·.text) =
          chunks.flatMap (·.text) ++ text := by
        rw [List.flatMap_append, List.flatMap_singleton, htext]
      cases hfinished : turn.finishReason.isSome with
      | true =>
          have hfinished' : turn'.finishReason.isSome = true := by
            rw [← hpaired.finishReason, hfinished]
          obtain ⟨e, rfl⟩ := Option.isSome_iff_exists.mp (hends ▸ hfinished)
          rw [if_pos rfl, if_pos hfinished']
          refine .ended (by rw [hpaired.reason', hfinished']) hindex' ?_ hpaired.stopReason ?_ ?_
            hgoing
          · rw [hpaired.reason, hpaired.reason', hpaired.finishReason]
          · rw [hseen, hpaired.text hfinished', (hover e rfl).1, hending e rfl, ← hread, hread']
            rfl
          · rw [hsum, hpaired.whole]
            rfl
      | false =>
          have hfinished' : ¬turn'.finishReason.isSome = true := by
            rw [← hpaired.finishReason, hfinished]
            exact Bool.false_ne_true
          have hnone : ending = none := by
            rw [hends] at hfinished
            exact Option.isNone_iff_eq_none.mp (Option.isSome_eq_false_iff.mp hfinished)
          rw [if_neg Bool.false_ne_true, if_neg hfinished']
          refine .running hstreams' hwaits' hread' ?_ ?_ ?_ ?_
          · rw [hseen, hread]
            exact hgoes' hnone
          · rw [hsum, hread', Detokenizer.readTo_outputTokenIds, hpaired.recorded]
            rfl
          · refine List.forall_mem_append.mpr ⟨hgoing, List.forall_mem_singleton.mpr ?_⟩
            rw [hpaired.reason]
            exact Option.isNone_iff_eq_none.mp (Option.isSome_eq_false_iff.mp hfinished)
          · refine List.forall_mem_append.mpr ⟨hgoes, List.forall_mem_singleton.mpr ?_⟩
            rw [hpaired.reason', ← hpaired.finishReason]
            exact Option.isNone_iff_eq_none.mp (Option.isSome_eq_false_iff.mp hfinished)

/-- A child none of whose completions says why it finished has not. -/
theorem Child.finished_of_going {chunks : List CompletionOutput} {state : Option (RequestState σ)}
    (h : ∀ completion ∈ chunks, completion.finishReason = none) :
    (Child.mk chunks state).finished = false := by
  unfold Child.finished
  rw [Bool.eq_false_iff, Ne, Option.any_eq_true]
  rintro ⟨last, hlast, hfinished⟩
  rw [h last (List.mem_of_getLast? hlast)] at hfinished
  cases hfinished

/-- Twins finish together. -/
theorem Twin.finished {streamed whole : Child σ} (h : Twin params i streamed whole) :
    streamed.finished = whole.finished := by
  cases h with
  | running _ _ _ _ _ hgoing hgoes =>
      rw [Child.finished_of_going hgoing, Child.finished_of_going hgoes]
  | ended _ _ hreason _ _ _ _ =>
      unfold Child.finished
      rw [List.getLast?_concat, List.getLast?_concat]
      show Option.isSome _ = Option.isSome _
      rw [hreason]

/-- What twins have made once they are over. -/
structure TwinResults (i : ℕ) (streamed : List CompletionOutput) (final : CompletionOutput) :
    Prop where
  index : final.index = i
  text : streamed.flatMap (·.text) = final.text
  tokens : (streamed.map (·.tokenIds.length)).sum = final.tokenIds.length
  ends : ∃ before last, streamed = before ++ [last] ∧
    (∀ completion ∈ before, completion.finishReason = none) ∧
    last.finishReason.isSome = true ∧ last.finishReason = final.finishReason ∧
    last.stopReason = final.stopReason

theorem Twin.results {streamed whole : Child σ} (h : Twin params i streamed whole)
    (hfinished : whole.finished = true) :
    ∃ final, whole.chunks.getLast? = some final ∧ TwinResults i streamed.chunks final := by
  cases h with
  | running _ _ _ _ _ _ hgoes =>
      rw [Child.finished_of_going hgoes] at hfinished
      cases hfinished
  | ended hisSome hindex hreason hstop htext htokens hgoing =>
      exact ⟨_, List.getLast?_concat .., hindex, htext, htokens, _, _, rfl, hgoing,
        hreason ▸ hisSome, hreason, hstop⟩

/-- Twins that are given the same outputs stay twins. -/
theorem Twin.follow (hproper : params.Proper) {streamed whole : Child σ}
    (h : Twin params i streamed whole) (id : Text) (outputs : List (ℚ × EngineCoreOutput)) :
    Twin params i (streamed.follow decoder id outputs) (whole.follow decoder id outputs) := by
  induction outputs generalizing streamed whole with
  | nil => exact h
  | cons o rest ih =>
      rw [Child.follow_cons, Child.follow_cons]
      by_cases hid : o.2.requestId = id
      · rw [if_pos hid, if_pos hid]
        exact ih (h.output hproper o.1 o.2)
      · rw [if_neg hid, if_neg hid]
        exact ih h

end Twin

end Frontend

/-! ### Children and streams -/

section Follow

variable (decoder : Decoder σ) (params : StopParams)

theorem processChunk_readTo (d : Detokenizer σ) (read : ℕ) (chunk : Chunk) :
    let streamed := processChunk decoder params true (d.readTo read) chunk
    let whole := processChunk decoder params false d chunk
    streamed.2.1 = whole.2.1 ∧ (∃ read', streamed.2.2 = whole.2.2.readTo read') ∧
      ∀ e, whole.2.1 = some e → whole.1 = e.outputText := by
  intro streamed whole
  unfold streamed whole processChunk
  dsimp only
  rw [Detokenizer.update_readTo, Detokenizer.absorb_readTo]
  generalize d.update decoder params chunk.newTokenIds (chunk.finishReason = some .stop) = u
  dsimp only
  refine ⟨rfl, ?_, fun e he => ?_⟩
  · obtain ⟨read', hread'⟩ := Detokenizer.getNextOutputText_readTo params (u.2.readTo read)
      (chunk.finishReason.isSome || u.1.isSome) true
    exact ⟨read', hread'⟩
  · split at he
    · rename_i hfinished
      obtain rfl := Option.some.inj he
      rw [hfinished]
      exact Frontend.getNextOutputText_finished params u.2 false
    · cases he

/-- When nothing is read as it comes, what is read last is the text. -/
theorem stream_readTo (d : Detokenizer σ) (read : ℕ) {chunks : List Chunk} {texts : List Text}
    {ending : Ending}
    (h : stream decoder params true (d.readTo read) chunks = some (texts, ending)) :
    ∃ texts', stream decoder params false d chunks = some (texts', ending) ∧
      texts'.getLast? = some ending.outputText := by
  induction chunks generalizing d read texts with
  | nil => cases h
  | cons chunk rest ih =>
      obtain ⟨hend, ⟨read', hread'⟩, htext⟩ := processChunk_readTo decoder params d read chunk
      unfold stream at h ⊢
      rcases hstreamed : processChunk decoder params true (d.readTo read) chunk with
        ⟨text, result, d₁⟩
      rcases hwhole : processChunk decoder params false d chunk with ⟨text', result', d₂⟩
      rw [hstreamed, hwhole] at hend
      rw [hstreamed, hwhole] at hread'
      rw [hwhole] at htext
      dsimp only at hend hread' htext
      subst hend
      rw [hstreamed] at h
      cases result with
      | some e =>
          obtain ⟨-, rfl⟩ := Prod.mk.inj (Option.some.inj h)
          exact ⟨[text'], rfl, congrArg some (htext e rfl)⟩
      | none =>
          obtain ⟨⟨later, e⟩, hrest, heq⟩ := Option.map_eq_some_iff.mp h
          obtain ⟨rfl, rfl⟩ := Prod.mk.inj heq
          rw [hread'] at hrest
          obtain ⟨texts', hlater, hlast⟩ := ih _ _ hrest
          refine ⟨text' :: texts', ?_, ?_⟩
          · dsimp only
            rw [hlater]
            rfl
          · rw [List.getLast?_cons, hlast]
            rfl

end Follow

namespace Frontend

/-- What comes after the end of a child changes nothing. -/
theorem Child.follow_of_none {decoder : Decoder σ} {child : Child σ} (h : child.state = none)
    (id : Text) (outputs : List (ℚ × EngineCoreOutput)) :
    child.follow decoder id outputs = child := by
  induction outputs with
  | nil => rfl
  | cons o rest ih =>
      rw [Child.follow_cons, Child.output_of_none decoder o.1 o.2 h, ite_self]
      exact ih

/-- The texts a child makes are those of the stream of its reports. -/
theorem Child.follow_stream {decoder : Decoder σ} {params : StopParams} {delta : Bool} {i : ℕ}
    {state : RequestState σ} (hasked : Asked params delta i state) (made : List CompletionOutput)
    {id : Text} {outputs : List (ℚ × EngineCoreOutput)} {texts : List Text} {ending : Ending}
    (hids : ∀ o ∈ outputs, o.2.requestId = id)
    (h : stream decoder params delta state.detokenizer
      (outputs.map fun o => ⟨o.2.newTokenIds, o.2.finishReason⟩) = some (texts, ending)) :
    let ended := (Child.mk made (some state)).follow decoder id outputs
    ended.chunks.map (·.text) = made.map (·.text) ++ texts ∧ ended.finished = true := by
  induction outputs generalizing state made texts with
  | nil => cases h
  | cons o rest ih =>
      obtain ⟨hid, hrest⟩ := List.forall_mem_cons.mp hids
      obtain ⟨own, hkind, hdelta, hstop⟩ := hasked.kind
      have hnext := hasked.turn decoder own o.1 o.2
      rw [Child.follow_cons, if_pos hid, Child.output_of_some decoder o.1 o.2 rfl hkind]
      obtain ⟨htext, hends, hread⟩ := state.prefilled.turn_processChunk decoder own o.1 o.2
      have hreason := state.prefilled.turn_finishReason decoder own o.1 o.2
      generalize state.prefilled.turn decoder own o.1 o.2 = turn at *
      rw [show state.prefilled.detokenizer = state.detokenizer from rfl, hdelta, hstop]
        at htext hends hread
      rw [List.map_cons] at h
      unfold stream at h
      rcases hresult : processChunk decoder params delta state.detokenizer
        ⟨o.2.newTokenIds, o.2.finishReason⟩ with ⟨text, result, d⟩
      rw [hresult] at h htext hends hread
      dsimp only at h htext hends hread
      cases result with
      | some e =>
          obtain ⟨rfl, -⟩ := Prod.mk.inj (Option.some.inj h)
          rw [Option.isSome_some] at hends
          rw [if_pos hends, Child.follow_of_none rfl]
          refine ⟨?_, ?_⟩
          · rw [List.map_append, List.map_singleton, htext]
          · rw [Child.finished_concat, hreason]
            exact hends
      | none =>
          obtain ⟨⟨later, e⟩, hlater, heq⟩ := Option.map_eq_some_iff.mp h
          obtain ⟨rfl, rfl⟩ := Prod.mk.inj heq
          rw [if_neg (by rw [hends]; exact Bool.false_ne_true)]
          rw [← hread] at hlater
          obtain ⟨htexts, hfinished⟩ := ih hnext (made ++ [turn.completion]) hrest hlater
          refine ⟨?_, hfinished⟩
          dsimp only at htexts ⊢
          rw [htexts, List.map_append, List.map_singleton, htext, List.append_assoc]
          rfl

end Frontend

end Pvllm
