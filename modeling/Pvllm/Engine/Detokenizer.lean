import Pvllm.Core.Request
import Pvllm.Library.Occurrence

/-!
Per-request incremental detokenization and stop strings.

A detokenizer appends the text of each token to what it has, and looks for a stop
string that ends in the new part. With stop strings that are kept out of the output it
holds back as many characters as might still become part of one. How a token becomes
text is left open, as `decode_next` is: `Decoder` is that method, with the state it
reads.
-/

namespace Pvllm

abbrev Text := List Char

/-- The sampling parameters the detokenizer reads. -/
structure StopParams where
  stop : List Text
  minTokens : ℕ
  includeStopStrInOutput : Bool
deriving DecidableEq

/-- `decode_next`: the text of the last of the token ids so far, and the state after it. -/
structure Decoder (σ : Type) where
  decodeNext : List TokenId → σ → Text × σ

/-! ### Looking for stop strings -/

/-- The best match so far: the stop string, where it begins and where it ends. -/
structure StopMatch where
  stopStr : Text
  stopIndex : ℕ
  stopEnd : ℕ
deriving DecidableEq

/-- One iteration of the loop over the stop strings: the match that ends first is kept. -/
def betterStop (outputText : Text) (newCharCount : ℕ) (best : Option StopMatch) (stopStr : Text) :
    Option StopMatch :=
  match find outputText stopStr (1 - newCharCount - stopStr.length) with
  | none => best
  | some stopIndex =>
    match best with
    | none => some ⟨stopStr, stopIndex, stopIndex + stopStr.length⟩
    | some old =>
      if stopIndex + stopStr.length < old.stopEnd then
        some ⟨stopStr, stopIndex, stopIndex + stopStr.length⟩
      else best

def bestStop (outputText : Text) (newCharCount : ℕ) (stop : List Text) : Option StopMatch :=
  stop.foldl (betterStop outputText newCharCount) none

/-- Find a stop string in the newly generated text: the string, and where to truncate the
text to, `-1` for no truncation. -/
def checkStopStrings (outputText : Text) (newCharCount : ℕ) (stop : List Text)
    (includeInOutput : Bool) : Option (Text × ℤ) :=
  if newCharCount = 0 ∨ stop = [] then none
  else
    match bestStop outputText newCharCount stop with
    | none => none
    | some best =>
      if includeInOutput then
        if outputText.length ≤ best.stopEnd then some (best.stopStr, -1)
        else some (best.stopStr, best.stopEnd)
      else some (best.stopStr, best.stopIndex)

/-- The characters to withhold from the stream. -/
def StopParams.stopBufferLength (params : StopParams) : ℤ :=
  if params.stop ≠ [] ∧ params.includeStopStrInOutput = false then
    (params.stop.map List.length).foldl max 0 - 1
  else 0

/-! ### The detokenizer -/

/-- The state of a detokenizer; `prompt_len` of its token ids are the prompt's. -/
structure Detokenizer (σ : Type) where
  tokenIds : List TokenId
  promptLen : ℕ
  decoderState : σ
  outputText : Text
  lastOutputTextOffset : ℕ
deriving DecidableEq

namespace Detokenizer

variable {σ : Type} (decoder : Decoder σ) (params : StopParams) (d : Detokenizer σ)

def init (promptTokenIds : List TokenId) (decoderState : σ) : Detokenizer σ where
  tokenIds := promptTokenIds
  promptLen := promptTokenIds.length
  decoderState := decoderState
  outputText := []
  lastOutputTextOffset := 0

def outputTokenIds : List TokenId := d.tokenIds.drop d.promptLen

def numOutputTokens : ℕ := d.tokenIds.length - d.promptLen

/-- One token is recorded, and its text appended. -/
def decodeOne (newTokenId : TokenId) : Detokenizer σ :=
  let tokenIds := d.tokenIds ++ [newTokenId]
  let (text, decoderState) := decoder.decodeNext tokenIds d.decoderState
  { d with
    tokenIds := tokenIds
    outputText := d.outputText ++ text
    decoderState := decoderState }

/-- The loop of `update` over the new tokens, with the place from which text is new to the
search: what comes below `min_tokens` is not. -/
def decodeAll (d : Detokenizer σ) (stopCheckOffset : ℕ) :
    List TokenId → Detokenizer σ × ℕ
  | [] => (d, stopCheckOffset)
  | newTokenId :: rest =>
    let d := d.decodeOne decoder newTokenId
    decodeAll d
      (if params.minTokens ≠ 0 ∧ d.numOutputTokens ≤ params.minTokens then d.outputText.length
        else stopCheckOffset) rest

/-- The part of `update` before the search: the tokens are recorded, all but the one that
triggered a stop rendered. -/
def absorb (newTokenIds : List TokenId) (stopTerminated : Bool) : Detokenizer σ × ℕ :=
  if stopTerminated ∧ params.includeStopStrInOutput = false then
    let (d, stopCheckOffset) :=
      decodeAll decoder params d d.outputText.length newTokenIds.dropLast
    ({ d with tokenIds := d.tokenIds ++ newTokenIds.getLast?.toList }, stopCheckOffset)
  else decodeAll decoder params d d.outputText.length newTokenIds

/-- Absorb new tokens. Answers the matched stop string, if any. -/
def update (newTokenIds : List TokenId) (stopTerminated : Bool) : Option Text × Detokenizer σ :=
  if newTokenIds = [] then (none, d)
  else
    let (d, stopCheckOffset) := d.absorb decoder params newTokenIds stopTerminated
    if params.stop ≠ [] ∧ params.minTokens < d.numOutputTokens then
      match checkStopStrings d.outputText (d.outputText.length - stopCheckOffset) params.stop
          params.includeStopStrInOutput with
      | none => (none, d)
      | some (stopString, truncateTo) =>
        (some stopString,
          if truncateTo = -1 then d
          else { d with outputText := d.outputText.take truncateTo.toNat })
    else (none, d)

/-- Text to hand the client: all of it, or what is new. Once finished nothing is held back. -/
def getNextOutputText (finished delta : Bool) : Text × Detokenizer σ :=
  let bufferLength := if finished then 0 else params.stopBufferLength
  if delta then
    let length : ℤ := d.outputText.length - bufferLength
    if (d.lastOutputTextOffset : ℤ) < length then
      ((d.outputText.take length.toNat).drop d.lastOutputTextOffset,
        { d with lastOutputTextOffset := length.toNat })
    else ([], d)
  else (dropTail d.outputText bufferLength, d)

end Detokenizer

/-! ### What a search finds -/

section Search

variable {outputText : Text} {newCharCount : ℕ} {stop : List Text}

/-- Where the search for a stop string begins: far enough back for one that ends in the new
part. -/
def searchStart (newCharCount : ℕ) (stopStr : Text) : ℤ := 1 - newCharCount - stopStr.length

/-- A match: an occurrence the search finds. -/
structure Found (outputText : Text) (newCharCount : ℕ) (stop : List Text) (m : StopMatch) :
    Prop where
  mem : m.stopStr ∈ stop
  found : find outputText m.stopStr (searchStart newCharCount m.stopStr) = some m.stopIndex
  stopEnd : m.stopEnd = m.stopIndex + m.stopStr.length

/-- What the loop over the stop strings leaves: what it began with, or a match; and nothing
it came by ends before it. -/
structure Scanned (outputText : Text) (newCharCount : ℕ) (stop : List Text)
    (best result : Option StopMatch) : Prop where
  none_iff : result = none ↔ best = none ∧
    ∀ s ∈ stop, find outputText s (searchStart newCharCount s) = none
  found : ∀ m, result = some m → best = some m ∨ Found outputText newCharCount stop m
  before : ∀ m old, result = some m → best = some old → m.stopEnd ≤ old.stopEnd
  first : ∀ m, result = some m → ∀ s ∈ stop, ∀ i,
    find outputText s (searchStart newCharCount s) = some i → m.stopEnd ≤ i + s.length

theorem betterStop_scanned (outputText : Text) (newCharCount : ℕ) (best : Option StopMatch)
    (stopStr : Text) :
    Scanned outputText newCharCount [stopStr] best
      (betterStop outputText newCharCount best stopStr) := by
  unfold betterStop
  rw [show (1 : ℤ) - newCharCount - stopStr.length = searchStart newCharCount stopStr from rfl]
  cases hfind : find outputText stopStr (searchStart newCharCount stopStr) with
  | none =>
      refine ⟨?_, fun m hm => Or.inl hm, fun m old hm hold => ?_, fun m _ s hs i hi => ?_⟩
      · simp [hfind]
      · rw [Option.some.inj (hm.symm.trans hold)]
      · rw [List.mem_singleton.mp hs, hfind] at hi
        cases hi
  | some stopIndex =>
      have hnew : Found outputText newCharCount [stopStr]
          ⟨stopStr, stopIndex, stopIndex + stopStr.length⟩ :=
        ⟨List.mem_singleton_self _, hfind, rfl⟩
      have hself : ∀ s ∈ [stopStr], ∀ i,
          find outputText s (searchStart newCharCount s) = some i →
            i + s.length = stopIndex + stopStr.length := by
        intro s hs i hi
        obtain rfl := List.mem_singleton.mp hs
        rw [hfind] at hi
        rw [Option.some.inj hi]
      cases best with
      | none =>
          refine ⟨by simp [hfind], fun m hm => ?_, fun _ _ _ hold => ?_,
            fun m hm s hs i hi => ?_⟩
          · obtain rfl := Option.some.inj hm
            exact Or.inr hnew
          · cases hold
          · obtain rfl := Option.some.inj hm
            exact (hself s hs i hi).ge
      | some old =>
          dsimp only
          split
          · rename_i hlt
            refine ⟨by simp, fun m hm => ?_, fun m old' hm hold => ?_, fun m hm s hs i hi => ?_⟩
            · obtain rfl := Option.some.inj hm
              exact Or.inr hnew
            · obtain rfl := Option.some.inj hm
              obtain rfl := Option.some.inj hold
              exact hlt.le
            · obtain rfl := Option.some.inj hm
              exact (hself s hs i hi).ge
          · rename_i hge
            refine ⟨by simp, fun m hm => Or.inl hm, fun m old' hm hold => ?_,
              fun m hm s hs i hi => ?_⟩
            · rw [Option.some.inj (hm.symm.trans hold)]
            · obtain rfl := Option.some.inj hm
              rw [hself s hs i hi]
              exact Nat.not_lt.mp hge

theorem foldl_betterStop_scanned (outputText : Text) (newCharCount : ℕ) (stop : List Text)
    (best : Option StopMatch) :
    Scanned outputText newCharCount stop best
      (stop.foldl (betterStop outputText newCharCount) best) := by
  induction stop generalizing best with
  | nil =>
      refine ⟨by simp, fun m hm => Or.inl hm, fun m old hm hold => ?_, fun _ _ s hs => ?_⟩
      · rw [Option.some.inj (hm.symm.trans hold)]
      · exact absurd hs List.not_mem_nil
  | cons s rest ih =>
      rw [List.foldl_cons]
      have hone := betterStop_scanned outputText newCharCount best s
      have hrest := ih (betterStop outputText newCharCount best s)
      refine ⟨?_, fun m hm => ?_, fun m old hm hold => ?_, fun m hm s' hs' i hi => ?_⟩
      · rw [hrest.none_iff, hone.none_iff, and_assoc, List.forall_mem_cons,
          List.forall_mem_cons]
        simp only [List.not_mem_nil, false_imp_iff, implies_true, and_true]
      · rcases hrest.found m hm with hm | hm
        · refine (hone.found m hm).imp_right fun hm => ⟨?_, hm.found, hm.stopEnd⟩
          rw [List.mem_singleton.mp hm.mem]
          exact List.mem_cons_self
        · exact Or.inr ⟨List.mem_cons_of_mem _ hm.mem, hm.found, hm.stopEnd⟩
      · obtain ⟨mid, hmid⟩ : ∃ mid, betterStop outputText newCharCount best s = some mid := by
          rw [← Option.ne_none_iff_exists', Ne, hone.none_iff, hold]
          exact fun h => by cases h.1
        exact (hrest.before m mid hm hmid).trans (hone.before mid old hmid hold)
      · rcases List.mem_cons.mp hs' with rfl | hs'
        · obtain ⟨mid, hmid⟩ : ∃ mid, betterStop outputText newCharCount best s' = some mid := by
            rw [← Option.ne_none_iff_exists', Ne, hone.none_iff]
            intro h
            rw [h.2 s' (List.mem_singleton_self _)] at hi
            cases hi
          exact (hrest.before m mid hm hmid).trans
            (hone.first mid hmid s' (List.mem_singleton_self _) i hi)
        · exact hrest.first m hm s' hs' i hi

/-- Where a text is cut at a match. -/
def StopMatch.cut (m : StopMatch) (includeInOutput : Bool) : ℕ :=
  if includeInOutput then m.stopEnd else m.stopIndex

/-- A stop string that is reported occurs in the text, ending in the new part, and none ends
before it. -/
theorem checkStopStrings_some {includeInOutput : Bool} {stopString : Text} {truncateTo : ℤ}
    (h : checkStopStrings outputText newCharCount stop includeInOutput =
      some (stopString, truncateTo)) :
    ∃ m, m.stopStr = stopString ∧ Found outputText newCharCount stop m ∧ newCharCount ≠ 0 ∧
      (∀ s ∈ stop, ∀ i, find outputText s (searchStart newCharCount s) = some i →
        m.stopEnd ≤ i + s.length) ∧
      (if truncateTo = -1 then outputText else outputText.take truncateTo.toNat) =
        outputText.take (m.cut includeInOutput) := by
  have hscanned := foldl_betterStop_scanned outputText newCharCount stop none
  unfold checkStopStrings bestStop at h
  split at h
  · cases h
  rename_i hnew
  split at h
  · cases h
  rename_i m hm
  obtain hnone | hfound := hscanned.found m hm
  · cases hnone
  refine ⟨m, ?_, hfound, fun hzero => hnew (Or.inl hzero), hscanned.first m hm, ?_⟩
  · split at h
    · split at h <;> exact (Prod.mk.inj (Option.some.inj h)).1
    · exact (Prod.mk.inj (Option.some.inj h)).1
  · unfold StopMatch.cut
    split at h
    · rename_i hincluded
      rw [if_pos hincluded]
      split at h
      · rename_i hend
        obtain ⟨-, rfl⟩ := Prod.mk.inj (Option.some.inj h)
        rw [if_pos rfl, List.take_of_length_le hend]
      · obtain ⟨-, rfl⟩ := Prod.mk.inj (Option.some.inj h)
        rw [if_neg (by omega), Int.toNat_natCast]
    · rename_i hexcluded
      obtain ⟨-, rfl⟩ := Prod.mk.inj (Option.some.inj h)
      rw [if_neg hexcluded, if_neg (by omega), Int.toNat_natCast]

theorem checkStopStrings_none {includeInOutput : Bool}
    (h : checkStopStrings outputText newCharCount stop includeInOutput = none)
    (hnew : newCharCount ≠ 0) : ∀ s ∈ stop,
      find outputText s (searchStart newCharCount s) = none := by
  have hscanned := foldl_betterStop_scanned outputText newCharCount stop none
  unfold checkStopStrings bestStop at h
  split at h
  · rename_i hor
    rw [hor.resolve_left hnew]
    exact fun s hs => absurd hs List.not_mem_nil
  split at h
  · rename_i hnone
    exact (hscanned.none_iff.mp hnone).2
  · split at h
    · split at h <;> cases h
    · cases h

end Search

/-! ### What a turn does to the text -/

namespace Detokenizer

variable {σ : Type} (decoder : Decoder σ) (params : StopParams) (d : Detokenizer σ)

/-- Tokens are recorded and text is appended; what is new to the search begins in the new
part. -/
structure Absorbed (params : StopParams) (newTokenIds : List TokenId) (d : Detokenizer σ)
    (result : Detokenizer σ × ℕ) : Prop where
  tokenIds : result.1.tokenIds = d.tokenIds ++ newTokenIds
  promptLen : result.1.promptLen = d.promptLen
  offset : result.1.lastOutputTextOffset = d.lastOutputTextOffset
  text : d.outputText <+: result.1.outputText
  le_check : d.outputText.length ≤ result.2
  check_le : result.2 ≤ result.1.outputText.length
  check_eq : params.minTokens = 0 → result.2 = d.outputText.length
  text_nil : newTokenIds = [] → result.1.outputText = d.outputText

theorem decodeAll_absorbed (newTokenIds : List TokenId) (check : ℕ)
    (hcheck : check ≤ d.outputText.length) (start : ℕ) (hstart : start ≤ check) :
    let result := decodeAll decoder params d check newTokenIds
    result.1.tokenIds = d.tokenIds ++ newTokenIds ∧ result.1.promptLen = d.promptLen ∧
      result.1.lastOutputTextOffset = d.lastOutputTextOffset ∧
      d.outputText <+: result.1.outputText ∧ start ≤ result.2 ∧
      result.2 ≤ result.1.outputText.length ∧ (params.minTokens = 0 → result.2 = check) := by
  induction newTokenIds generalizing d check with
  | nil => simpa [decodeAll] using ⟨hstart, hcheck⟩
  | cons newTokenId rest ih =>
      have htext : d.outputText <+: (d.decodeOne decoder newTokenId).outputText :=
        List.prefix_append _ _
      have hlength := htext.length_le
      simp only [decodeAll]
      split
      · rename_i hbelow
        obtain ⟨htokens, hprompt, hoffset, hrest, hle, hge, -⟩ :=
          ih (d.decodeOne decoder newTokenId) _ le_rfl (by omega)
        refine ⟨?_, hprompt, hoffset, htext.trans hrest, hle, hge,
          fun hzero => absurd hzero hbelow.1⟩
        rw [htokens]
        exact List.append_assoc _ _ _
      · obtain ⟨htokens, hprompt, hoffset, hrest, hle, hge, heq⟩ :=
          ih (d.decodeOne decoder newTokenId) check (by omega) hstart
        refine ⟨?_, hprompt, hoffset, htext.trans hrest, hle, hge, heq⟩
        rw [htokens]
        exact List.append_assoc _ _ _

@[simp] theorem absorb_nil (stopTerminated : Bool) :
    d.absorb decoder params [] stopTerminated = (d, d.outputText.length) := by
  unfold absorb
  split
  · simp [decodeAll]
  · rfl

theorem absorb_absorbed (newTokenIds : List TokenId) (stopTerminated : Bool) :
    Absorbed params newTokenIds d (d.absorb decoder params newTokenIds stopTerminated) := by
  have hnil : newTokenIds = [] →
      (d.absorb decoder params newTokenIds stopTerminated).1.outputText = d.outputText := by
    rintro rfl
    rw [absorb_nil]
  unfold absorb at hnil ⊢
  split at hnil
  · rename_i hskip
    rw [if_pos hskip]
    obtain ⟨htokens, hprompt, hoffset, htext, hle, hge, heq⟩ :=
      decodeAll_absorbed decoder params d newTokenIds.dropLast _ le_rfl _ le_rfl
    refine ⟨?_, hprompt, hoffset, htext, hle, hge, heq, hnil⟩
    show (decodeAll decoder params d d.outputText.length newTokenIds.dropLast).1.tokenIds ++ _ = _
    rw [htokens, List.append_assoc]
    congr 1
    cases hlast : newTokenIds.getLast? with
    | none => rw [List.getLast?_eq_none_iff.mp hlast]; rfl
    | some last => exact List.dropLast_append_getLast? last hlast
  · rename_i hall
    rw [if_neg hall]
    obtain ⟨htokens, hprompt, hoffset, htext, hle, hge, heq⟩ :=
      decodeAll_absorbed decoder params d newTokenIds _ le_rfl _ le_rfl
    exact ⟨htokens, hprompt, hoffset, htext, hle, hge, heq, hnil⟩

end Detokenizer

/-! ### What a client receives -/

/-- What the engine core reports of a request in one step. -/
structure Chunk where
  newTokenIds : List TokenId
  finishReason : Option FinishReason
deriving DecidableEq

/-- How a stream of text ends: the text the detokenizer has, the text it had before a stop
string cut it, and that stop string. -/
structure Ending where
  outputText : Text
  rendered : Text
  stopString : Option Text
deriving DecidableEq

section Stream

variable {σ : Type} (decoder : Decoder σ) (params : StopParams) (delta : Bool)

/-- What processing a report does to the text: the text for the client, and the ending once
the request is finished, by the engine core or on a stop string. -/
def processChunk (d : Detokenizer σ) (chunk : Chunk) : Text × Option Ending × Detokenizer σ :=
  let stopTerminated : Bool := chunk.finishReason = some .stop
  let (stopString, updated) := d.update decoder params chunk.newTokenIds stopTerminated
  let finished := chunk.finishReason.isSome || stopString.isSome
  let (text, read) := updated.getNextOutputText params finished delta
  let rendered := (d.absorb decoder params chunk.newTokenIds stopTerminated).1.outputText
  (text, if finished then some ⟨updated.outputText, rendered, stopString⟩ else none, read)

/-- The texts a client receives and how they end. A request that has not finished has no
ending yet; what comes after its end is dropped. -/
def stream : Detokenizer σ → List Chunk → Option (List Text × Ending)
  | _, [] => none
  | d, chunk :: rest =>
    match processChunk decoder params delta d chunk with
    | (text, some ending, _) => some ([text], ending)
    | (text, none, d) => (stream d rest).map fun result => (text :: result.1, result.2)

end Stream

/-- What a client has once it has received these texts: all of them, or the last. -/
def received (delta : Bool) (texts : List Text) : Text :=
  if delta then texts.flatten else texts.getLast?.getD []

/-- What a client may rely on: it receives the final text, at every time it has a prefix of
it, and nothing from a stop string on is in it when stop strings are excluded. -/
structure SafeStream (params : StopParams) (delta : Bool) (texts : List Text)
    (ending : Ending) : Prop where
  complete : received delta texts = ending.outputText
  streamed : ∀ seen, seen <+: texts → received delta seen <+: ending.outputText
  excluded : params.includeStopStrInOutput = false → ∀ s, ending.stopString = some s →
    ∃ p, ending.outputText = ending.rendered.take p ∧ s <+: ending.rendered.drop p

/-- Every stream with these parameters that ends is safe. -/
def SafeParams (params : StopParams) : Prop :=
  ∀ (σ : Type) (decoder : Decoder σ) (decoderState : σ) (promptTokenIds : List TokenId)
    (delta : Bool) (chunks : List Chunk) (texts : List Text) (ending : Ending),
    stream decoder params delta (Detokenizer.init promptTokenIds decoderState) chunks =
      some (texts, ending) → SafeStream params delta texts ending

/-- No stop string is empty; or one is, and it matches at once, with no text streamed and
nothing held back that is not there. -/
def StopParams.Proper (params : StopParams) : Prop :=
  [] ∉ params.stop ∨ params.minTokens = 0 ∧
    (params.includeStopStrInOutput = true ∨ ∃ s ∈ params.stop, s ≠ [])

/-! ### One report -/

namespace Detokenizer

variable {σ : Type} (decoder : Decoder σ) (params : StopParams) (d : Detokenizer σ)

/-- An update finds no stop string, or it cuts the text at the first one it finds. -/
theorem update_spec (newTokenIds : List TokenId) (stopTerminated : Bool) :
    let a := d.absorb decoder params newTokenIds stopTerminated
    let newCharCount := a.1.outputText.length - a.2
    (d.update decoder params newTokenIds stopTerminated = (none, a.1) ∧
      (params.minTokens < a.1.numOutputTokens → newCharCount ≠ 0 → ∀ s ∈ params.stop,
        find a.1.outputText s (searchStart newCharCount s) = none)) ∨
    ∃ m, Found a.1.outputText newCharCount params.stop m ∧ newCharCount ≠ 0 ∧
      (∀ s ∈ params.stop, ∀ i,
        find a.1.outputText s (searchStart newCharCount s) = some i → m.stopEnd ≤ i + s.length) ∧
      d.update decoder params newTokenIds stopTerminated =
        (some m.stopStr, { a.1 with
          outputText := a.1.outputText.take (m.cut params.includeStopStrInOutput) }) := by
  intro a newCharCount
  unfold update
  split
  · rename_i hnil
    have ha : a = (d, d.outputText.length) := by
      show d.absorb decoder params newTokenIds stopTerminated = _
      rw [hnil, absorb_nil]
    refine Or.inl ⟨by rw [ha], fun _ hnew => absurd ?_ hnew⟩
    show a.1.outputText.length - a.2 = 0
    rw [ha]
    exact Nat.sub_self _
  dsimp only
  split
  · split
    · rename_i hnone
      exact Or.inl ⟨rfl, fun _ hnew => checkStopStrings_none hnone hnew⟩
    · rename_i stopString truncateTo hsome
      obtain ⟨m, hstop, hfound, hnew, hfirst, hcut⟩ := checkStopStrings_some hsome
      refine Or.inr ⟨m, hfound, hnew, hfirst, ?_⟩
      rw [← hcut, hstop]
      split <;> rfl
  · rename_i hsearch
    refine Or.inl ⟨rfl, fun hmin _ s hs => absurd ⟨?_, hmin⟩ hsearch⟩
    exact List.ne_nil_of_mem hs

end Detokenizer

/-- What is held back, when it is not a negative number of characters. -/
def StopParams.held (params : StopParams) : ℕ := params.stopBufferLength.toNat

section Held

variable {params : StopParams}

theorem le_foldl_max (lengths : List ℕ) (start : ℕ) :
    start ≤ lengths.foldl max start ∧ ∀ n ∈ lengths, n ≤ lengths.foldl max start := by
  induction lengths generalizing start with
  | nil => exact ⟨le_rfl, fun n hn => absurd hn List.not_mem_nil⟩
  | cons n rest ih =>
      obtain ⟨hstart, hrest⟩ := ih (max start n)
      rw [List.foldl_cons, List.forall_mem_cons]
      exact ⟨(le_max_left _ _).trans hstart, (le_max_right _ _).trans hstart, hrest⟩

theorem StopParams.length_le_buffer {s : Text} (hs : s ∈ params.stop)
    (hexclude : params.includeStopStrInOutput = false) :
    (s.length : ℤ) ≤ params.stopBufferLength + 1 := by
  have hmax := (le_foldl_max (params.stop.map List.length) 0).2 _ (List.mem_map_of_mem hs)
  unfold StopParams.stopBufferLength
  rw [if_pos ⟨List.ne_nil_of_mem hs, hexclude⟩]
  omega

theorem StopParams.Proper.buffer_eq (h : params.Proper) :
    params.stopBufferLength = (params.held : ℤ) := by
  have hnonneg : 0 ≤ params.stopBufferLength := by
    by_cases hbuffer : params.stop ≠ [] ∧ params.includeStopStrInOutput = false
    · obtain ⟨s, hs, hne⟩ : ∃ s ∈ params.stop, s ≠ [] := by
        rcases h with hproper | ⟨-, hinclude | hsome⟩
        · obtain ⟨s, hs⟩ := List.exists_mem_of_ne_nil _ hbuffer.1
          exact ⟨s, hs, fun hnil => hproper (hnil ▸ hs)⟩
        · rw [hbuffer.2] at hinclude
          cases hinclude
        · exact hsome
      have hlength := StopParams.length_le_buffer hs hbuffer.2
      have hpos := List.length_pos_of_ne_nil hne
      omega
    · unfold StopParams.stopBufferLength
      exact Int.le_of_eq (if_neg hbuffer).symm
  exact (Int.toNat_of_nonneg hnonneg).symm

/-- What is handed out is the text but for what is held back; deltas continue from the last
offset. -/
theorem getNextOutputText_eq {σ : Type} (h : params.Proper) (d : Detokenizer σ)
    (finished delta : Bool) :
    let ready := d.outputText.length - if finished then 0 else params.held
    d.getNextOutputText params finished delta =
      if delta then ((d.outputText.take ready).drop d.lastOutputTextOffset,
        { d with lastOutputTextOffset := max d.lastOutputTextOffset ready })
      else (d.outputText.take ready, d) := by
  intro ready
  have hbuffer : (if finished then 0 else params.stopBufferLength) =
      ((if finished then 0 else params.held : ℕ) : ℤ) := by
    split
    · rfl
    · exact h.buffer_eq
  unfold Detokenizer.getNextOutputText
  dsimp only
  rw [hbuffer]
  split
  · by_cases hlt : d.lastOutputTextOffset < ready
    · have hready : ((d.outputText.length : ℤ) -
          (if finished then 0 else params.held : ℕ)).toNat = ready := by
        omega
      rw [if_pos (by omega), hready, max_eq_right hlt.le]
    · rw [if_neg (by omega), max_eq_left (by omega), List.drop_eq_nil_of_le]
      rw [List.length_take]
      omega
  · rw [dropTail_of_nonneg (by omega)]
    have hready : ((d.outputText.length : ℤ) -
        (if finished then 0 else params.held : ℕ)).toNat = ready := by
      omega
    rw [hready]

end Held

/-! ### Proper parameters are safe -/

section Proper

variable {σ : Type} {decoder : Decoder σ} {params : StopParams} {delta : Bool}
  {d : Detokenizer σ}

/-- What a client has is text no later stop string can cut, and the deltas keep count of
it. -/
structure Held (params : StopParams) (delta : Bool) (d : Detokenizer σ) (seen : Text) :
    Prop where
  promptLen_le : d.promptLen ≤ d.tokenIds.length
  seen_prefix : seen <+: d.outputText.take (d.outputText.length - params.held)
  seen_eq : delta = true → seen = d.outputText.take d.lastOutputTextOffset ∧
    d.lastOutputTextOffset ≤ d.outputText.length - params.held
  empty : [] ∈ params.stop → d.outputText = []

theorem held_init (promptTokenIds : List TokenId) (decoderState : σ) :
    Held params delta (Detokenizer.init promptTokenIds decoderState) [] :=
  ⟨le_rfl, List.nil_prefix, fun _ => ⟨rfl, Nat.zero_le _⟩, fun _ => rfl⟩

theorem le_of_found {outputText : Text} {newCharCount : ℕ} {stop : List Text} {m : StopMatch}
    (h : Found outputText newCharCount stop m) (hnew : newCharCount ≤ outputText.length)
    (hpos : newCharCount ≠ 0) (hne : m.stopStr ≠ []) :
    outputText.length - newCharCount + 1 ≤ m.stopIndex + m.stopStr.length := by
  obtain ⟨hplace, -, -, -⟩ := find_eq_some_iff.mp h.found
  have hlength := List.length_pos_of_ne_nil hne
  unfold place searchStart at hplace
  rw [if_pos (by omega)] at hplace
  omega

theorem held_le_cut (hproper : params.Proper) {seen : Text} (hheld : Held params delta d seen)
    {newTokenIds : List TokenId} {a : Detokenizer σ × ℕ}
    (ha : Detokenizer.Absorbed params newTokenIds d a) {m : StopMatch}
    (hm : Found a.1.outputText (a.1.outputText.length - a.2) params.stop m)
    (hpos : a.1.outputText.length - a.2 ≠ 0) :
    d.outputText.length - params.held ≤ m.cut params.includeStopStrInOutput := by
  by_cases hnil : m.stopStr = []
  · rw [hheld.empty (hnil ▸ hm.mem), List.length_nil, Nat.zero_sub]
    exact Nat.zero_le _
  have hle := le_of_found hm (Nat.sub_le _ _) hpos hnil
  have hcheck := ha.check_le
  have hstart := ha.le_check
  have hend := hm.stopEnd
  unfold StopMatch.cut
  split
  · omega
  · rename_i hexclude
    have hbuffer := StopParams.length_le_buffer hm.mem (Bool.not_eq_true _ ▸ hexclude)
    rw [hproper.buffer_eq] at hbuffer
    omega

/-- The empty stop string is found in any new part. -/
theorem find_empty_ne_none {outputText : Text} {newCharCount : ℕ} (hnew : newCharCount ≠ 0) :
    find outputText [] (searchStart newCharCount []) ≠ none := by
  have hplace : place outputText.length (searchStart newCharCount []) ≤ outputText.length := by
    unfold place searchStart
    rw [List.length_nil]
    split <;> omega
  rw [find_nil hplace]
  exact Option.some_ne_none _

/-- Once an update keeps what a client has, it reads on to all that is not held back. -/
theorem getNextOutputText_held (hproper : params.Proper) {seen : Text}
    (hheld : Held params delta d seen) {u : Detokenizer σ} (finished : Bool)
    (hoffset : u.lastOutputTextOffset = d.lastOutputTextOffset)
    (hkeeps : d.outputText.take (d.outputText.length - params.held) <+: u.outputText)
    (hready : d.outputText.length - params.held ≤
      u.outputText.length - if finished then 0 else params.held) :
    let ready := u.outputText.length - if finished then 0 else params.held
    let read := u.getNextOutputText params finished delta
    seen <+: u.outputText.take ready ∧
      (if delta then seen ++ read.1 else read.1) = u.outputText.take ready ∧
      read.2 = { u with
        lastOutputTextOffset := if delta then ready else u.lastOutputTextOffset } := by
  intro ready read
  have hseen : seen <+: u.outputText.take ready := by
    rw [List.prefix_take_iff]
    refine ⟨hheld.seen_prefix.trans hkeeps, ?_⟩
    have hlength := hheld.seen_prefix.length_le
    rw [List.length_take] at hlength
    omega
  refine ⟨hseen, ?_⟩
  show (if delta then seen ++ (u.getNextOutputText params finished delta).1 else _) = _ ∧ _
  rw [show read = u.getNextOutputText params finished delta from rfl,
    getNextOutputText_eq hproper]
  cases delta with
  | false => exact ⟨rfl, rfl⟩
  | true =>
      obtain ⟨heq, hle⟩ := hheld.seen_eq rfl
      have hlength : seen.length = d.lastOutputTextOffset := by
        rw [heq, List.length_take]
        omega
      have htake : seen = (u.outputText.take ready).take u.lastOutputTextOffset := by
        rw [hoffset, ← hlength]
        exact List.prefix_iff_eq_take.mp hseen
      refine ⟨?_, ?_⟩
      · show seen ++ (u.outputText.take ready).drop u.lastOutputTextOffset = _
        conv_lhs => rw [htake]
        exact List.take_append_drop _ _
      · show ({ u with lastOutputTextOffset := max u.lastOutputTextOffset ready } :
          Detokenizer σ) = { u with lastOutputTextOffset := ready }
        rw [max_eq_right (by omega)]

/-- An update that finds nothing holds as much back as before. -/
theorem Held.next (hproper : params.Proper) {seen : Text} (hheld : Held params delta d seen)
    {newTokenIds : List TokenId} {a : Detokenizer σ × ℕ}
    (ha : Detokenizer.Absorbed params newTokenIds d a)
    (hnone : params.minTokens < a.1.numOutputTokens → a.1.outputText.length - a.2 ≠ 0 →
      ∀ s ∈ params.stop, find a.1.outputText s
        (searchStart (a.1.outputText.length - a.2) s) = none) :
    Held params delta { a.1 with
        lastOutputTextOffset := if delta then a.1.outputText.length - params.held
          else a.1.lastOutputTextOffset }
      (a.1.outputText.take (a.1.outputText.length - params.held)) := by
  have hprompt := ha.promptLen
  have hlength := congrArg List.length ha.tokenIds
  rw [List.length_append] at hlength
  have hle := hheld.promptLen_le
  refine ⟨?_, List.prefix_rfl, ?_, fun hempty => ?_⟩
  · show a.1.promptLen ≤ a.1.tokenIds.length
    omega
  · rintro rfl
    exact ⟨rfl, le_rfl⟩
  · show a.1.outputText = []
    by_contra hne
    have hzero : params.minTokens = 0 := (hproper.resolve_left (not_not_intro hempty)).1
    have hnil := hheld.empty hempty
    have hnew : newTokenIds ≠ [] := fun h => hne ((ha.text_nil h).trans hnil)
    have hcheck := ha.check_eq hzero
    rw [hnil, List.length_nil] at hcheck
    have hpos := List.length_pos_of_ne_nil hne
    have hpos' := List.length_pos_of_ne_nil hnew
    refine find_empty_ne_none (by omega) (hnone ?_ (by omega) [] hempty)
    unfold Detokenizer.numOutputTokens
    omega

/-- What one report does to what a client has. -/
theorem processChunk_held (hproper : params.Proper) {seen : Text}
    (hheld : Held params delta d seen) (chunk : Chunk) {text : Text}
    {ending : Option Ending} {d' : Detokenizer σ}
    (h : processChunk decoder params delta d chunk = (text, ending, d')) :
    let seen' := if delta then seen ++ text else text
    seen <+: seen' ∧ (ending = none → Held params delta d' seen') ∧
      ∀ e, ending = some e → seen' = e.outputText ∧
        (params.includeStopStrInOutput = false → ∀ s, e.stopString = some s →
          ∃ p, e.outputText = e.rendered.take p ∧ s <+: e.rendered.drop p) := by
  intro seen'
  have ha := d.absorb_absorbed decoder params chunk.newTokenIds
    (chunk.finishReason = some .stop)
  have hupdate := d.update_spec decoder params chunk.newTokenIds
    (chunk.finishReason = some .stop)
  unfold processChunk at h
  dsimp only at h
  generalize d.absorb decoder params chunk.newTokenIds (chunk.finishReason = some .stop) = a
    at ha hupdate h
  have htext := ha.text
  have hgrown := htext.length_le
  have hold : d.outputText.take (d.outputText.length - params.held) <+: a.1.outputText :=
    (List.take_prefix _ _).trans htext
  rcases hupdate with ⟨hupdate, hnone⟩ | ⟨m, hfound, hnew, -, hupdate⟩
  · -- nothing is found: all but what is held back is read
    obtain ⟨hseen, hread, hstate⟩ := getNextOutputText_held hproper hheld
      chunk.finishReason.isSome ha.offset hold (by split <;> omega)
    rw [hupdate] at h
    simp only [Option.isSome_none, Bool.or_false] at h
    obtain ⟨rfl, hrest⟩ := Prod.mk.inj h
    obtain ⟨rfl, rfl⟩ := Prod.mk.inj hrest
    have hseen' : seen' = _ := hread
    rw [hseen', hstate]
    refine ⟨hseen, fun hgoes => ?_, fun e hends => ?_⟩
    · cases hfinish : chunk.finishReason.isSome with
      | true => rw [hfinish] at hgoes; cases hgoes
      | false => exact hheld.next hproper ha hnone
    · cases hfinish : chunk.finishReason.isSome with
      | false => rw [hfinish] at hends; cases hends
      | true =>
          rw [hfinish] at hends
          obtain rfl := Option.some.inj hends
          exact ⟨List.take_length, fun _ s hs => absurd hs.symm (Option.some_ne_none s)⟩
  · -- the text is cut, and no shorter than what the client has
    have hcut := held_le_cut hproper hheld ha hfound hnew
    have hfits := find_end hfound.found
    have hend := hfound.stopEnd
    have hshort : m.cut params.includeStopStrInOutput ≤ a.1.outputText.length := by
      unfold StopMatch.cut
      split <;> omega
    have hold' : d.outputText.take (d.outputText.length - params.held) <+:
        a.1.outputText.take (m.cut params.includeStopStrInOutput) :=
      List.prefix_take_iff.mpr ⟨hold, (List.length_take_le _ _).trans hcut⟩
    have hready : d.outputText.length - params.held ≤
        (a.1.outputText.take (m.cut params.includeStopStrInOutput)).length - 0 := by
      rw [List.length_take]
      omega
    obtain ⟨hseen, hread, hstate⟩ := getNextOutputText_held
      (u := { a.1 with
        outputText := a.1.outputText.take (m.cut params.includeStopStrInOutput) })
      hproper hheld true ha.offset hold' hready
    rw [hupdate] at h
    simp only [Option.isSome_some, Bool.or_true, if_true] at h
    obtain ⟨rfl, hrest⟩ := Prod.mk.inj h
    obtain ⟨rfl, rfl⟩ := Prod.mk.inj hrest
    have hseen' : seen' = _ := hread
    rw [hseen']
    refine ⟨hseen, fun hgoes => absurd hgoes (Option.some_ne_none _), fun e hends => ?_⟩
    obtain rfl := Option.some.inj hends
    refine ⟨List.take_length, fun hexclude s hs => ?_⟩
    obtain rfl := Option.some.inj hs
    refine ⟨m.stopIndex, ?_, (find_eq_some_iff.mp hfound.found).2.2.1⟩
    show _ = List.take m.stopIndex _
    unfold StopMatch.cut
    rw [hexclude]
    rfl

theorem received_concat (texts : List Text) (text : Text) :
    received delta (texts ++ [text]) = if delta then received delta texts ++ text else text := by
  unfold received
  cases delta <;> simp

theorem stream_held (hproper : params.Proper) {chunks : List Chunk} {before texts : List Text}
    {ending : Ending} (hheld : Held params delta d (received delta before))
    (h : stream decoder params delta d chunks = some (texts, ending)) :
    received delta (before ++ texts) = ending.outputText ∧
      (∀ seen, seen <+: texts → received delta (before ++ seen) <+: ending.outputText) ∧
      (params.includeStopStrInOutput = false → ∀ s, ending.stopString = some s →
        ∃ p, ending.outputText = ending.rendered.take p ∧ s <+: ending.rendered.drop p) := by
  induction chunks generalizing d before texts with
  | nil => cases h
  | cons chunk rest ih =>
      unfold stream at h
      rcases hchunk : processChunk decoder params delta d chunk with ⟨text, result, d'⟩
      rw [hchunk] at h
      obtain ⟨hseen, hgoes, hends⟩ := processChunk_held hproper hheld chunk hchunk
      rw [← received_concat] at hseen hgoes hends
      cases result with
      | some e =>
          obtain ⟨rfl, rfl⟩ := Prod.mk.inj (Option.some.inj h)
          obtain ⟨hfinal, hexcluded⟩ := hends e rfl
          refine ⟨hfinal, fun seen hkeeps => ?_, hexcluded⟩
          rcases List.prefix_cons_iff.mp hkeeps with rfl | ⟨t, rfl, ht⟩
          · rw [List.append_nil, ← hfinal]
            exact hseen
          · rw [List.prefix_nil.mp ht, hfinal]
      | none =>
          obtain ⟨⟨later, e⟩, hrest, heq⟩ := Option.map_eq_some_iff.mp h
          obtain ⟨rfl, rfl⟩ := Prod.mk.inj heq
          obtain ⟨hfinal, hstreamed, hexcluded⟩ := ih (hgoes rfl) hrest
          simp only [List.append_assoc, List.singleton_append] at hfinal hstreamed
          refine ⟨hfinal, fun seen hkeeps => ?_, hexcluded⟩
          rcases List.prefix_cons_iff.mp hkeeps with rfl | ⟨t, rfl, ht⟩
          · rw [List.append_nil]
            exact hseen.trans (hstreamed [] List.nil_prefix)
          · exact hstreamed t ht

/-- Proper parameters are safe. -/
theorem safeParams_of_proper (hproper : params.Proper) : SafeParams params := by
  intro σ decoder decoderState promptTokenIds delta chunks texts ending h
  have hinit : Held params delta (Detokenizer.init promptTokenIds decoderState)
      (received delta []) := by
    rw [show received delta [] = [] from by cases delta <;> rfl]
    exact held_init promptTokenIds decoderState
  obtain ⟨hcomplete, hstreamed, hexcluded⟩ := stream_held hproper hinit h
  exact ⟨hcomplete, hstreamed, hexcluded⟩

end Proper

/-! ### Parameters that are not proper -/

def spelled (spell : TokenId → Text) : Decoder Unit where
  decodeNext tokenIds state := (spell (tokenIds.getLast?.getD 0), state)

section Improper

variable {params : StopParams}

@[simp] theorem decodeOne_spelled (spell : TokenId → Text) (d : Detokenizer Unit)
    (newTokenId : TokenId) :
    d.decodeOne (spelled spell) newTokenId =
      { d with
        tokenIds := d.tokenIds ++ [newTokenId]
        outputText := d.outputText ++ spell newTokenId } := by
  simp [Detokenizer.decodeOne, spelled]

/-- A report that finds no stop string and does not finish is read on from. -/
theorem processChunk_of_none {σ : Type} {decoder : Decoder σ} {delta : Bool}
    {d updated : Detokenizer σ} {newTokenIds : List TokenId}
    (h : d.update decoder params newTokenIds false = (none, updated)) :
    processChunk decoder params delta d ⟨newTokenIds, none⟩ =
      ((updated.getNextOutputText params false delta).1, none,
        (updated.getNextOutputText params false delta).2) := by
  unfold processChunk
  dsimp only
  rw [show (decide ((none : Option FinishReason) = some .stop)) = false from rfl, h]
  rfl

theorem update_below {σ : Type} (decoder : Decoder σ) (d : Detokenizer σ)
    (newTokenIds : List TokenId)
    (hbelow : d.tokenIds.length + newTokenIds.length ≤ d.promptLen + params.minTokens) :
    d.update decoder params newTokenIds false =
      (none, (d.absorb decoder params newTokenIds false).1) := by
  have ha := d.absorb_absorbed decoder params newTokenIds false
  have hlength := congrArg List.length ha.tokenIds
  have hprompt := ha.promptLen
  rw [List.length_append] at hlength
  unfold Detokenizer.update
  split
  · rename_i hnil
    rw [hnil, Detokenizer.absorb_nil]
  · dsimp only
    rw [if_neg]
    rintro ⟨-, hmin⟩
    unfold Detokenizer.numOutputTokens at hmin
    omega

/-- The first text a client receives of a token as long as what is held back. -/
theorem spelled_streams (params : StopParams) (spell : TokenId → Text)
    (hlong : params.stopBufferLength < (spell 0).length) (hspell : spell 0 ≠ [])
    (hmin : params.minTokens ≠ 0) :
    ∃ text d, processChunk (spelled spell) params true (Detokenizer.init [] ())
        ⟨List.replicate params.minTokens 0, none⟩ = (text, none, d) ∧ text ≠ [] ∧
      d.tokenIds.length = d.promptLen + params.minTokens := by
  have hbelow : (Detokenizer.init [] ()).update (spelled spell) params
      (List.replicate params.minTokens 0) false = _ :=
    update_below (spelled spell) (Detokenizer.init [] ()) _ (by simp [Detokenizer.init])
  have ha := (Detokenizer.init [] ()).absorb_absorbed (spelled spell) params
    (List.replicate params.minTokens 0) false
  have htext : spell 0 <+: ((Detokenizer.init [] ()).absorb (spelled spell) params
      (List.replicate params.minTokens 0) false).1.outputText := by
    obtain ⟨k, hk⟩ := Nat.exists_eq_succ_of_ne_zero hmin
    rw [hk, List.replicate_succ]
    unfold Detokenizer.absorb
    rw [if_neg (by rintro ⟨h, -⟩; cases h)]
    simp only [Detokenizer.decodeAll]
    refine (?_ : spell 0 <+: _).trans (Detokenizer.decodeAll_absorbed (spelled spell) params
      ((Detokenizer.init [] ()).decodeOne (spelled spell) 0) _ _ ?_ 0 (Nat.zero_le _)).2.2.2.1
    · rw [decodeOne_spelled]
      exact List.prefix_rfl
    · split
      · exact le_rfl
      · exact Nat.zero_le _
  generalize (Detokenizer.init [] ()).absorb (spelled spell) params
    (List.replicate params.minTokens 0) false = a at hbelow ha htext
  have hoffset : a.1.lastOutputTextOffset = 0 := ha.offset
  have hlength := htext.length_le
  have hnil : a.1.outputText ≠ [] := fun hnil =>
    hspell (List.prefix_nil.mp (hnil ▸ htext))
  refine ⟨_, _, processChunk_of_none hbelow, ?_, ?_⟩
  all_goals
    unfold Detokenizer.getNextOutputText
    dsimp only
    rw [if_pos rfl, hoffset, if_neg Bool.false_ne_true, if_pos (by omega)]
  · rw [List.drop_zero, Ne, List.take_eq_nil_iff, not_or]
    exact ⟨by omega, hnil⟩
  · show a.1.tokenIds.length = a.1.promptLen + params.minTokens
    rw [ha.tokenIds, ha.promptLen, List.length_append, List.length_replicate]
    rfl

theorem spelled_retracts (spell : TokenId → Text) (delta : Bool) {d : Detokenizer Unit}
    (hempty : [] ∈ params.stop) (hspell : (spell 1).length = 1)
    (hlength : d.tokenIds.length = d.promptLen + params.minTokens) :
    ∃ text ending d', processChunk (spelled spell) params delta d ⟨[1], none⟩ =
      (text, some ending, d') ∧ ending.outputText = [] := by
  have habsorb : d.absorb (spelled spell) params [1] false =
      ({ d with
        tokenIds := d.tokenIds ++ [1]
        outputText := d.outputText ++ spell 1 }, d.outputText.length) := by
    unfold Detokenizer.absorb
    rw [if_neg (by rintro ⟨h, -⟩; cases h)]
    simp only [Detokenizer.decodeAll, decodeOne_spelled]
    rw [if_neg]
    rintro ⟨-, hle⟩
    simp only [Detokenizer.numOutputTokens, List.length_append, List.length_singleton] at hle
    omega
  have hupdate := d.update_spec (spelled spell) params [1] false
  rw [habsorb] at hupdate
  simp only [List.length_append, hspell, Nat.add_sub_cancel_left] at hupdate
  have hfound : find (d.outputText ++ spell 1) [] (searchStart 1 []) = some 0 := by
    rw [find_nil]
    · rfl
    · exact Nat.zero_le _
  rcases hupdate with ⟨-, hnone⟩ | ⟨m, hm, -, hfirst, hupdate⟩
  · refine absurd (hnone ?_ Nat.one_ne_zero [] hempty) (by rw [hfound]; exact Option.some_ne_none _)
    simp only [Detokenizer.numOutputTokens, List.length_append, List.length_singleton]
    omega
  · have hend := hfirst [] hempty 0 hfound
    have hcut : m.cut params.includeStopStrInOutput = 0 := by
      have hindex := hm.stopEnd
      rw [List.length_nil] at hend
      unfold StopMatch.cut
      split <;> omega
    rw [hcut] at hupdate
    unfold processChunk
    dsimp only
    rw [show (decide ((none : Option FinishReason) = some .stop)) = false from rfl, hupdate]
    exact ⟨_, _, _, rfl, rfl⟩

theorem foldl_max_eq_zero {lengths : List ℕ} (h : ∀ n ∈ lengths, n = 0) :
    lengths.foldl max 0 = 0 := by
  induction lengths with
  | nil => rfl
  | cons n rest ih =>
      rw [List.forall_mem_cons] at h
      rw [List.foldl_cons, h.1]
      exact ih h.2

theorem spelled_skips (spell : TokenId → Text) (hempty : [] ∈ params.stop)
    (hall : ∀ s ∈ params.stop, s = []) (hmin : params.minTokens = 0)
    (hexclude : params.includeStopStrInOutput = false) (hquiet : spell 0 = [])
    (hspell : (spell 1).length = 2) :
    ∃ ending, stream (spelled spell) params true (Detokenizer.init [] ())
        [⟨[0], none⟩, ⟨[1], none⟩] = some ([[], []], ending) ∧
      ending.outputText = (spell 1).take 1 := by
  -- the longest stop string has no characters: one less than none is held back
  have hbuffer : params.stopBufferLength = -1 := by
    unfold StopParams.stopBufferLength
    rw [if_pos ⟨List.ne_nil_of_mem hempty, hexclude⟩, foldl_max_eq_zero]
    · rfl
    · rw [List.forall_mem_map]
      intro s hs
      rw [hall s hs, List.length_nil]
  -- a token without text moves the read past a character that is not there yet
  have hfirst : processChunk (spelled spell) params true (Detokenizer.init [] ())
      ⟨[0], none⟩ = ([], none, ⟨[0], 0, (), [], 1⟩) := by
    have habsorb : (Detokenizer.init [] ()).absorb (spelled spell) params [0] false =
        (⟨[0], 0, (), [], 0⟩, 0) := by
      unfold Detokenizer.absorb
      simp [Detokenizer.decodeAll, Detokenizer.init, hmin, hquiet]
    have hupdate : (Detokenizer.init [] ()).update (spelled spell) params [0] false =
        (none, ⟨[0], 0, (), [], 0⟩) := by
      unfold Detokenizer.update
      rw [if_neg (List.cons_ne_nil _ _), habsorb]
      simp [checkStopStrings]
    rw [processChunk_of_none hupdate]
    simp [Detokenizer.getNextOutputText, hbuffer]
  have habsorb : (⟨[0], 0, (), [], 1⟩ : Detokenizer Unit).absorb (spelled spell) params [1] false =
      (⟨[0, 1], 0, (), spell 1, 1⟩, 0) := by
    unfold Detokenizer.absorb
    simp [Detokenizer.decodeAll, hmin]
  have hupdate := (⟨[0], 0, (), [], 1⟩ : Detokenizer Unit).update_spec (spelled spell) params
    [1] false
  rw [habsorb] at hupdate
  simp only [hspell] at hupdate
  have hfound : find (spell 1) [] (searchStart 2 []) = some 1 := by
    rw [find_nil]
    · rw [hspell]
      rfl
    · rw [hspell]
      exact Nat.le_succ 1
  rcases hupdate with ⟨-, hnone⟩ | ⟨m, hm, -, hends, hupdate⟩
  · refine absurd (hnone ?_ (Nat.succ_ne_zero _) [] hempty)
      (by rw [hfound]; exact Option.some_ne_none _)
    rw [hmin]
    exact Nat.succ_pos _
  · have hindex := hm.found
    rw [hall _ hm.mem, hfound] at hindex
    have hcut : m.cut params.includeStopStrInOutput = 1 := by
      unfold StopMatch.cut
      rw [hexclude]
      exact (Option.some.inj hindex).symm
    rw [hcut] at hupdate
    have hsecond : ∃ d', processChunk (spelled spell) params true ⟨[0], 0, (), [], 1⟩
        ⟨[1], none⟩ = ([], some ⟨(spell 1).take 1, spell 1, some m.stopStr⟩, d') := by
      unfold processChunk
      dsimp only
      rw [show (decide ((none : Option FinishReason) = some .stop)) = false from rfl, hupdate,
        habsorb]
      simp [Detokenizer.getNextOutputText, hspell]
    obtain ⟨d', hsecond⟩ := hsecond
    refine ⟨⟨(spell 1).take 1, spell 1, some m.stopStr⟩, ?_, rfl⟩
    unfold stream
    rw [hfirst]
    dsimp only
    unfold stream
    rw [hsecond]
    rfl

/-- With parameters that are not proper there is a stream that does not add up to the text. -/
theorem exists_retracted (h : ¬params.Proper) :
    ∃ (decoder : Decoder Unit) (chunks : List Chunk) (texts : List Text) (ending : Ending),
      stream decoder params true (Detokenizer.init [] ()) chunks = some (texts, ending) ∧
        texts.flatten ≠ ending.outputText := by
  unfold StopParams.Proper at h
  rw [not_or, not_not, not_and] at h
  obtain ⟨hempty, hthen⟩ := h
  by_cases hmin : params.minTokens = 0
  · obtain ⟨hexclude, hall⟩ := not_or.mp (hthen hmin)
    obtain ⟨ending, hstream, hfinal⟩ := spelled_skips
      (fun tokenId => if tokenId = 0 then [] else ['a', 'b']) hempty
      (fun s hs => by_contra fun hne => hall ⟨s, hs, hne⟩) hmin (Bool.not_eq_true _ ▸ hexclude)
      rfl rfl
    refine ⟨_, _, _, _, hstream, fun hcomplete => ?_⟩
    rw [hfinal] at hcomplete
    cases hcomplete
  · let spell : TokenId → Text := fun tokenId =>
      if tokenId = 0 then List.replicate (params.held + 1) 'a' else ['b']
    have hlength : (spell 0).length = params.held + 1 := List.length_replicate
    have hheld := Int.self_le_toNat params.stopBufferLength
    obtain ⟨text, d, hfirst, htext, htokens⟩ := spelled_streams params spell
      (by rw [hlength]; unfold StopParams.held; omega)
      (fun hnil => by rw [hnil] at hlength; cases hlength) hmin
    obtain ⟨last, ending, d', hsecond, hfinal⟩ := spelled_retracts spell true hempty rfl
      htokens
    have hstream : stream (spelled spell) params true (Detokenizer.init [] ())
        [⟨List.replicate params.minTokens 0, none⟩, ⟨[1], none⟩] =
          some ([text, last], ending) := by
      unfold stream
      rw [hfirst]
      dsimp only
      unfold stream
      rw [hsecond]
      rfl
    refine ⟨_, _, _, _, hstream, fun hcomplete => ?_⟩
    rw [hfinal] at hcomplete
    exact htext (List.append_eq_nil_iff.mp hcomplete).1

theorem proper_of_safeParams (h : SafeParams params) : params.Proper := by
  by_contra himproper
  obtain ⟨decoder, chunks, texts, ending, hstream, hne⟩ := exists_retracted himproper
  exact hne (h _ _ _ _ _ _ _ _ hstream).complete

end Improper

/-- The streams with these parameters are safe exactly when the parameters are proper. -/
theorem safeParams_iff (params : StopParams) : SafeParams params ↔ params.Proper :=
  ⟨proper_of_safeParams, safeParams_of_proper⟩

/-- With an empty stop string and `min_tokens` of one, text that was streamed is retracted. -/
theorem stream_retracts :
    let params : StopParams := ⟨[[]], 1, false⟩
    let texts : List Text := ["Hello".toList, []]
    let ending : Ending := ⟨[], "Hello!".toList, some []⟩
    stream (spelled fun tokenId => if tokenId = 0 then "Hello".toList else "!".toList) params
        true (Detokenizer.init [7] ()) [⟨[0], none⟩, ⟨[1], none⟩] = some (texts, ending) ∧
      ¬ SafeStream params true texts ending := by
  refine ⟨by decide +kernel, fun h => ?_⟩
  have hcomplete := h.complete
  revert hcomplete
  decide

end Pvllm
