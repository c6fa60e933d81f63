import Pvllm.Tokenizers.Mock
import Mathlib.Data.Nat.Find
import Mathlib.Order.Bounds.Basic

/-!
Incremental detokenization.

Every new token is decoded twice, with the tokens from the prefix offset on:
without what is not yet emitted, and with it. The difference is emitted unless
it is empty or the text ends in U+FFFD, and only then the offsets move. Where
text was emitted no character is in hand, so the window decodes in two parts and
the difference is the decoding of the tokens since the last emission; the tail
of the prompt the first window begins with need not begin between characters
(`Utf8.read_suffix_none`). What was emitted so far is therefore the decoding of
the longest list of output tokens that does not end in U+FFFD.

The tokens are those that are not skipped, where `decode` lets a skipped token
end the bytes before it. The two texts are the same until a skipped token
severs a character (`Utf8.Severed`).
-/

namespace Pvllm

namespace MockTokenizer

/-- How many tokens of context stand behind the read position. -/
def initialIncrementalDetokenizationOffset : ℕ := 5

def convertPromptIdsToTokens (promptIds : List TokenId) (skipSpecialTokens : Bool) :
    List Token × ℕ × ℕ :=
  let window := promptIds.drop
    (promptIds.length - (initialIncrementalDetokenizationOffset + 2))
  let newTokens := convertIdsToTokens skipSpecialTokens window
  (newTokens, newTokens.length - initialIncrementalDetokenizationOffset, newTokens.length)

/-- Decode the newest token in context: the new tokens, the new text and the offsets. -/
def detokenizeIncrementally (tokenizer : MockTokenizer) (allInputIds : List TokenId)
    (prevTokens : Option (List Token)) (prefixOffset readOffset : ℕ) (skipSpecialTokens : Bool) :
    Except PyError (List Token × List Char × ℕ × ℕ) :=
  match allInputIds.getLast? with
  | none => .error (.indexError "list index out of range")
  | some newTokenId =>
    let isFirstIter := prevTokens.isNone
    let (prevTokens, prefixOffset, readOffset) :=
      match prevTokens with
      | some prevTokens => (prevTokens, prefixOffset, readOffset)
      | none => convertPromptIdsToTokens allInputIds.dropLast skipSpecialTokens
    -- an id out of the vocabulary contributes no text
    let newTokens :=
      if newTokenId < tokenizer.vocabSize then convertIdsToTokens skipSpecialTokens [newTokenId]
      else [[]]
    let outputTokens := prevTokens ++ newTokens
    let newTokens := if isFirstIter then outputTokens else newTokens
    match convertTokensToString ((outputTokens.take readOffset).drop prefixOffset) with
    | .error e => .error e
    | .ok prefixText =>
      match convertTokensToString (outputTokens.drop prefixOffset) with
      | .error e => .error e
      | .ok newText =>
        if newText.length ≤ prefixText.length ∨ Utf8.EndsInReplacement newText then
          -- nothing new, or an unfinished character
          .ok (newTokens, [], prefixOffset, readOffset)
        else
          .ok (newTokens, newText.drop prefixText.length, readOffset, outputTokens.length)

/-- The state of a `SlowIncrementalDetokenizer`. -/
structure SlowDetokenizer where
  tokenIds : List TokenId
  tokens : List Token
  prefixOffset : ℕ
  readOffset : ℕ
  skipSpecialTokens : Bool

namespace SlowDetokenizer

def init (promptTokenIds : List TokenId) (skipSpecialTokens : Bool) : SlowDetokenizer :=
  let (tokens, prefixOffset, readOffset) :=
    convertPromptIdsToTokens promptTokenIds skipSpecialTokens
  ⟨promptTokenIds, tokens, prefixOffset, readOffset, skipSpecialTokens⟩

variable (tokenizer : MockTokenizer)

/-- One new token id: the text it contributes. -/
def decodeNext (d : SlowDetokenizer) (nextTokenId : TokenId) :
    Except PyError (List Char × SlowDetokenizer) :=
  let d := { d with tokenIds := d.tokenIds ++ [nextTokenId] }
  match detokenizeIncrementally tokenizer d.tokenIds (some d.tokens) d.prefixOffset d.readOffset
      d.skipSpecialTokens with
  | .error e => .error e
  | .ok (newTokens, decodedText, prefixOffset, readOffset) =>
    .ok (decodedText, { d with
      tokens := d.tokens ++ newTokens
      prefixOffset := prefixOffset
      readOffset := readOffset })

def decodeAll (d : SlowDetokenizer) : List TokenId → Except PyError (List Char × SlowDetokenizer)
  | [] => .ok ([], d)
  | tokenId :: rest =>
    match d.decodeNext tokenizer tokenId with
    | .error e => .error e
    | .ok (text, d) => (decodeAll d rest).map fun (texts, d) => (text ++ texts, d)

end SlowDetokenizer

/-! ### What the tokens say -/

variable (skip : Bool)

def visibleText (ids : List TokenId) : List Char :=
  Utf8.decode (Utf8.visible (ids.map (piece skip)))

/-- No character is unfinished after the ids. -/
def EndsOnBoundary (ids : List TokenId) : Prop :=
  (Utf8.read none (Utf8.visible (ids.map (piece skip)))).2 = none

theorem convertIdsToTokens_append (a b : List TokenId) :
    convertIdsToTokens skip (a ++ b) = convertIdsToTokens skip a ++ convertIdsToTokens skip b := by
  induction a with
  | nil => rfl
  | cons tokenId a ih =>
      simp only [List.cons_append, convertIdsToTokens, ih]
      split
      · split
        · rfl
        · rfl
      · split
        · rfl
        · rfl

theorem visible_map_append (a b : List TokenId) :
    Utf8.visible ((a ++ b).map (piece skip)) =
      Utf8.visible (a.map (piece skip)) ++ Utf8.visible (b.map (piece skip)) := by
  rw [List.map_append, Utf8.visible_append]

theorem visibleText_append {a : List TokenId} (h : EndsOnBoundary skip a) (b : List TokenId) :
    visibleText skip (a ++ b) = visibleText skip a ++ visibleText skip b := by
  unfold visibleText
  rw [visible_map_append]
  exact Utf8.decode_append h _

theorem endsOnBoundary_of_not_ends {ids : List TokenId}
    (h : ¬ Utf8.EndsInReplacement (visibleText skip ids)) : EndsOnBoundary skip ids :=
  Utf8.read_none_of_not_ends h

theorem convertTokensToString_slice (ids : List TokenId) {tokens : List Token}
    (hslice : tokens ⊆ convertIdsToTokens skip ids) :
    convertTokensToString tokens = .ok (Utf8.decode (tokens.map tokenPiece)) := by
  obtain ⟨hreadable, -⟩ := convertIdsToTokens_pieces skip ids
  exact joinTokens_eq (fun token ht => hreadable token (hslice ht)) []

/-! ### The window -/

/-- Where the detokenizer stands: `done` are the output ids whose text was emitted, and none of
the lists of ids since then had a text to emit. -/
structure Emitted (window done rest : List TokenId) (text : List Char) (d : SlowDetokenizer) :
    Prop where
  flag : d.skipSpecialTokens = skip
  tokens : d.tokens = convertIdsToTokens skip (window ++ done ++ rest)
  readOffset : d.readOffset = (convertIdsToTokens skip (window ++ done)).length
  prefixOffset : d.prefixOffset ≤ d.readOffset
  behind : (Utf8.read none
    (((convertIdsToTokens skip (window ++ done)).drop d.prefixOffset).map tokenPiece)).2 = none
  complete : ¬ Utf8.EndsInReplacement (visibleText skip done)
  text : text = visibleText skip done
  held : ∀ before, before <+: rest →
    visibleText skip before = [] ∨ Utf8.EndsInReplacement (visibleText skip before)

variable {skip} {tokenizer : MockTokenizer} {window done rest : List TokenId} {text : List Char}
  {d : SlowDetokenizer} {tokenId : TokenId}

/-- A new token: its text is emitted, or the window stays. -/
theorem Emitted.decodeNext (h : Emitted skip window done rest text d)
    (hvocab : tokenId < tokenizer.vocabSize) :
    ∃ newText d', d.decodeNext tokenizer tokenId = .ok (newText, d') ∧
      (Emitted skip window done (rest ++ [tokenId]) (text ++ newText) d' ∨
        Emitted skip window (done ++ (rest ++ [tokenId])) [] (text ++ newText) d') := by
  obtain ⟨rfl, htokens, hread, hprefix, hbehind, hdone, htext, hheld⟩ := h
  have hall : d.tokens ++ convertIdsToTokens d.skipSpecialTokens [tokenId] =
      convertIdsToTokens d.skipSpecialTokens (window ++ done) ++
        convertIdsToTokens d.skipSpecialTokens (rest ++ [tokenId]) := by
    rw [htokens, ← convertIdsToTokens_append, ← convertIdsToTokens_append]
    simp only [List.append_assoc]
  -- the window without and with what is not emitted
  have hold : convertTokensToString (((d.tokens ++
      convertIdsToTokens d.skipSpecialTokens [tokenId]).take d.readOffset).drop d.prefixOffset) =
      .ok (Utf8.decode (((convertIdsToTokens d.skipSpecialTokens (window ++ done)).drop
        d.prefixOffset).map tokenPiece)) := by
    rw [hall, hread, List.take_left]
    exact convertTokensToString_slice _ _ (List.drop_subset _ _)
  have hnew : convertTokensToString ((d.tokens ++
      convertIdsToTokens d.skipSpecialTokens [tokenId]).drop d.prefixOffset) =
      .ok (Utf8.decode (((convertIdsToTokens d.skipSpecialTokens (window ++ done)).drop
        d.prefixOffset).map tokenPiece) ++
          visibleText d.skipSpecialTokens (rest ++ [tokenId])) := by
    rw [convertTokensToString_slice _ (window ++ done ++ (rest ++ [tokenId]))
      (by rw [hall, ← convertIdsToTokens_append]; exact List.drop_subset _ _), hall,
      List.drop_append_of_le_length (by rw [← hread]; exact hprefix), List.map_append,
      Utf8.decode_append hbehind, (convertIdsToTokens_pieces _ _).2]
    rfl
  have hboundary := endsOnBoundary_of_not_ends _ hdone
  unfold SlowDetokenizer.decodeNext detokenizeIncrementally
  simp only [List.getLast?_concat, Option.isNone_some, Bool.false_eq_true, if_false, if_pos hvocab,
    hold, hnew]
  generalize hseen : Utf8.decode (((convertIdsToTokens d.skipSpecialTokens (window ++ done)).drop
    d.prefixOffset).map tokenPiece) = seen
  by_cases hnothing :
      (seen ++ visibleText d.skipSpecialTokens (rest ++ [tokenId])).length ≤ seen.length ∨
        Utf8.EndsInReplacement (seen ++ visibleText d.skipSpecialTokens (rest ++ [tokenId]))
  · simp only [if_pos hnothing]
    refine ⟨_, _, rfl, .inl ⟨rfl, ?_, hread, hprefix, hbehind, hdone, ?_, ?_⟩⟩
    · dsimp only
      rw [hall, ← convertIdsToTokens_append]
    · rw [htext, List.append_nil]
    · intro before hbefore
      rcases List.prefix_concat_iff.mp hbefore with rfl | hbefore
      · by_cases hnil : visibleText d.skipSpecialTokens (rest ++ [tokenId]) = []
        · exact .inl hnil
        · right
          rcases hnothing with hshort | hends
          · rw [List.length_append] at hshort
            have := List.length_pos_iff.mpr hnil
            omega
          · exact (Utf8.endsInReplacement_append hnil).mp hends
      · exact hheld before hbefore
  · simp only [if_neg hnothing]
    rw [not_or, List.length_append, Nat.not_le] at hnothing
    obtain ⟨hlong, hends⟩ := hnothing
    have hnil : visibleText d.skipSpecialTokens (rest ++ [tokenId]) ≠ [] := by
      intro hnil
      rw [hnil, List.length_nil] at hlong
      omega
    rw [Utf8.endsInReplacement_append hnil] at hends
    refine ⟨_, _, rfl, .inr ⟨rfl, ?_, ?_, ?_, ?_, ?_, ?_, ?_⟩⟩
    · dsimp only
      rw [hall, ← convertIdsToTokens_append, List.append_assoc, List.append_nil]
    · dsimp only
      rw [hall, ← convertIdsToTokens_append, List.append_assoc]
    · dsimp only
      rw [hall, hread, List.length_append]
      omega
    · dsimp only
      rw [← List.append_assoc, convertIdsToTokens_append, hread, List.drop_left,
        (convertIdsToTokens_pieces _ _).2]
      exact endsOnBoundary_of_not_ends _ hends
    · rw [visibleText_append _ hboundary, Utf8.endsInReplacement_append hnil]
      exact hends
    · rw [visibleText_append _ hboundary, htext, List.drop_left]
    · intro before hbefore
      rw [List.prefix_nil] at hbefore
      exact .inl (by rw [hbefore]; rfl)

/-- Tokens one after the other. -/
theorem Emitted.decodeAll (h : Emitted skip window done rest text d) {ids : List TokenId}
    (hvocab : ∀ tokenId ∈ ids, tokenId < tokenizer.vocabSize) :
    ∃ texts d' done' rest', d.decodeAll tokenizer ids = .ok (texts, d') ∧
      done' ++ rest' = done ++ rest ++ ids ∧
      Emitted skip window done' rest' (text ++ texts) d' := by
  induction ids generalizing done rest text d with
  | nil =>
      refine ⟨[], d, done, rest, rfl, (List.append_nil _).symm, ?_⟩
      rw [List.append_nil]
      exact h
  | cons tokenId ids ih =>
      obtain ⟨newText, d₁, hone, hnext⟩ := h.decodeNext (hvocab tokenId List.mem_cons_self)
      have hrest : ∀ t ∈ ids, t < tokenizer.vocabSize :=
        fun t ht => hvocab t (List.mem_cons_of_mem _ ht)
      unfold SlowDetokenizer.decodeAll
      rw [hone]
      rcases hnext with hnext | hnext
      · obtain ⟨texts, d', done', rest', hall, hsplit, hemitted⟩ := ih hnext hrest
        refine ⟨newText ++ texts, d', done', rest', ?_, ?_, ?_⟩
        · simp only [hall, Except.map]
        · rw [hsplit]
          simp only [List.append_assoc, List.singleton_append]
        · rw [← List.append_assoc]
          exact hemitted
      · obtain ⟨texts, d', done', rest', hall, hsplit, hemitted⟩ := ih hnext hrest
        refine ⟨newText ++ texts, d', done', rest', ?_, ?_, ?_⟩
        · simp only [hall, Except.map]
        · rw [hsplit]
          simp only [List.append_assoc, List.singleton_append]
        · rw [← List.append_assoc]
          exact hemitted

def promptWindow (promptIds : List TokenId) : List TokenId :=
  promptIds.drop (promptIds.length - (initialIncrementalDetokenizationOffset + 2))

theorem emitted_init {promptIds : List TokenId} (hprompt : EndsOnBoundary skip promptIds) :
    Emitted skip (promptWindow promptIds) [] [] [] (SlowDetokenizer.init promptIds skip) where
  flag := rfl
  tokens := by
    rw [List.append_nil, List.append_nil]
    rfl
  readOffset := by
    rw [List.append_nil]
    rfl
  prefixOffset := Nat.sub_le _ _
  behind := by
    -- the window is a tail of the prompt
    have hsplit := convertIdsToTokens_append skip
      (promptIds.take (promptIds.length - (initialIncrementalDetokenizationOffset + 2)))
      (promptWindow promptIds)
    have hwhole : promptIds.take (promptIds.length - (initialIncrementalDetokenizationOffset + 2))
        ++ promptWindow promptIds = promptIds := List.take_append_drop _ _
    rw [hwhole] at hsplit
    unfold EndsOnBoundary at hprompt
    rw [← (convertIdsToTokens_pieces skip promptIds).2, hsplit, List.map_append] at hprompt
    have htail := Utf8.read_suffix_none hprompt
    rw [List.append_nil]
    rw [← List.take_append_drop (SlowDetokenizer.init promptIds skip).prefixOffset
      (convertIdsToTokens skip (promptWindow promptIds)), List.map_append] at htail
    exact Utf8.read_suffix_none htail
  complete := nofun
  text := rfl
  held before hbefore := by
    rw [List.prefix_nil] at hbefore
    exact .inl (by rw [hbefore]; rfl)

/-- What was emitted is what the longest list of ids says that does not end in U+FFFD. -/
theorem Emitted.text_eq (h : Emitted skip window done rest text d) {k : ℕ}
    (hk : IsGreatest {k | k ≤ (done ++ rest).length ∧
      ¬ Utf8.EndsInReplacement (visibleText skip ((done ++ rest).take k))} k) :
    text = visibleText skip ((done ++ rest).take k) := by
  have hle : done.length ≤ k := by
    refine hk.2 ⟨?_, ?_⟩
    · rw [List.length_append]
      omega
    · rw [List.take_left]
      exact h.complete
  have hgood := hk.1.2
  rw [List.take_append, List.take_of_length_le hle,
    visibleText_append _ (endsOnBoundary_of_not_ends _ h.complete)] at hgood ⊢
  rw [h.text]
  by_cases hnil : visibleText skip (rest.take (k - done.length)) = []
  · rw [hnil, List.append_nil]
  · rw [Utf8.endsInReplacement_append hnil] at hgood
    exact absurd ((h.held _ (List.take_prefix _ _)).resolve_left hnil) hgood

/-! ### The decoding of the longest list of ids -/

theorem exists_greatest {P : ℕ → Prop} (hzero : P 0) (n : ℕ) :
    ∃ k, IsGreatest {k | k ≤ n ∧ P k} k := by
  classical
  refine ⟨Nat.findGreatest P n, ⟨Nat.findGreatest_le n, ?_⟩, fun k hk => ?_⟩
  · exact Nat.findGreatest_spec (Nat.zero_le n) hzero
  · exact Nat.le_findGreatest hk.1 hk.2

/-- The text emitted for the ids is the decoding of the longest list of them that does not end
in U+FFFD. -/
def Incremental (tokenizer : MockTokenizer) (skip : Bool) (promptIds ids : List TokenId) : Prop :=
  ∃ text d k, (SlowDetokenizer.init promptIds skip).decodeAll tokenizer ids = .ok (text, d) ∧
    IsGreatest {k | k ≤ ids.length ∧ ¬ Utf8.EndsInReplacement (decode (ids.take k) skip)} k ∧
    text = decode (ids.take k) skip

/-- The same, of what the ids say through their tokens. -/
theorem decodeAll_visible {promptIds ids : List TokenId} (hprompt : EndsOnBoundary skip promptIds)
    (hvocab : ∀ tokenId ∈ ids, tokenId < tokenizer.vocabSize) :
    ∃ text d, (SlowDetokenizer.init promptIds skip).decodeAll tokenizer ids = .ok (text, d) ∧
      ∀ k, IsGreatest {k | k ≤ ids.length ∧
        ¬ Utf8.EndsInReplacement (visibleText skip (ids.take k))} k →
          text = visibleText skip (ids.take k) := by
  obtain ⟨text, d, done, rest, hall, hsplit, hemitted⟩ := (emitted_init hprompt).decodeAll hvocab
  rw [List.nil_append, List.nil_append] at hsplit
  subst hsplit
  exact ⟨text, d, hall, fun k hk => hemitted.text_eq hk⟩

variable {promptIds ids : List TokenId}

theorem decode_iff_visibleText (skip : Bool) (ids : List TokenId) :
    visibleText skip ids = decode ids skip ↔ ¬ Utf8.Severed (ids.map (piece skip)) := by
  rw [decode_eq]
  exact Utf8.decode_visible_iff _

theorem visible_not_ends (h : ¬ Utf8.EndsInReplacement (decode ids skip)) :
    ¬ Utf8.EndsInReplacement (visibleText skip ids) := by
  rw [decode_eq] at h
  exact Utf8.not_ends_visible h

theorem decode_eq_of_visibleText_eq {a b : List TokenId}
    (ha : ¬ Utf8.EndsInReplacement (decode a skip))
    (hsame : visibleText skip (a ++ b) = visibleText skip a) :
    decode (a ++ b) skip = decode a skip := by
  rw [visibleText_append _ (endsOnBoundary_of_not_ends _ (visible_not_ends ha))] at hsame
  have hnone := Utf8.decode_of_visible_nil
    (Utf8.visible_eq_nil (List.append_right_eq_self.mp hsame))
  rw [decode_eq] at ha ⊢
  rw [decode_eq, List.map_append, Utf8.decode_append (Utf8.read_none_of_not_ends ha), hnone,
    List.append_nil]

theorem incremental_texts (hprompt : EndsOnBoundary skip promptIds)
    (hvocab : ∀ tokenId ∈ ids, tokenId < tokenizer.vocabSize) {i j : ℕ}
    (hi : IsGreatest {k | k ≤ ids.length ∧
      ¬ Utf8.EndsInReplacement (visibleText skip (ids.take k))} i)
    (hj : IsGreatest {k | k ≤ ids.length ∧
      ¬ Utf8.EndsInReplacement (decode (ids.take k) skip)} j) :
    Incremental tokenizer skip promptIds ids ↔
      visibleText skip (ids.take i) = decode (ids.take j) skip := by
  obtain ⟨text, d, hall, htext⟩ := decodeAll_visible hprompt hvocab
  constructor
  · rintro ⟨text', d', k, hall', hk, htext'⟩
    rw [hall] at hall'
    obtain ⟨rfl, rfl⟩ := Prod.mk.inj (Except.ok.inj hall')
    rw [← htext i hi, htext', hk.unique hj]
  · intro hsame
    exact ⟨text, d, j, hall, hj, (htext i hi).trans hsame⟩

/-- The text emitted is what was decoded, where nothing severed a character. -/
theorem incremental_of_whole (hprompt : EndsOnBoundary skip promptIds)
    (hvocab : ∀ tokenId ∈ ids, tokenId < tokenizer.vocabSize)
    (hwhole : ∀ n ≤ ids.length, ¬ Utf8.EndsInReplacement (visibleText skip (ids.take n)) →
      ¬ Utf8.Severed ((ids.take n).map (piece skip))) :
    Incremental tokenizer skip promptIds ids := by
  obtain ⟨i, hi⟩ := exists_greatest (P := fun k =>
    ¬ Utf8.EndsInReplacement (visibleText skip (ids.take k))) nofun ids.length
  obtain ⟨j, hj⟩ := exists_greatest (P := fun k =>
    ¬ Utf8.EndsInReplacement (decode (ids.take k) skip)) nofun ids.length
  rw [incremental_texts hprompt hvocab hi hj]
  have hsame := (decode_iff_visibleText skip _).mpr (hwhole i hi.1.1 hi.1.2)
  have hle : i ≤ j := hj.2 ⟨hi.1.1, hsame ▸ hi.1.2⟩
  have hge : j ≤ i := hi.2 ⟨hj.1.1, visible_not_ends hj.1.2⟩
  rw [hsame, Nat.le_antisymm hle hge]

theorem decode_of_incremental (hprompt : EndsOnBoundary skip promptIds)
    (hvocab : ∀ tokenId ∈ ids, tokenId < tokenizer.vocabSize)
    (hall : ∀ n ≤ ids.length, Incremental tokenizer skip promptIds (ids.take n))
    (hgood : ¬ Utf8.EndsInReplacement (visibleText skip ids)) :
    visibleText skip ids = decode ids skip := by
  have hself : ∀ xs : List TokenId, ¬ Utf8.EndsInReplacement (visibleText skip xs) →
      IsGreatest {k | k ≤ xs.length ∧
        ¬ Utf8.EndsInReplacement (visibleText skip (xs.take k))} xs.length := by
    intro xs hxs
    refine ⟨⟨Nat.le_refl _, ?_⟩, fun k hk => hk.1⟩
    rw [List.take_length]
    exact hxs
  obtain ⟨j, hj⟩ := exists_greatest (P := fun k =>
    ¬ Utf8.EndsInReplacement (decode (ids.take k) skip)) nofun ids.length
  have hwhole := hall ids.length (Nat.le_refl _)
  rw [List.take_length, incremental_texts hprompt hvocab (hself ids hgood) hj,
    List.take_length] at hwhole
  -- the ids up to `j` are said as they are decoded, and the ids after them say nothing
  have hgood' := visible_not_ends hj.1.2
  have hpart := hall j hj.1.1
  rw [incremental_texts (j := j) hprompt
    (fun t ht => hvocab t (List.mem_of_mem_take ht)) (hself _ hgood') (by
      refine ⟨⟨?_, ?_⟩, fun k hk => ?_⟩
      · rw [List.length_take]
        exact Nat.le_min.mpr ⟨Nat.le_refl _, hj.1.1⟩
      · rw [List.take_take, Nat.min_self]
        exact hj.1.2
      · have hle := hk.1
        rw [List.length_take] at hle
        exact Nat.le_trans hle (Nat.min_le_left _ _)), List.take_length, List.take_take,
    Nat.min_self] at hpart
  have hquiet : visibleText skip (ids.take j ++ ids.drop j) = visibleText skip (ids.take j) := by
    rw [List.take_append_drop, hwhole, hpart]
  have hdecode := decode_eq_of_visibleText_eq hj.1.2 hquiet
  rw [List.take_append_drop] at hdecode
  rw [hwhole, hdecode]

/-- After every output id the text emitted so far is the decoding of the longest list of ids that
does not end in U+FFFD, if and only if no skipped token has severed a character wherever the
tokens so far do not end in U+FFFD. -/
theorem incremental_iff (hprompt : EndsOnBoundary skip promptIds)
    (hvocab : ∀ tokenId ∈ ids, tokenId < tokenizer.vocabSize) :
    (∀ n ≤ ids.length, Incremental tokenizer skip promptIds (ids.take n)) ↔
      ∀ n ≤ ids.length, ∀ text,
        convertTokensToString (convertIdsToTokens skip (ids.take n)) = .ok text →
          ¬ Utf8.EndsInReplacement text → ¬ Utf8.Severed ((ids.take n).map (piece skip)) := by
  have htake : ∀ {n m : ℕ}, m ≤ (ids.take n).length →
      m ≤ ids.length ∧ (ids.take n).take m = ids.take m := by
    intro n m hm
    rw [List.length_take] at hm
    rw [List.take_take]
    constructor
    · omega
    · rw [Nat.min_eq_left (by omega)]
  constructor
  · intro hall n hn text htext hgood
    rw [convertTokensToString_eq] at htext
    obtain rfl := Except.ok.inj htext
    refine (decode_iff_visibleText skip _).mp (decode_of_incremental hprompt
      (fun t ht => hvocab t (List.mem_of_mem_take ht)) (fun m hm => ?_) hgood)
    rw [(htake hm).2]
    exact hall m (htake hm).1
  · intro hwhole n hn
    refine incremental_of_whole hprompt (fun t ht => hvocab t (List.mem_of_mem_take ht))
      fun m hm hgood => ?_
    rw [(htake hm).2] at hgood ⊢
    exact hwhole m (htake hm).1 _ (convertTokensToString_eq skip _) hgood

/-- Where no token is skipped nothing severs a character. -/
theorem not_severed_of_shown (ids : List TokenId) : ¬ Utf8.Severed (ids.map (piece false)) := by
  rintro ⟨before, b, after, p, heq, -⟩
  have hmem : Utf8.Piece.text [] ∈ ids.map (piece false) := by
    rw [heq]
    simp
  obtain ⟨tokenId, -, hpiece⟩ := List.mem_map.mp hmem
  unfold piece at hpiece
  split at hpiece
  · rename_i text hspecial
    exact (tokenByte_special hspecial).2 (Utf8.Piece.text.inj hpiece)
  · split at hpiece
    · cases hpiece
    · exact pseudoWord_ne_nil tokenId (Utf8.Piece.text.inj hpiece)

/-- The euro sign in three bytes, with BOS after it. -/
theorem incremental_iff_euro : Incremental smallTokenizer true [0, 353] [482, 386, 428] ∧
    Incremental smallTokenizer true [0, 353] [482, 386, 428, 0] := by
  have hsame : ∀ n ≤ 4, visibleText true ([482, 386, 428, 0].take n) =
      decode ([482, 386, 428, 0].take n) true := by
    decide +kernel
  have hprompt : EndsOnBoundary true [0, 353] := by
    unfold EndsOnBoundary
    decide +kernel
  have hvocab : ∀ tokenId ∈ [482, 386, 428, 0], tokenId < smallTokenizer.vocabSize := by decide
  have hall := (incremental_iff hprompt hvocab).mpr fun n hn _ _ _ =>
    (decode_iff_visibleText true _).mp (hsame n hn)
  exact ⟨hall 3 (by decide), hall 4 (by decide)⟩

/-- With BOS between its bytes the sign is emitted, and no list of the ids decodes to it. -/
theorem euro_severed : ¬ Incremental smallTokenizer true [0, 353] [482, 386, 0, 428] := by
  rintro ⟨text, d, k, hok, ⟨⟨hk, -⟩, -⟩, htext⟩
  have hemitted : ((SlowDetokenizer.init [0, 353] true).decodeAll smallTokenizer
      [482, 386, 0, 428]).map (·.1) = .ok ['€'] := by
    decide +kernel
  have hdecoded : ∀ k ≤ 4, decode ([482, 386, 0, 428].take k) true ≠ ['€'] := by
    decide +kernel
  rw [hok] at hemitted
  exact hdecoded k hk (htext ▸ Except.ok.inj hemitted)

end MockTokenizer

end Pvllm
