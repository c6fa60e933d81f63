import Pvllm.Core.Request
import Pvllm.Tokenizers.Mock

/-!
Chat messages with images.

`parse_content` splits a content into its text and the places of its images, by
character; `build_multimodal_prompt` renders the messages to token ids with a run
of placeholders for each image, by hand, where a conversation without images goes
through `apply_chat_template` and `encode`. Both render the same markup, except
for a content that is `None`: the template prints it.
-/

namespace Pvllm

/-- One part of a content: a JSON object, by its `type`. -/
inductive ContentPart where
  | text (text : Option (List Char))
  | imageUrl (url : Option (List Char))
  /-- `input_audio` and `video_url`. -/
  | unsupported (kind : String)
  /-- Any other type, by its representation. -/
  | unknown (kind : String)
  /-- What is not an object, by the name of its Python type. -/
  | notAnObject (typeName : String)
deriving Repr, DecidableEq

/-- The `content` of a message. -/
inductive Content where
  | missing
  | null
  | text (text : List Char)
  | parts (parts : List ContentPart)
deriving Repr, DecidableEq

structure ChatMessage where
  role : Option (List Char)
  content : Content
deriving Repr, DecidableEq

namespace ChatMessage

/-- `message.get("role", "user")`. -/
def roleText (message : ChatMessage) : List Char := message.role.getD "user".toList

/-- `<|role|>` on a line of its own. -/
def header (message : ChatMessage) : List Char :=
  "<|".toList ++ message.roleText ++ "|>\n".toList

end ChatMessage

/-- The string Python makes of `message.get("content", "")`; that of a list is left open. -/
def Content.str (listStr : List ContentPart → List Char) : Content → List Char
  | .missing => []
  | .null => "None".toList
  | .text t => t
  | .parts ps => listStr ps

def Content.partList : Content → List ContentPart
  | .parts ps => ps
  | _ => []

namespace ContentPart

def isImage : ContentPart → Bool
  | .imageUrl _ => true
  | _ => false

def textOf : ContentPart → List Char
  | .text t => t.getD []
  | _ => []

def supported : ContentPart → Bool
  | .text _ => true
  | .imageUrl url => !(url.getD []).isEmpty
  | _ => false

end ContentPart

def Content.flattened : Content → Content
  | .parts ps => .text (ps.flatMap ContentPart.textOf)
  | content => content

/-- The template of `MockTokenizer`. -/
def MockTokenizer.applyChatTemplate (listStr : List ContentPart → List Char)
    (messages : List ChatMessage) (addGenerationPrompt : Bool) : List Char :=
  (messages.flatMap fun message => message.header ++ message.content.str listStr ++ ['\n']) ++
    if addGenerationPrompt then "<|assistant|>\n".toList else []

namespace Multimodal

def placeholderTokenId : TokenId := 4

def defaultImageTokens : ℕ := 256

def unsupportedError (kind : String) : PyError :=
  .notImplementedError (s!"content parts of type '{kind}' are not implemented; only 'text' and "
    ++ "'image_url' are. Audio and video would need their own token counts and encoder costs, "
    ++ "and inventing those would produce plausible scheduling behaviour for a modality nobody "
    ++ "modeled.")

def unknownError (kind : String) : PyError :=
  .valueError (s!"unknown content part type {kind}; expected one of "
    ++ "['text', 'image_url', 'input_audio', 'video_url']")

variable (contentHash : List Char → String)

/-- The loop of `parse_content`: the pieces of text with their length, and the images with the
place of each in the text. -/
def parseParts (imageTokens : ℕ) : List ContentPart → List (List Char) → ℕ →
    List (ℕ × MultiModalFeatureSpec) →
    Except PyError (List Char × List (ℕ × MultiModalFeatureSpec))
  | [], pieces, _, features => .ok (pieces.flatten, features)
  | part :: rest, pieces, length, features =>
    match part with
    | .text text =>
      parseParts imageTokens rest (pieces ++ [text.getD []]) (length + (text.getD []).length)
        features
    | .imageUrl url =>
      if url.getD [] = [] then
        .error (.valueError "an image_url part requires image_url.url")
      else if imageTokens < 1 then
        -- `MultiModalFeatureSpec.__post_init__`
        .error (.valueError s!"a multimodal item must occupy at least one token, got {imageTokens}")
      else
        parseParts imageTokens rest pieces length
          (features ++ [(length, ⟨contentHash (url.getD []), 0, imageTokens, imageTokens⟩)])
    | .unsupported kind => .error (unsupportedError kind)
    | .unknown kind => .error (unknownError kind)
    | .notAnObject typeName =>
      .error (.valueError s!"a content part must be an object, got {typeName}")

def parseContent (imageTokens : ℕ) :
    Content → Except PyError (List Char × List (ℕ × MultiModalFeatureSpec))
  | .missing => .ok ([], [])
  | .null => .ok ([], [])
  | .text text => .ok (text, [])
  | .parts parts => parseParts contentHash imageTokens parts [] 0 []

def rejectUnsupportedParts : List ContentPart → Except PyError Unit
  | [] => .ok ()
  | .unsupported kind :: _ => .error (unsupportedError kind)
  | .unknown kind :: _ => .error (unknownError kind)
  | _ :: rest => rejectUnsupportedParts rest

def hasImage (messages : List ChatMessage) : Bool :=
  messages.any fun message => message.content.partList.any (·.isImage)

variable (tokenizer : MockTokenizer)

structure Prompt where
  tokenIds : List TokenId
  features : List MultiModalFeatureSpec
deriving Repr, DecidableEq

def Prompt.addText (prompt : Prompt) (text : List Char) : Prompt :=
  if text = [] then prompt
  else { prompt with tokenIds := prompt.tokenIds ++ tokenizer.encode text false }

def Prompt.addImage (prompt : Prompt) (feature : MultiModalFeatureSpec) : Prompt where
  tokenIds := prompt.tokenIds ++ List.replicate feature.length placeholderTokenId
  features := prompt.features ++ [{ feature with position := prompt.tokenIds.length }]

def renderImages (text : List Char) : List (ℕ × MultiModalFeatureSpec) → ℕ → Prompt →
    ℕ × Prompt
  | [], cursor, prompt => (cursor, prompt)
  | (offset, feature) :: rest, cursor, prompt =>
    renderImages text rest offset
      ((prompt.addText tokenizer ((text.take offset).drop cursor)).addImage feature)

def renderMessage (imageTokens : ℕ) (message : ChatMessage) (prompt : Prompt) :
    Except PyError Prompt :=
  match parseContent contentHash imageTokens message.content with
  | .error e => .error e
  | .ok (text, imageOffsets) =>
    let prompt := { prompt with
      tokenIds := prompt.tokenIds ++ tokenizer.encode message.header false }
    let (cursor, prompt) := renderImages tokenizer text imageOffsets 0 prompt
    let prompt := prompt.addText tokenizer (text.drop cursor)
    .ok { prompt with tokenIds := prompt.tokenIds ++ tokenizer.encode ['\n'] false }

def renderMessages (imageTokens : ℕ) : List ChatMessage → Prompt → Except PyError Prompt
  | [], prompt => .ok prompt
  | message :: rest, prompt =>
    match renderMessage contentHash tokenizer imageTokens message prompt with
    | .error e => .error e
    | .ok prompt => renderMessages imageTokens rest prompt

/-- Token ids with placeholder runs, and the features describing them; nothing for messages
without an image. -/
def buildMultimodalPrompt (messages : List ChatMessage) (imageTokens : ℕ)
    (addGenerationPrompt : Bool) :
    Except PyError (Option (List TokenId) × List MultiModalFeatureSpec) :=
  match rejectUnsupportedParts (messages.flatMap fun message =>
      message.content.partList) with
  | .error e => .error e
  | .ok () =>
    if !hasImage messages then .ok (none, [])
    else
      match renderMessages contentHash tokenizer imageTokens messages
          ⟨tokenizer.bosTokenId.toList, []⟩ with
      | .error e => .error e
      | .ok prompt =>
        .ok (some (prompt.tokenIds ++
          if addGenerationPrompt then tokenizer.encode "<|assistant|>\n".toList false else []),
          prompt.features)

/-! ### Where the images are -/

/-- The images of the parts, each at the place in the text that begins at `length`. -/
def imageOffsets (imageTokens : ℕ) : List ContentPart → ℕ → List (ℕ × MultiModalFeatureSpec)
  | [], _ => []
  | .imageUrl url :: rest, length =>
    (length, ⟨contentHash (url.getD []), 0, imageTokens, imageTokens⟩) ::
      imageOffsets imageTokens rest length
  | part :: rest, length => imageOffsets imageTokens rest (length + part.textOf.length)

variable {contentHash tokenizer} {imageTokens : ℕ}

theorem parseParts_eq (hpos : 0 < imageTokens) {parts : List ContentPart}
    (h : ∀ part ∈ parts, part.supported = true) (pieces : List (List Char)) (length : ℕ)
    (features : List (ℕ × MultiModalFeatureSpec)) :
    parseParts contentHash imageTokens parts pieces length features =
      .ok (pieces.flatten ++ parts.flatMap ContentPart.textOf,
        features ++ imageOffsets contentHash imageTokens parts length) := by
  induction parts generalizing pieces length features with
  | nil =>
      simp only [parseParts, List.flatMap_nil, List.append_nil, imageOffsets]
  | cons part rest ih =>
      have hrest := fun p hp => h p (List.mem_cons_of_mem _ hp)
      have hpart := h part List.mem_cons_self
      cases part with
      | text t =>
          simp only [parseParts]
          rw [ih hrest]
          simp [imageOffsets, ContentPart.textOf]
      | imageUrl url =>
          have hurl : url.getD [] ≠ [] := by simpa [ContentPart.supported] using hpart
          simp only [parseParts, if_neg hurl, if_neg (Nat.not_lt.mpr hpos)]
          rw [ih hrest]
          simp [imageOffsets, ContentPart.textOf]
      | unsupported kind => cases hpart
      | unknown kind => cases hpart
      | notAnObject typeName => cases hpart

theorem parseParts_pos {parts : List ContentPart} {pieces : List (List Char)} {length : ℕ}
    {features : List (ℕ × MultiModalFeatureSpec)}
    {split : List Char × List (ℕ × MultiModalFeatureSpec)}
    (h : parseParts contentHash imageTokens parts pieces length features = .ok split)
    (himage : parts.any (·.isImage) = true) : 0 < imageTokens := by
  induction parts generalizing pieces length features with
  | nil => cases himage
  | cons part rest ih =>
      cases part with
      | text t => exact ih h himage
      | imageUrl url =>
          unfold parseParts at h
          dsimp only at h
          split at h
          · cases h
          · split at h
            · cases h
            · rename_i hmany
              exact Nat.not_lt.mp hmany
      | unsupported kind => cases h
      | unknown kind => cases h
      | notAnObject typeName => cases h

theorem imageOffsets_sorted (contentHash : List Char → String) (imageTokens : ℕ)
    (parts : List ContentPart) (length : ℕ) :
    (∀ image ∈ imageOffsets contentHash imageTokens parts length,
      length ≤ image.1 ∧ image.2.length = imageTokens) ∧
    (imageOffsets contentHash imageTokens parts length).Pairwise fun a b => a.1 ≤ b.1 := by
  induction parts generalizing length with
  | nil => exact ⟨nofun, .nil⟩
  | cons part rest ih =>
      cases part with
      | imageUrl url =>
          obtain ⟨hfrom, hsorted⟩ := ih length
          refine ⟨fun image himage => ?_, ?_⟩
          · rcases List.mem_cons.mp himage with rfl | himage
            · exact ⟨Nat.le_refl _, rfl⟩
            · exact hfrom image himage
          · exact List.pairwise_cons.mpr ⟨fun image himage => (hfrom image himage).1, hsorted⟩
      | text t =>
          obtain ⟨hfrom, hsorted⟩ := ih (length + (ContentPart.text t).textOf.length)
          exact ⟨fun image himage => ⟨Nat.le_trans (Nat.le_add_right _ _) (hfrom image himage).1,
            (hfrom image himage).2⟩, hsorted⟩
      | unsupported kind => exact ih length
      | unknown kind => exact ih length
      | notAnObject typeName => exact ih length

/-! ### Runs of placeholders -/

/-- The features stand one after the other, and the placeholders are their runs. -/
structure Placed (imageTokens : ℕ) (tokenIds : List TokenId)
    (features : List MultiModalFeatureSpec) : Prop where
  lengths : ∀ feature ∈ features, feature.length = imageTokens
  disjoint : features.Pairwise fun f g => f.position + f.length ≤ g.position
  within : ∀ feature ∈ features, feature.position + feature.length ≤ tokenIds.length
  runs : ∀ i, tokenIds[i]? = some placeholderTokenId ↔
    ∃ feature ∈ features, feature.position ≤ i ∧ i < feature.position + feature.length

theorem Placed.increasing {tokenIds : List TokenId} {features : List MultiModalFeatureSpec}
    (h : Placed imageTokens tokenIds features) (hpos : 0 < imageTokens) :
    features.Pairwise fun f g => f.position < g.position := by
  refine h.disjoint.imp_of_mem fun {f g} hf _ hle => ?_
  have := h.lengths f hf
  omega

/-- A prompt that is the tokens of a text but for the runs of its images. -/
structure Prompt.Renders (imageTokens : ℕ) (prompt : Prompt) (text : List TokenId) : Prop where
  placed : Placed imageTokens prompt.tokenIds prompt.features
  stripped : prompt.tokenIds.filter (· != placeholderTokenId) = text

variable {prompt : Prompt} {ids : List TokenId}

/-- Tokens of a text at the end. -/
theorem Prompt.Renders.append (h : prompt.Renders imageTokens ids) {more : List TokenId}
    (hmore : ∀ tokenId ∈ more, tokenId ≠ placeholderTokenId) :
    Prompt.Renders imageTokens { prompt with tokenIds := prompt.tokenIds ++ more }
      (ids ++ more) where
  placed := by
    refine ⟨h.placed.lengths, h.placed.disjoint, fun feature hfeature => ?_, fun i => ?_⟩
    · dsimp only
      rw [List.length_append]
      exact Nat.le_trans (h.placed.within feature hfeature) (Nat.le_add_right _ _)
    · dsimp only
      rw [← h.placed.runs, List.getElem?_append]
      split
      · exact Iff.rfl
      · rename_i hlong
        rw [List.getElem?_eq_none (Nat.not_lt.mp hlong)]
        constructor
        · intro hat
          exact absurd rfl (hmore _ (List.mem_of_getElem? hat))
        · nofun
  stripped := by
    dsimp only
    rw [List.filter_append, h.stripped, List.filter_eq_self.mpr]
    intro tokenId ht
    simpa using hmore tokenId ht

theorem Prompt.Renders.addImage (h : prompt.Renders imageTokens ids)
    {feature : MultiModalFeatureSpec} (hlength : feature.length = imageTokens) :
    (prompt.addImage feature).Renders imageTokens ids where
  placed := by
    refine ⟨fun f hf => ?_, ?_, fun f hf => ?_, fun i => ?_⟩
    · rcases List.mem_append.mp hf with hf | hf
      · exact h.placed.lengths f hf
      · rw [List.mem_singleton.mp hf]
        exact hlength
    · refine List.pairwise_append.mpr ⟨h.placed.disjoint, List.pairwise_singleton _ _, ?_⟩
      intro f hf g hg
      rw [List.mem_singleton.mp hg]
      exact h.placed.within f hf
    · simp only [Prompt.addImage, List.length_append, List.length_replicate]
      rcases List.mem_append.mp hf with hf | hf
      · exact Nat.le_trans (h.placed.within f hf) (Nat.le_add_right _ _)
      · obtain rfl := List.mem_singleton.mp hf
        exact Nat.le_refl _
    · simp only [Prompt.addImage]
      rw [List.getElem?_append]
      split
      · -- a place in the prompt so far
        rename_i hlt
        rw [h.placed.runs]
        constructor
        · rintro ⟨f, hf, hrun⟩
          exact ⟨f, List.mem_append_left _ hf, hrun⟩
        · rintro ⟨f, hf, hrun⟩
          rcases List.mem_append.mp hf with hf | hf
          · exact ⟨f, hf, hrun⟩
          · rw [List.mem_singleton.mp hf] at hrun
            exact absurd hlt (Nat.not_lt.mpr hrun.1)
      · -- a place in the run that is added
        rename_i hge
        rw [List.getElem?_replicate]
        constructor
        · intro hat
          split at hat
          · refine ⟨_, List.mem_append_right _ (List.mem_singleton.mpr rfl), ?_, ?_⟩
            · exact Nat.not_lt.mp hge
            · dsimp only
              omega
          · cases hat
        · rintro ⟨f, hf, hfrom, hto⟩
          rcases List.mem_append.mp hf with hf | hf
          · exact absurd (Nat.lt_of_lt_of_le hto (h.placed.within f hf)) hge
          · rw [List.mem_singleton.mp hf] at hto
            dsimp only at hto
            rw [if_pos (by omega)]
  stripped := by
    simp only [Prompt.addImage]
    rw [List.filter_append, h.stripped, List.filter_eq_nil_iff.mpr, List.append_nil]
    intro tokenId ht
    rw [List.eq_of_mem_replicate ht]
    simp

theorem placeholder_not_text (tokenizer : MockTokenizer) (text : List Char) :
    ∀ tokenId ∈ tokenizer.encode text false, tokenId ≠ placeholderTokenId := by
  rintro _ ht rfl
  exact absurd (tokenizer.byteTokenOffset_le_of_mem_encode ht) (by decide)

theorem Prompt.Renders.addText (tokenizer : MockTokenizer) (h : prompt.Renders imageTokens ids)
    (text : List Char) :
    (prompt.addText tokenizer text).Renders imageTokens (ids ++ tokenizer.encode text false) := by
  unfold Prompt.addText
  split
  · rename_i hempty
    subst hempty
    rw [show tokenizer.encode [] false = [] from rfl, List.append_nil]
    exact h
  · exact h.append (placeholder_not_text tokenizer text)

theorem drop_cut (text : List Char) {c o : ℕ} (h : c ≤ o) :
    text.drop c = (text.take o).drop c ++ text.drop o := by
  conv_lhs => rw [← List.take_append_drop o text, List.drop_append]
  rw [List.length_take]
  by_cases hlong : o ≤ text.length
  · rw [Nat.min_eq_left hlong, Nat.sub_eq_zero_of_le h, List.drop_zero]
  · rw [List.drop_eq_nil_of_le (by omega : text.length ≤ o), List.drop_nil]

theorem renderImages_renders (tokenizer : MockTokenizer) (text : List Char)
    {images : List (ℕ × MultiModalFeatureSpec)}
    {cursor : ℕ} (hfrom : ∀ image ∈ images, cursor ≤ image.1 ∧ image.2.length = imageTokens)
    (hsorted : images.Pairwise fun a b => a.1 ≤ b.1) (h : prompt.Renders imageTokens ids) :
    cursor ≤ (renderImages tokenizer text images cursor prompt).1 ∧
      (renderImages tokenizer text images cursor prompt).2.Renders imageTokens
        (ids ++ tokenizer.encode
          ((text.take (renderImages tokenizer text images cursor prompt).1).drop cursor)
          false) := by
  induction images generalizing cursor prompt ids with
  | nil =>
      refine ⟨Nat.le_refl _, ?_⟩
      simp only [renderImages]
      rw [List.drop_eq_nil_of_le (List.length_take_le _ _),
        show tokenizer.encode [] false = [] from rfl, List.append_nil]
      exact h
  | cons image images ih =>
      obtain ⟨offset, feature⟩ := image
      obtain ⟨hle, hlength⟩ := hfrom _ List.mem_cons_self
      obtain ⟨hnext, hrest⟩ := List.pairwise_cons.mp hsorted
      have hbefore := (h.addText tokenizer ((text.take offset).drop cursor)).addImage hlength
      obtain ⟨hcursor, hrenders⟩ := ih
        (fun image himage => ⟨hnext image himage, (hfrom image (List.mem_cons_of_mem _ himage)).2⟩)
        hrest hbefore
      simp only [renderImages]
      refine ⟨Nat.le_trans hle hcursor, ?_⟩
      have hcut := drop_cut (text.take
        (renderImages tokenizer text images offset ((prompt.addText tokenizer
          ((text.take offset).drop cursor)).addImage feature)).1) hle
      rw [List.take_take, Nat.min_eq_left hcursor] at hcut
      rw [hcut, tokenizer.encode_append, ← List.append_assoc]
      exact hrenders

/-! ### The two renderings -/

end Multimodal

/-- The text that `parse_content` finds in a content. -/
def Content.plain : Content → List Char
  | .missing => []
  | .null => []
  | .text t => t
  | .parts ps => ps.flatMap ContentPart.textOf

/-- Only parts that are modelled. -/
def Content.supported (content : Content) : Prop :=
  ∀ part ∈ content.partList, part.supported = true

/-- The template prints a content that is `None`, and else what it is. -/
theorem Content.str_flattened (listStr : List ContentPart → List Char) {content : Content}
    (h : content ≠ .null) : content.flattened.str listStr = content.plain := by
  cases content with
  | missing => rfl
  | null => exact absurd rfl h
  | text t => rfl
  | parts ps => rfl

def ChatMessage.flattened (message : ChatMessage) : ChatMessage :=
  { message with content := message.content.flattened }

def ChatMessage.plain (message : ChatMessage) : List Char :=
  message.header ++ message.content.plain ++ ['\n']

def ChatMessage.rendered (listStr : List ContentPart → List Char) (message : ChatMessage) :
    List Char :=
  message.header ++ message.content.str listStr ++ ['\n']

namespace Multimodal

variable {contentHash : List Char → String} {tokenizer : MockTokenizer} {imageTokens : ℕ}
  {prompt : Prompt} {ids : List TokenId} {messages : List ChatMessage}

theorem parseContent_eq (hpos : 0 < imageTokens) {content : Content} (h : content.supported) :
    parseContent contentHash imageTokens content =
      .ok (content.plain, imageOffsets contentHash imageTokens content.partList 0) := by
  cases content with
  | missing => rfl
  | null => rfl
  | text t => rfl
  | parts ps => exact parseParts_eq hpos h [] 0 []

theorem parseContent_pos {content : Content}
    {split : List Char × List (ℕ × MultiModalFeatureSpec)}
    (h : parseContent contentHash imageTokens content = .ok split)
    (himage : content.partList.any (·.isImage) = true) : 0 < imageTokens := by
  cases content with
  | parts ps => exact parseParts_pos h himage
  | _ => cases himage

theorem renderMessage_renders (contentHash : List Char → String) (tokenizer : MockTokenizer)
    (hpos : 0 < imageTokens) {message : ChatMessage} (hsupported : message.content.supported)
    (h : prompt.Renders imageTokens ids) :
    ∃ prompt', renderMessage contentHash tokenizer imageTokens message prompt = .ok prompt' ∧
      prompt'.Renders imageTokens (ids ++ tokenizer.encode message.plain false) := by
  obtain ⟨hfrom, hsorted⟩ :=
    imageOffsets_sorted contentHash imageTokens message.content.partList 0
  obtain ⟨-, himages⟩ := renderImages_renders tokenizer message.content.plain hfrom hsorted
    (h.append (placeholder_not_text tokenizer message.header))
  unfold renderMessage
  rw [parseContent_eq hpos hsupported]
  dsimp only
  generalize renderImages tokenizer message.content.plain _ 0 _ = out at himages ⊢
  obtain ⟨cursor, prompt₁⟩ := out
  refine ⟨_, rfl, ?_⟩
  have hend := (himages.addText tokenizer (message.content.plain.drop cursor)).append
    (placeholder_not_text tokenizer ['\n'])
  rw [List.append_assoc (ids ++ _) _ _, ← tokenizer.encode_append, List.drop_zero,
    List.take_append_drop, List.append_assoc ids, ← tokenizer.encode_append, List.append_assoc ids,
    ← tokenizer.encode_append] at hend
  exact hend

theorem renderMessages_renders (contentHash : List Char → String) (tokenizer : MockTokenizer)
    (hpos : 0 < imageTokens) (hsupported : ∀ message ∈ messages, message.content.supported)
    (h : prompt.Renders imageTokens ids) :
    ∃ prompt', renderMessages contentHash tokenizer imageTokens messages prompt = .ok prompt' ∧
      prompt'.Renders imageTokens
        (ids ++ tokenizer.encode (messages.flatMap ChatMessage.plain) false) := by
  induction messages generalizing prompt ids with
  | nil =>
      refine ⟨prompt, rfl, ?_⟩
      rw [List.flatMap_nil, show tokenizer.encode [] false = [] from rfl, List.append_nil]
      exact h
  | cons message messages ih =>
      obtain ⟨prompt₁, hone, hrenders⟩ := renderMessage_renders contentHash tokenizer hpos
        (hsupported message List.mem_cons_self) h
      obtain ⟨prompt', hrest, hall⟩ :=
        ih (fun m hm => hsupported m (List.mem_cons_of_mem _ hm)) hrenders
      refine ⟨prompt', ?_, ?_⟩
      · unfold renderMessages
        rw [hone]
        exact hrest
      · rw [List.flatMap_cons, tokenizer.encode_append, ← List.append_assoc]
        exact hall

theorem renderMessages_pos {prompt' : Prompt}
    (h : renderMessages contentHash tokenizer imageTokens messages prompt = .ok prompt')
    (himage : hasImage messages = true) : 0 < imageTokens := by
  induction messages generalizing prompt with
  | nil => cases himage
  | cons message messages ih =>
      unfold renderMessages at h
      split at h
      · cases h
      · rename_i prompt₁ hone
        rcases Bool.or_eq_true_iff.mp himage with hfirst | hrest
        · unfold renderMessage at hone
          split at hone
          · cases hone
          · rename_i hcontent
            exact parseContent_pos hcontent hfirst
        · exact ih h hrest

theorem rejectUnsupportedParts_ok {parts : List ContentPart}
    (h : ∀ part ∈ parts, part.supported = true) : rejectUnsupportedParts parts = .ok () := by
  induction parts with
  | nil => rfl
  | cons part rest ih =>
      have hrest := ih fun p hp => h p (List.mem_cons_of_mem _ hp)
      have hpart := h part List.mem_cons_self
      cases part with
      | text t => exact hrest
      | imageUrl url => exact hrest
      | unsupported kind => cases hpart
      | unknown kind => cases hpart
      | notAnObject typeName => cases hpart

theorem buildMultimodalPrompt_renders (contentHash : List Char → String)
    (tokenizer : MockTokenizer) (hpos : 0 < imageTokens)
    (hsupported : ∀ message ∈ messages, message.content.supported)
    (himage : hasImage messages = true) (addGenerationPrompt : Bool) :
    ∃ prompt : Prompt, buildMultimodalPrompt contentHash tokenizer messages imageTokens
        addGenerationPrompt = .ok (some prompt.tokenIds, prompt.features) ∧
      prompt.Renders imageTokens (tokenizer.encode (messages.flatMap ChatMessage.plain ++
        if addGenerationPrompt then "<|assistant|>\n".toList else []) true) := by
  have hstart : Prompt.Renders imageTokens ⟨tokenizer.bosTokenId.toList, []⟩
      tokenizer.bosTokenId.toList := by
    have hbos : ∀ tokenId ∈ tokenizer.bosTokenId.toList, tokenId ≠ placeholderTokenId := by
      unfold MockTokenizer.bosTokenId
      cases tokenizer.addBos with
      | true => decide
      | false => nofun
    have hempty : Prompt.Renders imageTokens ⟨[], []⟩ [] :=
      ⟨⟨nofun, .nil, nofun, fun i => by simp⟩, rfl⟩
    exact hempty.append hbos
  obtain ⟨prompt, hok, hrenders⟩ :=
    renderMessages_renders contentHash tokenizer hpos hsupported hstart
  have hparts : ∀ part ∈ messages.flatMap fun message => message.content.partList,
      part.supported = true := by
    intro part hpart
    obtain ⟨message, hmessage, hpart⟩ := List.mem_flatMap.mp hpart
    exact hsupported message hmessage part hpart
  unfold buildMultimodalPrompt
  rw [rejectUnsupportedParts_ok hparts, himage]
  simp only [Bool.not_true, Bool.false_eq_true, if_false, hok]
  refine ⟨{ prompt with tokenIds := _ }, rfl, ?_⟩
  rw [tokenizer.encode_special, tokenizer.encode_append, ← List.append_assoc]
  cases addGenerationPrompt with
  | true => exact hrenders.append (placeholder_not_text tokenizer _)
  | false => exact hrenders.append nofun

theorem buildMultimodalPrompt_pos {addGenerationPrompt : Bool} {tokenIds : List TokenId}
    {features : List MultiModalFeatureSpec}
    (h : buildMultimodalPrompt contentHash tokenizer messages imageTokens addGenerationPrompt =
      .ok (some tokenIds, features)) : 0 < imageTokens := by
  unfold buildMultimodalPrompt at h
  split at h
  · cases h
  · split at h
    · cases h
    · rename_i himage
      split at h
      · cases h
      · rename_i hrendered
        exact renderMessages_pos hrendered (by simpa using himage)

/-! ### Agreement with the template -/

/-- The prompt without its placeholder runs is what the text path makes of the messages with
their images left out, and the features describe the runs. -/
def Agrees (contentHash : List Char → String) (tokenizer : MockTokenizer) (imageTokens : ℕ)
    (listStr : List ContentPart → List Char) (messages : List ChatMessage)
    (addGenerationPrompt : Bool) : Prop :=
  ∃ tokenIds features,
    buildMultimodalPrompt contentHash tokenizer messages imageTokens addGenerationPrompt =
      .ok (some tokenIds, features) ∧
    tokenIds.filter (· != placeholderTokenId) = tokenizer.encode
      (MockTokenizer.applyChatTemplate listStr (messages.map ChatMessage.flattened)
        addGenerationPrompt) true ∧
    Placed imageTokens tokenIds features ∧
    features.Pairwise fun f g => f.position < g.position

theorem utf8Bytes_append (a b : List Char) :
    MockTokenizer.utf8Bytes (a ++ b) = MockTokenizer.utf8Bytes a ++ MockTokenizer.utf8Bytes b :=
  List.flatMap_append

theorem length_encode (tokenizer : MockTokenizer) (text : List Char) :
    (tokenizer.encode text false).length = (MockTokenizer.utf8Bytes text).length := by
  simp [MockTokenizer.encode]

theorem rendered_flattened (listStr : List ContentPart → List Char) {message : ChatMessage}
    (h : message.content ≠ .null) : message.flattened.rendered listStr = message.plain := by
  unfold ChatMessage.rendered ChatMessage.plain
  rw [← Content.str_flattened listStr h]
  rfl

theorem length_rendered_null (listStr : List ContentPart → List Char) {message : ChatMessage}
    (h : message.content = .null) :
    (MockTokenizer.utf8Bytes (message.flattened.rendered listStr)).length =
      (MockTokenizer.utf8Bytes message.plain).length + 4 := by
  have hrendered : message.flattened.rendered listStr =
      message.header ++ "None".toList ++ ['\n'] := by
    unfold ChatMessage.rendered ChatMessage.flattened
    rw [h]
    rfl
  have hplain : message.plain = message.header ++ ['\n'] := by
    unfold ChatMessage.plain
    rw [h]
    exact congrArg (· ++ ['\n']) (List.append_nil _)
  have hnone : (MockTokenizer.utf8Bytes "None".toList).length = 4 := by decide
  rw [hrendered, hplain, utf8Bytes_append, utf8Bytes_append, utf8Bytes_append, List.length_append,
    List.length_append, List.length_append, hnone]
  omega

theorem length_plain_le (listStr : List ContentPart → List Char) (messages : List ChatMessage) :
    (MockTokenizer.utf8Bytes (messages.flatMap ChatMessage.plain)).length ≤
        (MockTokenizer.utf8Bytes ((messages.map ChatMessage.flattened).flatMap
          (ChatMessage.rendered listStr))).length ∧
      ((∃ message ∈ messages, message.content = .null) →
        (MockTokenizer.utf8Bytes (messages.flatMap ChatMessage.plain)).length <
          (MockTokenizer.utf8Bytes ((messages.map ChatMessage.flattened).flatMap
            (ChatMessage.rendered listStr))).length) := by
  induction messages with
  | nil => exact ⟨Nat.le_refl _, fun ⟨_, h, _⟩ => absurd h List.not_mem_nil⟩
  | cons message messages ih =>
      obtain ⟨hle, hlt⟩ := ih
      rw [List.map_cons, List.flatMap_cons, List.flatMap_cons, utf8Bytes_append, utf8Bytes_append,
        List.length_append, List.length_append]
      by_cases hnull : message.content = .null
      · have hone := length_rendered_null listStr hnull
        exact ⟨by omega, fun _ => by omega⟩
      · rw [rendered_flattened listStr hnull]
        refine ⟨by omega, fun ⟨m, hm, hcontent⟩ => ?_⟩
        rcases List.mem_cons.mp hm with rfl | hm
        · exact absurd hcontent hnull
        · have := hlt ⟨m, hm, hcontent⟩
          omega

/-- The two renderings agree, and the features describe the runs, exactly when an image takes a
token and no content is `None`. -/
theorem agrees_iff (contentHash : List Char → String) (tokenizer : MockTokenizer)
    (imageTokens : ℕ) (listStr : List ContentPart → List Char) (addGenerationPrompt : Bool)
    (hsupported : ∀ message ∈ messages, message.content.supported)
    (himage : hasImage messages = true) :
    Agrees contentHash tokenizer imageTokens listStr messages addGenerationPrompt ↔
      0 < imageTokens ∧ ∀ message ∈ messages, message.content ≠ .null := by
  constructor
  · rintro ⟨tokenIds, features, hok', hsame, -, -⟩
    have hpos := buildMultimodalPrompt_pos hok'
    refine ⟨hpos, fun message hmessage hnull => ?_⟩
    obtain ⟨prompt, hok, hrenders⟩ := buildMultimodalPrompt_renders contentHash tokenizer hpos
      hsupported himage addGenerationPrompt
    rw [hok] at hok'
    obtain ⟨htokens, rfl⟩ := Prod.mk.inj (Except.ok.inj hok')
    obtain rfl := Option.some.inj htokens
    rw [hrenders.stripped, tokenizer.encode_special, tokenizer.encode_special] at hsame
    have hlength := congrArg List.length (List.append_cancel_left hsame)
    have hlt := (length_plain_le listStr messages).2 ⟨message, hmessage, hnull⟩
    rw [length_encode, length_encode, MockTokenizer.applyChatTemplate, utf8Bytes_append,
      utf8Bytes_append, List.length_append, List.length_append] at hlength
    change _ = (MockTokenizer.utf8Bytes ((messages.map ChatMessage.flattened).flatMap
      (ChatMessage.rendered listStr))).length + _ at hlength
    omega
  · rintro ⟨hpos, hnot⟩
    obtain ⟨prompt, hok, hrenders⟩ := buildMultimodalPrompt_renders contentHash tokenizer hpos
      hsupported himage addGenerationPrompt
    refine ⟨prompt.tokenIds, prompt.features, hok, ?_, hrenders.placed,
      hrenders.placed.increasing hpos⟩
    have htexts : (messages.map ChatMessage.flattened).flatMap (ChatMessage.rendered listStr) =
        messages.flatMap ChatMessage.plain := by
      rw [List.flatMap_map]
      exact List.flatMap_congr fun message hmessage =>
        rendered_flattened listStr (hnot message hmessage)
    rw [hrenders.stripped, ← htexts]
    rfl

/-- An image between two texts, after a message that is a string. -/
theorem agrees_iff_between : Agrees String.ofList MockTokenizer.smallTokenizer
    defaultImageTokens (fun _ => [])
    [⟨some "system".toList, .text "be brief".toList⟩,
      ⟨none, .parts [.text (some ['a']), .imageUrl (some ['u']), .text (some ['b'])]⟩] true := by
  have hsupported : ∀ message ∈ [(⟨some "system".toList, .text "be brief".toList⟩ : ChatMessage),
      ⟨none, .parts [.text (some ['a']), .imageUrl (some ['u']), .text (some ['b'])]⟩],
      ∀ part ∈ message.content.partList, part.supported = true := by
    decide
  exact (agrees_iff _ _ _ _ _ hsupported rfl).mpr ⟨by decide, by decide⟩

/-- An assistant message whose content is `None`, before an image. -/
theorem null_not_agrees : ¬ Agrees String.ofList MockTokenizer.smallTokenizer
    defaultImageTokens (fun _ => [])
    [⟨some "assistant".toList, .null⟩, ⟨some "user".toList, .parts [.imageUrl (some ['u'])]⟩]
    true := by
  rintro ⟨tokenIds, features, hok, hsame, -⟩
  have hbuilt : okAnd (buildMultimodalPrompt String.ofList MockTokenizer.smallTokenizer
      [⟨some "assistant".toList, .null⟩, ⟨some "user".toList, .parts [.imageUrl (some ['u'])]⟩]
      defaultImageTokens true) (fun built =>
        decide (built.1.map (·.filter (· != placeholderTokenId)) ≠
          some (MockTokenizer.smallTokenizer.encode (MockTokenizer.applyChatTemplate (fun _ => [])
            ([⟨some "assistant".toList, .null⟩,
              ⟨some "user".toList, .parts [.imageUrl (some ['u'])]⟩].map
                ChatMessage.flattened) true) true))) = true := by
    decide +kernel
  obtain ⟨built, hbuilt, hcheck⟩ := exists_of_okAnd hbuilt
  rw [hok] at hbuilt
  obtain rfl := Except.ok.inj hbuilt
  exact of_decide_eq_true hcheck (congrArg some hsame)

end Multimodal

end Pvllm
