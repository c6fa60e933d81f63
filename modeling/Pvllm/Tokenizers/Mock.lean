import Pvllm.Basic
import Pvllm.Library.Utf8

/-!
The tokenizer that needs no model files.

A text is the tokens of its UTF-8 bytes. Ids below the bytes are special or
unused, ids above them are what a sampler may emit; `decode` renders both as
words. `convert_ids_to_tokens` and `convert_tokens_to_string` go the same way in
two steps, through tokens that spell a byte as `<0xNN>`. All of them are one
reading of the pieces of a list of ids, but for what a skipped special token
does: for `decode` it ends the bytes before it, and between the two steps
nothing is left of it.
-/

namespace Pvllm

abbrev Token := List Char

def numSpecialTokens : ℕ := 256

def bosTokenId : TokenId := 0

/-- Byte `b` is the token `byteTokenOffset + b`. -/
def byteTokenOffset : ℕ := numSpecialTokens

def specialTokenTexts : List (TokenId × Token) :=
  [(bosTokenId, "<s>".toList), (1, "</s>".toList), (2, "<pad>".toList), (3, "<unk>".toList)]

def specialTokenText (tokenId : TokenId) : Option Token :=
  (specialTokenTexts.find? fun entry => entry.1 == tokenId).map (·.2)

/-- A byte-level tokenizer with the vocabulary size of a model card. -/
structure MockTokenizer where
  vocabSize : ℕ
  addBos : Bool
  vocabSize_gt : byteTokenOffset + 256 < vocabSize

namespace MockTokenizer

def init (vocabSize : ℕ) (addBos : Bool) : Except PyError MockTokenizer :=
  if h : byteTokenOffset + 256 < vocabSize then .ok ⟨vocabSize, addBos, h⟩
  else
    .error (.valueError (s!"vocab_size must exceed {byteTokenOffset + 256} to hold the "
      ++ s!"special tokens and the byte range, got {vocabSize}"))

variable (tokenizer : MockTokenizer)

def bosTokenId : Option TokenId := if tokenizer.addBos then some Pvllm.bosTokenId else none

/-! ### From text to ids and back -/

/-- `text.encode("utf-8")`. -/
def utf8Bytes (text : List Char) : List ℕ :=
  text.flatMap fun c => (String.utf8EncodeChar c).map (·.toNat)

/-- The ids of a text, after BOS where the tokenizer has one and special tokens are asked for. -/
def encode (text : List Char) (addSpecialTokens : Bool) (truncation : Bool := false)
    (maxLength : Option ℕ := none) : List TokenId :=
  let ids := (utf8Bytes text).map (byteTokenOffset + ·)
  let ids := if addSpecialTokens && tokenizer.addBos then Pvllm.bosTokenId :: ids else ids
  match truncation, maxLength with
  | true, some maxLength => if maxLength < ids.length then ids.take maxLength else ids
  | _, _ => ids

def pseudoSyllables : ℕ → ℕ → Token
  | 0, _ => []
  | k + 1, n =>
    "bdfgklmnprstvz".toList.getD (n % 14) 'b' ::
      "aeiou".toList.getD (n / 14 % 5) 'a' :: pseudoSyllables k (n / 14 / 5)

def pseudoWord (tokenId : TokenId) : Token := pseudoSyllables 2 tokenId

/-- The loop of `decode`, with the bytes not yet flushed. -/
def decodeLoop (skipSpecialTokens : Bool) : List TokenId → List ℕ → List Char
  | [], pending => Utf8.decodeBytes pending
  | tokenId :: rest, pending =>
    match specialTokenText tokenId with
    | some text =>
      Utf8.decodeBytes pending ++ (if skipSpecialTokens then [] else text) ++
        decodeLoop skipSpecialTokens rest []
    | none =>
      if byteTokenOffset ≤ tokenId ∧ tokenId < byteTokenOffset + 256 then
        decodeLoop skipSpecialTokens rest (pending ++ [tokenId - byteTokenOffset])
      else
        Utf8.decodeBytes pending ++ pseudoWord tokenId ++ decodeLoop skipSpecialTokens rest []

def decode (ids : List TokenId) (skipSpecialTokens : Bool) : List Char :=
  decodeLoop skipSpecialTokens ids []

def hexDigit (n : ℕ) : Char := "0123456789ABCDEF".toList.getD n '0'

/-- `<0xNN>`. -/
def byteToken (b : ℕ) : Token := "<0x".toList ++ [hexDigit (b / 16), hexDigit (b % 16), '>']

def convertIdsToTokens (skipSpecialTokens : Bool) : List TokenId → List Token
  | [] => []
  | tokenId :: rest =>
    match specialTokenText tokenId with
    | some text =>
      if skipSpecialTokens then convertIdsToTokens skipSpecialTokens rest
      else text :: convertIdsToTokens skipSpecialTokens rest
    | none =>
      if byteTokenOffset ≤ tokenId ∧ tokenId < byteTokenOffset + 256 then
        byteToken (tokenId - byteTokenOffset) :: convertIdsToTokens skipSpecialTokens rest
      else pseudoWord tokenId :: convertIdsToTokens skipSpecialTokens rest

def hexValue (c : Char) : Option ℕ :=
  if '0' ≤ c ∧ c ≤ '9' then some (c.toNat - '0'.toNat)
  else if 'a' ≤ c ∧ c ≤ 'f' then some (c.toNat - 'a'.toNat + 10)
  else if 'A' ≤ c ∧ c ≤ 'F' then some (c.toNat - 'A'.toNat + 10)
  else none

/-- `int(digits, 16)` of two digits. -/
def intBase16 (digits : List Char) : Except PyError ℕ :=
  match digits.mapM hexValue with
  | some [high, low] => .ok (high * 16 + low)
  | _ => .error (.valueError
      s!"invalid literal for int() with base 16: '{String.ofList digits}'")

def tokenByte (token : Token) : Except PyError (Option ℕ) :=
  if token.take 3 = "<0x".toList ∧ token.getLast? = some '>' ∧ token.length = 6 then
    (intBase16 ((token.drop 3).take 2)).map some
  else .ok none

/-- The loop of `convert_tokens_to_string`, with the bytes not yet decoded. -/
def joinTokens : List Token → List ℕ → Except PyError (List Char)
  | [], out => .ok (Utf8.decodeBytes out)
  | token :: rest, out =>
    match tokenByte token with
    | .error e => .error e
    | .ok (some b) => joinTokens rest (out ++ [b])
    | .ok none => (joinTokens rest []).map (Utf8.decodeBytes out ++ token ++ ·)

def convertTokensToString (tokens : List Token) : Except PyError (List Char) := joinTokens tokens []

/-! ### The chat template -/

/-- `encode` of two texts in a row. -/
theorem encode_append (a b : List Char) :
    tokenizer.encode (a ++ b) false = tokenizer.encode a false ++ tokenizer.encode b false := by
  simp only [encode, utf8Bytes, Bool.false_and, Bool.false_eq_true, if_false, List.flatMap_append,
    List.map_append]

/-- With special tokens it is the same after BOS. -/
theorem encode_special (text : List Char) :
    tokenizer.encode text true = tokenizer.bosTokenId.toList ++ tokenizer.encode text false := by
  unfold encode bosTokenId
  cases tokenizer.addBos with
  | true => rfl
  | false => rfl

/-- The tokens of a text are bytes. -/
theorem byteTokenOffset_le_of_mem_encode {text : List Char} {tokenId : TokenId}
    (h : tokenId ∈ tokenizer.encode text false) : byteTokenOffset ≤ tokenId := by
  simp only [encode, Bool.false_and, Bool.false_eq_true, if_false] at h
  obtain ⟨b, -, rfl⟩ := List.mem_map.mp h
  exact Nat.le_add_right _ _

/-! ### One reading of the pieces -/

/-- What an id is to `decode`. -/
def piece (skipSpecialTokens : Bool) (tokenId : TokenId) : Utf8.Piece :=
  match specialTokenText tokenId with
  | some text => .text (if skipSpecialTokens then [] else text)
  | none =>
    if byteTokenOffset ≤ tokenId ∧ tokenId < byteTokenOffset + 256 then
      .byte (tokenId - byteTokenOffset)
    else .text (pseudoWord tokenId)

/-- What a token is to `convert_tokens_to_string`. -/
def tokenPiece (token : Token) : Utf8.Piece :=
  match tokenByte token with
  | .ok (some b) => .byte b
  | _ => .text token

/-- The token can be read: where it has the form of a byte it is one. -/
def Readable (token : Token) : Prop := ∃ byte, tokenByte token = .ok byte

variable (skip : Bool)

theorem decodeLoop_eq (ids : List TokenId) (pending : List ℕ) :
    decodeLoop skip ids pending = Utf8.decode (pending.map .byte ++ ids.map (piece skip)) := by
  induction ids generalizing pending with
  | nil =>
      rw [List.map_nil, List.append_nil]
      rfl
  | cons tokenId rest ih =>
      rw [List.map_cons]
      unfold decodeLoop piece
      cases hspecial : specialTokenText tokenId with
      | some text =>
          simp only
          rw [ih, Utf8.decode_text]
          rfl
      | none =>
          simp only
          split
          · rw [ih, List.map_append, List.append_assoc]
            rfl
          · rw [ih, Utf8.decode_text]
            rfl

theorem decode_eq (ids : List TokenId) : decode ids skip = Utf8.decode (ids.map (piece skip)) :=
  decodeLoop_eq skip ids []

theorem joinTokens_eq {tokens : List Token} (h : ∀ token ∈ tokens, Readable token)
    (out : List ℕ) :
    joinTokens tokens out = .ok (Utf8.decode (out.map .byte ++ tokens.map tokenPiece)) := by
  induction tokens generalizing out with
  | nil =>
      rw [List.map_nil, List.append_nil]
      rfl
  | cons token rest ih =>
      have hrest := ih fun t ht => h t (List.mem_cons_of_mem _ ht)
      obtain ⟨byte, hbyte⟩ := h token List.mem_cons_self
      rw [List.map_cons]
      unfold joinTokens tokenPiece
      rw [hbyte]
      cases byte with
      | some b =>
          simp only
          rw [hrest, List.map_append, List.append_assoc]
          rfl
      | none =>
          simp only
          rw [hrest, Utf8.decode_text]
          rfl

theorem tokenByte_byteToken : ∀ b < 256, tokenByte (byteToken b) = .ok (some b) := by
  decide +kernel

theorem tokenByte_pseudoWord (tokenId : TokenId) : tokenByte (pseudoWord tokenId) = .ok none := by
  have hfirst : ∀ i < 14, "bdfgklmnprstvz".toList.getD i 'b' ≠ '<' := by decide
  unfold tokenByte
  rw [if_neg]
  rintro ⟨hform, -⟩
  have hhead := congrArg List.head? hform
  simp only [pseudoWord, pseudoSyllables, List.take_succ_cons] at hhead
  exact hfirst _ (Nat.mod_lt _ (by decide)) (Option.some.inj hhead)

theorem specialTokenText_cases {tokenId : TokenId} {text : Token}
    (h : specialTokenText tokenId = some text) : text ∈ specialTokenTexts.map (·.2) := by
  unfold specialTokenText at h
  obtain ⟨entry, hfind, rfl⟩ := Option.map_eq_some_iff.mp h
  exact List.mem_map_of_mem (List.mem_of_find?_eq_some hfind)

theorem tokenByte_special {tokenId : TokenId} {text : Token}
    (h : specialTokenText tokenId = some text) : tokenByte text = .ok none ∧ text ≠ [] := by
  have hall : ∀ text ∈ specialTokenTexts.map (·.2), tokenByte text = .ok none ∧ text ≠ [] := by
    decide +kernel
  exact hall text (specialTokenText_cases h)

theorem pseudoWord_ne_nil (tokenId : TokenId) : pseudoWord tokenId ≠ [] := List.cons_ne_nil _ _

/-- The tokens of ids can be read, and are the pieces of the ids that say something. -/
theorem convertIdsToTokens_pieces (ids : List TokenId) :
    (∀ token ∈ convertIdsToTokens skip ids, Readable token) ∧
      (convertIdsToTokens skip ids).map tokenPiece = Utf8.visible (ids.map (piece skip)) := by
  induction ids with
  | nil => exact ⟨nofun, rfl⟩
  | cons tokenId rest ih =>
      obtain ⟨hreadable, hpieces⟩ := ih
      -- a token that is shown is read as the piece of its id
      have hshown : ∀ {token : Token} {byte : Option ℕ}, tokenByte token = .ok byte →
          piece skip tokenId ≠ .text [] → tokenPiece token = piece skip tokenId →
          (∀ t ∈ token :: convertIdsToTokens skip rest, Readable t) ∧
            (token :: convertIdsToTokens skip rest).map tokenPiece =
              Utf8.visible ((tokenId :: rest).map (piece skip)) := by
        intro token byte hbyte hne hpiece
        refine ⟨fun t ht => ?_, ?_⟩
        · rcases List.mem_cons.mp ht with rfl | ht
          · exact ⟨_, hbyte⟩
          · exact hreadable t ht
        · rw [List.map_cons, List.map_cons, hpieces, hpiece]
          simp [Utf8.visible, hne]
      unfold convertIdsToTokens
      cases hspecial : specialTokenText tokenId with
      | some text =>
          obtain ⟨hbyte, hne⟩ := tokenByte_special hspecial
          have hpiece : piece skip tokenId = .text (if skip then [] else text) := by
            unfold piece
            rw [hspecial]
          cases skip with
          | true =>
              refine ⟨hreadable, ?_⟩
              simp only [if_true] at hpiece ⊢
              rw [List.map_cons, hpiece, hpieces]
              rfl
          | false =>
              simp only [Bool.false_eq_true, if_false] at hpiece ⊢
              refine hshown hbyte ?_ ?_
              · rw [hpiece]
                exact fun heq => hne (Utf8.Piece.text.inj heq)
              · unfold tokenPiece
                rw [hbyte, hpiece]
      | none =>
          simp only
          have hpiece : piece skip tokenId =
              if byteTokenOffset ≤ tokenId ∧ tokenId < byteTokenOffset + 256 then
                .byte (tokenId - byteTokenOffset)
              else .text (pseudoWord tokenId) := by
            unfold piece
            rw [hspecial]
          split at hpiece
          · rename_i hrange
            rw [if_pos hrange]
            have hbyte := tokenByte_byteToken (tokenId - byteTokenOffset)
              (Nat.sub_lt_left_of_lt_add hrange.1 hrange.2)
            refine hshown hbyte ?_ ?_
            · rw [hpiece]
              exact Utf8.Piece.noConfusion
            · unfold tokenPiece
              rw [hbyte, hpiece]
          · rename_i hrange
            rw [if_neg hrange]
            have hbyte := tokenByte_pseudoWord tokenId
            refine hshown hbyte ?_ ?_
            · rw [hpiece]
              exact fun heq => pseudoWord_ne_nil tokenId (Utf8.Piece.text.inj heq)
            · unfold tokenPiece
              rw [hbyte, hpiece]

/-- The two steps read the pieces that say something. -/
theorem convertTokensToString_eq (ids : List TokenId) :
    convertTokensToString (convertIdsToTokens skip ids) =
      .ok (Utf8.decode (Utf8.visible (ids.map (piece skip)))) := by
  obtain ⟨hreadable, hpieces⟩ := convertIdsToTokens_pieces skip ids
  unfold convertTokensToString
  rw [joinTokens_eq hreadable [], hpieces]
  rfl

def smallTokenizer : MockTokenizer := ⟨1024, true, by decide⟩

end MockTokenizer

end Pvllm
