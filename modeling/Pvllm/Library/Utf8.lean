import Mathlib.Data.List.Basic
import Mathlib.Data.List.Induction

/-!
UTF-8 with replacement characters, one byte at a time.

The decoder reads bytes with an unfinished character in hand. A byte that cannot
continue it turns what is in hand into one U+FFFD and is read again as a first
byte; the end of the input does the same. `Piece` mixes bytes with texts: a text
ends the character in hand. What a list of pieces says depends on what came
before only through the character in hand, so lists are read apart wherever none
is. An empty text only ends the character in hand; `Severed` says that one stands
before a byte that would have continued it, and `decode_sounded_iff` that this is
the only thing that leaving the empty texts out can change.
-/

namespace Pvllm

namespace Utf8

def replacement : Char := Char.ofNat 0xFFFD

/-- An unfinished character: the bits read, the bytes that may come next, and how many
must follow that one. -/
structure Pending where
  value : ℕ
  lower : ℕ
  upper : ℕ
  more : ℕ
deriving Repr, DecidableEq

abbrev State := Option Pending

/-- A byte read with no character in hand. -/
def lead (b : ℕ) : List Char × State :=
  if b < 0x80 then ([Char.ofNat b], none)
  else if b < 0xC2 then ([replacement], none)
  else if b < 0xE0 then ([], some ⟨b - 0xC0, 0x80, 0xBF, 0⟩)
  else if b < 0xF0 then
    ([], some ⟨b - 0xE0, if b = 0xE0 then 0xA0 else 0x80, if b = 0xED then 0x9F else 0xBF, 1⟩)
  else if b < 0xF5 then
    ([], some ⟨b - 0xF0, if b = 0xF0 then 0x90 else 0x80, if b = 0xF4 then 0x8F else 0xBF, 2⟩)
  else ([replacement], none)

namespace Pending

/-- The byte is a continuation byte, and one that may come next. -/
def accepts (p : Pending) (b : ℕ) : Bool :=
  0x80 ≤ b && b ≤ 0xBF && p.lower ≤ b && b ≤ p.upper

def extend (p : Pending) (b : ℕ) : List Char × State :=
  match p.more with
  | 0 => ([Char.ofNat (p.value * 64 + (b - 0x80))], none)
  | more + 1 => ([], some ⟨p.value * 64 + (b - 0x80), 0x80, 0xBF, more⟩)

end Pending

def step : State → ℕ → List Char × State
  | none, b => lead b
  | some p, b => if p.accepts b then p.extend b else (replacement :: (lead b).1, (lead b).2)

def finish : State → List Char
  | none => []
  | some _ => [replacement]

/-- A byte, or a text that is not made of bytes. -/
inductive Piece where
  | byte (b : ℕ)
  | text (t : List Char)
deriving Repr, DecidableEq

def readPiece (state : State) : Piece → List Char × State
  | .byte b => step state b
  | .text t => (finish state ++ t, none)

def read (state : State) : List Piece → List Char × State
  | [] => ([], state)
  | piece :: rest =>
    ((readPiece state piece).1 ++ (read (readPiece state piece).2 rest).1,
      (read (readPiece state piece).2 rest).2)

def decode (pieces : List Piece) : List Char :=
  (read none pieces).1 ++ finish (read none pieces).2

def decodeBytes (bytes : List ℕ) : List Char := decode (bytes.map .byte)

/-- The last character is U+FFFD. -/
def EndsInReplacement (text : List Char) : Prop := text.getLast? = some replacement

instance (text : List Char) : Decidable (EndsInReplacement text) :=
  inferInstanceAs (Decidable (text.getLast? = some replacement))

/-! ### Reading in parts -/

theorem read_append (state : State) (a b : List Piece) :
    read state (a ++ b) =
      ((read state a).1 ++ (read (read state a).2 b).1, (read (read state a).2 b).2) := by
  induction a generalizing state with
  | nil => rfl
  | cons piece a ih =>
      simp only [List.cons_append, read, ih, List.append_assoc]

theorem read_concat (state : State) (a : List Piece) (piece : Piece) :
    read state (a ++ [piece]) =
      ((read state a).1 ++ (readPiece (read state a).2 piece).1,
        (readPiece (read state a).2 piece).2) := by
  rw [read_append]
  simp only [read, List.append_nil]

@[simp] theorem decode_nil : decode [] = [] := rfl

/-- Where no character is in hand, what follows is read as if it came first. -/
theorem decode_append {a : List Piece} (h : (read none a).2 = none) (b : List Piece) :
    decode (a ++ b) = decode a ++ decode b := by
  unfold decode
  rw [read_append, h]
  simp only [finish, List.append_nil, List.append_assoc]

/-- A text ends what is before it. -/
theorem decode_text (a : List Piece) (t : List Char) (b : List Piece) :
    decode (a ++ .text t :: b) = decode a ++ t ++ decode b := by
  unfold decode
  rw [read_append]
  simp only [read, readPiece, List.append_assoc]

theorem endsInReplacement_append {a b : List Char} (h : b ≠ []) :
    EndsInReplacement (a ++ b) ↔ EndsInReplacement b := by
  unfold EndsInReplacement
  rw [List.getLast?_append_of_ne_nil _ h]

theorem endsInReplacement_concat (t : List Char) : EndsInReplacement (t ++ [replacement]) :=
  (endsInReplacement_append (List.cons_ne_nil _ _)).mpr rfl

theorem endsInReplacement_of_pending {pieces : List Piece} {p : Pending}
    (h : (read none pieces).2 = some p) : EndsInReplacement (decode pieces) := by
  unfold decode
  rw [h]
  exact endsInReplacement_concat _

/-- A text that does not end in U+FFFD leaves no character in hand. -/
theorem read_none_of_not_ends {pieces : List Piece} (h : ¬ EndsInReplacement (decode pieces)) :
    (read none pieces).2 = none := by
  cases hstate : (read none pieces).2 with
  | none => rfl
  | some p => exact absurd (endsInReplacement_of_pending hstate) h

theorem lead_of_accepts {p : Pending} {b : ℕ} (h : p.accepts b = true) :
    lead b = ([replacement], none) := by
  simp only [Pending.accepts, Bool.and_eq_true, decide_eq_true_eq] at h
  obtain ⟨⟨⟨hlow, hhigh⟩, -⟩, -⟩ := h
  unfold lead
  rw [if_neg (by omega), if_pos (by omega)]

theorem read_late (state : State) (pieces : List Piece) :
    (read none pieces).2 = (read state pieces).2 ∨ (read none pieces).2 = none := by
  induction pieces generalizing state with
  | nil => exact .inr rfl
  | cons piece rest ih =>
      cases piece with
      | text t => exact .inl rfl
      | byte b =>
          cases state with
          | none => exact .inl rfl
          | some p =>
              simp only [read, readPiece, step]
              split
              · rename_i haccepts
                rw [lead_of_accepts haccepts]
                exact ih (p.extend b).2
              · exact .inl rfl

/-- Where the pieces end between two characters, so does every tail of them. -/
theorem read_suffix_none {a b : List Piece} (h : (read none (a ++ b)).2 = none) :
    (read none b).2 = none := by
  rw [read_append] at h
  rcases read_late (read none a).2 b with hsame | hnone
  · rw [hsame]
    exact h
  · exact hnone

theorem read_some_ne_nil (p : Pending) (pieces : List Piece) :
    (read (some p) pieces).1 ++ finish (read (some p) pieces).2 ≠ [] := by
  induction pieces generalizing p with
  | nil => exact List.cons_ne_nil _ _
  | cons piece rest ih =>
      cases piece with
      | text t =>
          simp only [read, readPiece, finish, List.cons_append]
          exact List.cons_ne_nil _ _
      | byte b =>
          simp only [read, readPiece, step]
          split
          · simp only [Pending.extend]
            split
            · simp only [List.cons_append]
              exact List.cons_ne_nil _ _
            · simp only [List.nil_append]
              exact ih _
          · simp only [List.cons_append]
            exact List.cons_ne_nil _ _

/-! ### Empty texts -/

def visible (pieces : List Piece) : List Piece := pieces.filter fun piece => piece != .text []

/-- Pieces that decode to nothing say nothing. -/
theorem visible_eq_nil {pieces : List Piece} (h : decode (visible pieces) = []) :
    visible pieces = [] := by
  have hsaid : ∀ piece ∈ visible pieces, piece ≠ .text [] := by
    intro piece hpiece
    simpa using (List.mem_filter.mp hpiece).2
  generalize visible pieces = said at h hsaid ⊢
  cases said with
  | nil => rfl
  | cons piece rest =>
      exfalso
      cases piece with
      | text t =>
          have hne : t ≠ [] := fun ht => hsaid _ List.mem_cons_self (by rw [ht])
          have hsplit := decode_text [] t rest
          rw [List.nil_append, h, decode_nil, List.nil_append] at hsplit
          exact hne (List.append_eq_nil_iff.mp hsplit.symm).1
      | byte b =>
          unfold decode at h
          simp only [read, readPiece, step] at h
          cases hstate : (lead b).2 with
          | some p =>
              rw [hstate, List.append_assoc] at h
              exact read_some_ne_nil p rest (List.append_eq_nil_iff.mp h).2
          | none =>
              have hlead : (lead b).1 ≠ [] := by
                unfold lead at hstate ⊢
                split_ifs at hstate ⊢ <;> simp_all
              rw [List.append_assoc] at h
              exact hlead (List.append_eq_nil_iff.mp h).1

/-- Without what is visible nothing is read. -/
theorem decode_of_visible_nil {pieces : List Piece} (h : visible pieces = []) :
    decode pieces = [] := by
  induction pieces with
  | nil => rfl
  | cons piece rest ih =>
      obtain ⟨hpiece, hrest⟩ := List.filter_eq_nil_iff.mp h |> List.forall_mem_cons.mp
      have hskip : piece = .text [] := by simpa using hpiece
      subst hskip
      have hsplit := decode_text [] [] rest
      rw [List.nil_append, decode_nil, List.nil_append] at hsplit
      rw [hsplit]
      exact ih (List.filter_eq_nil_iff.mpr hrest)

/-- An empty text stands before a byte that continues the character the pieces before it left
unfinished. -/
def Severed (pieces : List Piece) : Prop :=
  ∃ before b after p, pieces = before ++ .text [] :: .byte b :: after ∧
    (read none (visible before)).2 = some p ∧ p.accepts b = true

/-- The reader of the visible pieces beside the reader of all. -/
inductive Tracks : Bool → List Char × State → List Char × State → Prop
  | same (out : List Char × State) : Tracks false out out
  /-- An empty text ended the character in hand. -/
  | ended (t : List Char) (p : Pending) : Tracks false (t, some p) (t ++ [replacement], none)
  /-- The readers agree again, and one has read more. -/
  | longer {t t' : List Char} (state : State) (hlt : t.length < t'.length)
      (hlast : ¬ EndsInReplacement t' → t.getLast? = t'.getLast?) :
      Tracks true (t, state) (t', state)
  /-- A byte continued the character for the one reader and was astray for the other. -/
  | behind {t t' : List Char} (p : Pending) (hlt : t.length + 2 ≤ t'.length)
      (hends : EndsInReplacement t') : Tracks true (t, some p) (t', none)

def advance (out : List Char × State) (piece : Piece) : List Char × State :=
  (out.1 ++ (readPiece out.2 piece).1, (readPiece out.2 piece).2)

variable {severed : Bool} {v w : List Char × State}

theorem getLast?_append_congr {t t' s : List Char}
    (h : ¬ EndsInReplacement t' → t.getLast? = t'.getLast?)
    (hnot : ¬ EndsInReplacement (t' ++ s)) : (t ++ s).getLast? = (t' ++ s).getLast? := by
  by_cases hs : s = []
  · subst hs
    rw [List.append_nil] at hnot ⊢
    rw [List.append_nil]
    exact h hnot
  · rw [List.getLast?_append_of_ne_nil _ hs, List.getLast?_append_of_ne_nil _ hs]

/-- The readers are at the same character, or one of them has one in hand that was ended for the
other. -/
theorem Tracks.states (h : Tracks severed v w) :
    v.2 = w.2 ∨ ∃ p, v.2 = some p ∧ w.2 = none := by
  cases h with
  | same => exact .inl rfl
  | ended t p => exact .inr ⟨p, rfl, rfl⟩
  | longer state hlt hlast => exact .inl rfl
  | behind p hlt hends => exact .inr ⟨p, rfl, rfl⟩

/-- Both read the same piece, and the one with a character in hand cannot go on with it. -/
theorem Tracks.advance (h : Tracks severed v w) {piece : Piece} (htext : piece ≠ .text [])
    (hstop : ∀ p b, v.2 = some p → w.2 = none → piece = .byte b → p.accepts b = false) :
    Tracks severed (advance v piece) (advance w piece) := by
  cases h with
  | same => exact .same _
  | ended t p =>
      cases piece with
      | byte b =>
          simp only [Utf8.advance, readPiece, step, hstop p b rfl rfl rfl, Bool.false_eq_true,
            if_false]
          rw [List.append_cons]
          exact .same _
      | text s =>
          simp only [Utf8.advance, readPiece, finish, List.nil_append, List.append_assoc]
          exact .same _
  | @longer t t' state hlt hlast =>
      refine .longer _ ?_ (getLast?_append_congr hlast)
      simp only [List.length_append]
      omega
  | @behind t t' p hlt hends =>
      -- U+FFFD for the character in hand, then the same characters for both
      have hsame : ∀ s : List Char, (¬ EndsInReplacement (t' ++ s) →
          (t ++ replacement :: s).getLast? = (t' ++ s).getLast?) ∧
          (t ++ replacement :: s).length < (t' ++ s).length := by
        intro s
        constructor
        · intro hnot
          by_cases hs : s = []
          · subst hs
            rw [List.append_nil] at hnot
            exact absurd hends hnot
          · rw [List.append_cons, List.getLast?_append_of_ne_nil _ hs,
              List.getLast?_append_of_ne_nil _ hs]
        · simp only [List.length_append, List.length_cons]
          omega
      cases piece with
      | byte b =>
          simp only [Utf8.advance, readPiece, step, hstop p b rfl rfl rfl, Bool.false_eq_true,
            if_false]
          exact .longer _ (hsame _).2 (hsame _).1
      | text s =>
          simp only [Utf8.advance, readPiece, finish, List.nil_append, List.singleton_append]
          exact .longer _ (hsame _).2 (hsame _).1

/-- An empty text, which only one of them reads. -/
theorem Tracks.skip (h : Tracks severed v w) : Tracks severed v (Utf8.advance w (.text [])) := by
  cases h with
  | same =>
      obtain ⟨t, state⟩ := v
      cases state with
      | none =>
          simp only [Utf8.advance, readPiece, finish, List.append_nil]
          exact .same _
      | some p => exact .ended t p
  | ended t p =>
      simp only [Utf8.advance, readPiece, finish, List.append_nil]
      exact .ended t p
  | @longer t t' state hlt hlast =>
      cases state with
      | none =>
          simp only [Utf8.advance, readPiece, finish, List.append_nil]
          exact .longer none hlt hlast
      | some p =>
          refine .behind p ?_ (endsInReplacement_concat _)
          simp only [readPiece, finish, List.length_append, List.length_cons, List.length_nil]
          omega
  | behind p hlt hends =>
      simp only [Utf8.advance, readPiece, finish, List.append_nil]
      exact .behind p hlt hends

theorem Tracks.sever (h : Tracks severed v w) {p : Pending} {b : ℕ} (hv : v.2 = some p)
    (hw : w.2 = none) (haccepts : p.accepts b = true) :
    Tracks true (Utf8.advance v (.byte b)) (Utf8.advance w (.byte b)) := by
  obtain ⟨t, state⟩ := v
  obtain ⟨t', state'⟩ := w
  obtain rfl : state = some p := hv
  obtain rfl : state' = none := hw
  have hlt : t.length + 1 ≤ t'.length := by
    cases h with
    | ended => simp only [List.length_append, List.length_singleton, Nat.le_refl]
    | behind _ hlt _ => omega
  have hends := endsInReplacement_concat t'
  simp only [Utf8.advance, readPiece, step, haccepts, if_true, lead_of_accepts haccepts,
    Pending.extend]
  split
  · refine .longer none ?_ fun hnot => absurd hends hnot
    simp only [List.length_append, List.length_singleton]
    omega
  · refine .behind _ ?_ hends
    simp only [List.append_nil, List.length_append, List.length_singleton]
    omega

theorem visible_append (a b : List Piece) : visible (a ++ b) = visible a ++ visible b :=
  List.filter_append ..

theorem visible_skip (a : List Piece) : visible (a ++ [.text []]) = visible a := by
  rw [visible_append]
  exact List.append_nil _

theorem visible_concat {piece : Piece} (h : piece ≠ .text []) (a : List Piece) :
    visible (a ++ [piece]) = visible a ++ [piece] := by
  rw [visible_append]
  simp [visible, h]

/-- The last piece severs a character, or one before it does. -/
theorem severed_concat {a : List Piece} {piece : Piece} :
    Severed (a ++ [piece]) ↔ Severed a ∨ ∃ before b p, a = before ++ [.text []] ∧
      piece = .byte b ∧ (read none (visible before)).2 = some p ∧ p.accepts b = true := by
  constructor
  · rintro ⟨before, b, after, p, heq, hstate, haccepts⟩
    rcases List.eq_nil_or_concat' after with rfl | ⟨after, last, rfl⟩
    · rw [show before ++ .text [] :: .byte b :: [] = (before ++ [.text []]) ++ [.byte b] by
        simp] at heq
      obtain ⟨rfl, hlast⟩ := List.append_inj' heq rfl
      exact .inr ⟨before, b, p, rfl, List.head_eq_of_cons_eq hlast, hstate, haccepts⟩
    · rw [show before ++ .text [] :: .byte b :: (after ++ [last]) =
        (before ++ .text [] :: .byte b :: after) ++ [last] by simp] at heq
      obtain ⟨rfl, -⟩ := List.append_inj' heq rfl
      exact .inl ⟨before, b, after, p, rfl, hstate, haccepts⟩
  · rintro (⟨before, b, after, p, rfl, hstate, haccepts⟩ |
      ⟨before, b, p, rfl, rfl, hstate, haccepts⟩)
    · exact ⟨before, b, after ++ [piece], p, by simp, hstate, haccepts⟩
    · exact ⟨before, b, [], p, by simp, hstate, haccepts⟩

theorem exists_tracks (pieces : List Piece) : ∃ severed, (severed = true ↔ Severed pieces) ∧
    Tracks severed (read none (visible pieces)) (read none pieces) ∧
    ((read none (visible pieces)).2 ≠ (read none pieces).2 →
      severed = true ∨ pieces.getLast? = some (.text [])) := by
  induction pieces using List.reverseRecOn with
  | nil =>
      refine ⟨false, ⟨nofun, ?_⟩, .same _, fun h => absurd rfl h⟩
      rintro ⟨before, b, after, p, heq, -⟩
      simp at heq
  | append_singleton pieces piece ih =>
      obtain ⟨severed, hiff, htracks, hlast⟩ := ih
      rw [read_concat, severed_concat]
      by_cases htext : piece = .text []
      · subst htext
        refine ⟨severed, ?_, ?_, fun _ => .inr (by simp)⟩
        · rw [hiff]
          exact ⟨.inl, fun h => h.elim id fun ⟨_, _, _, _, heq, _⟩ => by cases heq⟩
        · rw [visible_skip]
          exact htracks.skip
      rw [visible_concat htext, read_concat]
      by_cases hgoes : ∃ p b, (read none (visible pieces)).2 = some p ∧
          (read none pieces).2 = none ∧ piece = .byte b ∧ p.accepts b = true
      · obtain ⟨p, b, hv, hw, rfl, haccepts⟩ := hgoes
        refine ⟨true, ⟨fun _ => ?_, fun _ => rfl⟩, htracks.sever hv hw haccepts, fun _ => .inl rfl⟩
        rcases hlast (by rw [hv, hw]; exact nofun) with hsevered | hskip
        · exact .inl (hiff.mp hsevered)
        · right
          obtain ⟨before, rfl⟩ := List.getLast?_eq_some_iff.mp hskip
          rw [visible_skip] at hv
          exact ⟨before, b, p, rfl, rfl, hv, haccepts⟩
      · have hstop : ∀ p b, (read none (visible pieces)).2 = some p →
            (read none pieces).2 = none → piece = .byte b → p.accepts b = false := by
          intro p b hv hw hb
          by_contra haccepts
          exact hgoes ⟨p, b, hv, hw, hb, by simpa using haccepts⟩
        refine ⟨severed, ?_, htracks.advance htext hstop, fun hne => ?_⟩
        · rw [hiff]
          refine ⟨.inl, fun h => h.resolve_right ?_⟩
          rintro ⟨before, b, p, rfl, rfl, hstate, haccepts⟩
          refine hgoes ⟨p, b, ?_, ?_, rfl, haccepts⟩
          · rw [visible_skip]
            exact hstate
          · rw [read_concat]
            rfl
        · refine absurd ?_ hne
          rcases htracks.states with hsame | ⟨p, hv, hw⟩
          · rw [hsame]
          · cases piece with
            | text s => rfl
            | byte b =>
                rw [hv, hw]
                simp only [readPiece, step, hstop p b hv hw rfl, Bool.false_eq_true, if_false]

/-- Leaving the empty texts out changes what pieces decode to exactly where one of them severs a
character. -/
theorem decode_visible_iff (pieces : List Piece) :
    decode (visible pieces) = decode pieces ↔ ¬ Severed pieces := by
  obtain ⟨severed, hiff, htracks, -⟩ := exists_tracks pieces
  rw [← hiff]
  unfold decode
  generalize read none (visible pieces) = v at htracks
  generalize read none pieces = w at htracks
  cases htracks with
  | same => exact ⟨fun _ => nofun, fun _ => rfl⟩
  | ended t p => exact ⟨fun _ => nofun, fun _ => by simp [finish]⟩
  | longer state hlt hlast =>
      refine ⟨fun heq => absurd (congrArg List.length heq) ?_, fun hnot => absurd rfl hnot⟩
      simp only [List.length_append]
      omega
  | behind p hlt hends =>
      refine ⟨fun heq => absurd (congrArg List.length heq) ?_, fun hnot => absurd rfl hnot⟩
      simp only [finish, List.length_append, List.length_singleton, List.length_nil]
      omega

/-- Nor does it make a text end in U+FFFD. -/
theorem not_ends_visible {pieces : List Piece} (h : ¬ EndsInReplacement (decode pieces)) :
    ¬ EndsInReplacement (decode (visible pieces)) := by
  obtain ⟨severed, -, htracks, -⟩ := exists_tracks pieces
  unfold decode at h ⊢
  generalize read none (visible pieces) = v at htracks ⊢
  generalize read none pieces = w at htracks h
  cases htracks with
  | same => exact h
  | ended t p =>
      rw [finish, List.append_nil] at h
      exact absurd (endsInReplacement_concat _) h
  | longer state hlt hlast =>
      cases state with
      | some p => exact absurd (endsInReplacement_concat _) h
      | none =>
          simp only [finish, List.append_nil] at h ⊢
          unfold EndsInReplacement
          rw [hlast h]
          exact h
  | behind p hlt hends =>
      rw [finish, List.append_nil] at h
      exact absurd hends h

end Utf8

end Pvllm
