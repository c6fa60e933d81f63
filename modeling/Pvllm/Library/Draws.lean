import Mathlib.Data.Rat.Floor
import Mathlib.Data.List.Forall2

/-!
Programs that draw random numbers.

`Draws ε α` is such a program: it is done, it fails, or it asks for a number in a range
and goes on with it. A `Source` is anything that answers within the range it was asked
for. `Leads` says what a program can come to, by the rules for its constructors: that is
what some source makes of it (`exists_run`), and every source makes one of these of it
(`leads_run`), so that a statement about every source is one about all outcomes.
-/

namespace Pvllm

/-- A program that draws integers below a bound, and rationals between two bounds. -/
inductive Draws (ε α : Type) where
  | done (a : α)
  | fail (e : ε)
  | integer (low high : ℤ) (h : low < high) (next : ℤ → Draws ε α)
  | uniform (low high : ℚ) (h : low ≤ high) (next : ℚ → Draws ε α)

/-- A source of random numbers, by how it answers and what it is afterwards. -/
structure Source (τ : Type) where
  integer : ℤ → ℤ → τ → ℤ × τ
  uniform : ℚ → ℚ → τ → ℚ × τ
  le_integer : ∀ {low high}, low < high → ∀ t, low ≤ (integer low high t).1
  integer_lt : ∀ {low high}, low < high → ∀ t, (integer low high t).1 < high
  le_uniform : ∀ {low high}, low ≤ high → ∀ t, low ≤ (uniform low high t).1
  uniform_le : ∀ {low high}, low ≤ high → ∀ t, (uniform low high t).1 ≤ high

namespace Draws

variable {ε α β τ : Type}

protected def bind : Draws ε α → (α → Draws ε β) → Draws ε β
  | done a, f => f a
  | fail e, _ => fail e
  | integer low high h next, f => integer low high h fun n => (next n).bind f
  | uniform low high h next, f => uniform low high h fun q => (next q).bind f

instance : Monad (Draws ε) where
  pure := done
  bind := Draws.bind

def ofExcept : Except ε α → Draws ε α
  | .ok a => done a
  | .error e => fail e

/-- A run of the program on a source. -/
def run (source : Source τ) : Draws ε α → τ → Except ε α
  | done a, _ => .ok a
  | fail e, _ => .error e
  | integer low high _ next, t =>
    let (n, t) := source.integer low high t
    (next n).run source t
  | uniform low high _ next, t =>
    let (q, t) := source.uniform low high t
    (next q).run source t

def Leads : Draws ε α → Except ε α → Prop
  | done a, outcome => outcome = .ok a
  | fail e, outcome => outcome = .error e
  | integer low high _ next, outcome => ∃ n, low ≤ n ∧ n < high ∧ (next n).Leads outcome
  | uniform low high _ next, outcome => ∃ q, low ≤ q ∧ q ≤ high ∧ (next q).Leads outcome

/-! ### Sources -/

theorem leads_run (source : Source τ) (p : Draws ε α) (t : τ) : p.Leads (p.run source t) := by
  induction p generalizing t with
  | done a => rfl
  | fail e => rfl
  | integer low high h next ih =>
      exact ⟨_, source.le_integer h t, source.integer_lt h t, ih _ _⟩
  | uniform low high h next ih =>
      exact ⟨_, source.le_uniform h t, source.uniform_le h t, ih _ _⟩

/-- A source that answers with what it was given, as long as that is in the range. -/
def replay : Source (List ℚ) where
  integer low high
    | [] => (low, [])
    | q :: rest => (if low ≤ ⌊q⌋ ∧ ⌊q⌋ < high then ⌊q⌋ else low, rest)
  uniform low high
    | [] => (low, [])
    | q :: rest => (if low ≤ q ∧ q ≤ high then q else low, rest)
  le_integer h t := by
    cases t with
    | nil => exact le_rfl
    | cons q rest =>
        dsimp only
        split
        · rename_i hin
          exact hin.1
        · exact le_rfl
  integer_lt h t := by
    cases t with
    | nil => exact h
    | cons q rest =>
        dsimp only
        split
        · rename_i hin
          exact hin.2
        · exact h
  le_uniform h t := by
    cases t with
    | nil => exact le_rfl
    | cons q rest =>
        dsimp only
        split
        · rename_i hin
          exact hin.1
        · exact le_rfl
  uniform_le h t := by
    cases t with
    | nil => exact h
    | cons q rest =>
        dsimp only
        split
        · rename_i hin
          exact hin.2
        · exact h

/-- Whatever a program can come to, some source brings about. -/
theorem exists_run {p : Draws ε α} {outcome : Except ε α} (h : p.Leads outcome) :
    ∃ t, p.run replay t = outcome := by
  induction p with
  | done a => exact ⟨[], h.symm⟩
  | fail e => exact ⟨[], h.symm⟩
  | integer low high hlt next ih =>
      obtain ⟨n, hlow, hhigh, hnext⟩ := h
      obtain ⟨t, ht⟩ := ih n hnext
      refine ⟨(n : ℚ) :: t, ?_⟩
      show (next (if low ≤ ⌊(n : ℚ)⌋ ∧ ⌊(n : ℚ)⌋ < high then ⌊(n : ℚ)⌋ else low)).run replay t = _
      rw [Int.floor_intCast, if_pos ⟨hlow, hhigh⟩]
      exact ht
  | uniform low high hle next ih =>
      obtain ⟨q, hlow, hhigh, hnext⟩ := h
      obtain ⟨t, ht⟩ := ih q hnext
      refine ⟨q :: t, ?_⟩
      show (next (if low ≤ q ∧ q ≤ high then q else low)).run replay t = _
      rw [if_pos ⟨hlow, hhigh⟩]
      exact ht

/-- What every source makes of a program is what it can come to. -/
theorem forall_run_iff {p : Draws ε α} {P : Except ε α → Prop} :
    (∀ (τ : Type) (source : Source τ) (t : τ), P (p.run source t)) ↔
      ∀ outcome, p.Leads outcome → P outcome := by
  refine ⟨fun h outcome hleads => ?_, fun h τ source t => h _ (leads_run source p t)⟩
  obtain ⟨t, ht⟩ := exists_run hleads
  rw [← ht]
  exact h _ replay t

/-! ### Rules -/

@[simp] theorem leads_pure {a : α} {outcome : Except ε α} :
    (pure a : Draws ε α).Leads outcome ↔ outcome = .ok a := Iff.rfl

@[simp] theorem leads_done {a : α} {outcome : Except ε α} :
    (done a : Draws ε α).Leads outcome ↔ outcome = .ok a := Iff.rfl

@[simp] theorem leads_fail {e : ε} {outcome : Except ε α} :
    (fail e : Draws ε α).Leads outcome ↔ outcome = .error e := Iff.rfl

@[simp] theorem leads_ofExcept {x outcome : Except ε α} :
    (ofExcept x).Leads outcome ↔ outcome = x := by
  cases x <;> rfl

@[simp] theorem leads_integer {low high : ℤ} {h : low < high} {next : ℤ → Draws ε α}
    {outcome : Except ε α} : (integer low high h next).Leads outcome ↔
      ∃ n, low ≤ n ∧ n < high ∧ (next n).Leads outcome := Iff.rfl

@[simp] theorem leads_uniform {low high : ℚ} {h : low ≤ high} {next : ℚ → Draws ε α}
    {outcome : Except ε α} : (uniform low high h next).Leads outcome ↔
      ∃ q, low ≤ q ∧ q ≤ high ∧ (next q).Leads outcome := Iff.rfl

/-- Two programs in a row succeed when both do. -/
theorem leads_bind_ok {p : Draws ε α} {f : α → Draws ε β} {b : β} :
    (p >>= f).Leads (.ok b) ↔ ∃ a, p.Leads (.ok a) ∧ (f a).Leads (.ok b) := by
  show (p.bind f).Leads _ ↔ _
  induction p with
  | done a => simp [Draws.bind]
  | fail e => simp [Draws.bind]
  | integer low high h next ih =>
      simp only [Draws.bind, leads_integer, ih]
      exact ⟨fun ⟨n, hlow, hhigh, a, ha, hb⟩ => ⟨a, ⟨n, hlow, hhigh, ha⟩, hb⟩,
        fun ⟨a, ⟨n, hlow, hhigh, ha⟩, hb⟩ => ⟨n, hlow, hhigh, a, ha, hb⟩⟩
  | uniform low high h next ih =>
      simp only [Draws.bind, leads_uniform, ih]
      exact ⟨fun ⟨n, hlow, hhigh, a, ha, hb⟩ => ⟨a, ⟨n, hlow, hhigh, ha⟩, hb⟩,
        fun ⟨a, ⟨n, hlow, hhigh, ha⟩, hb⟩ => ⟨n, hlow, hhigh, a, ha, hb⟩⟩

/-- Two programs in a row fail when the first does, or the second does after it. -/
theorem leads_bind_error {p : Draws ε α} {f : α → Draws ε β} {e : ε} :
    (p >>= f).Leads (.error e) ↔
      p.Leads (.error e) ∨ ∃ a, p.Leads (.ok a) ∧ (f a).Leads (.error e) := by
  show (p.bind f).Leads _ ↔ _
  induction p with
  | done a => simp [Draws.bind]
  | fail e => simp [Draws.bind]
  | integer low high h next ih =>
      simp only [Draws.bind, leads_integer, ih]
      constructor
      · rintro ⟨n, hlow, hhigh, he | ⟨a, ha, he⟩⟩
        · exact Or.inl ⟨n, hlow, hhigh, he⟩
        · exact Or.inr ⟨a, ⟨n, hlow, hhigh, ha⟩, he⟩
      · rintro (⟨n, hlow, hhigh, he⟩ | ⟨a, ⟨n, hlow, hhigh, ha⟩, he⟩)
        · exact ⟨n, hlow, hhigh, Or.inl he⟩
        · exact ⟨n, hlow, hhigh, Or.inr ⟨a, ha, he⟩⟩
  | uniform low high h next ih =>
      simp only [Draws.bind, leads_uniform, ih]
      constructor
      · rintro ⟨n, hlow, hhigh, he | ⟨a, ha, he⟩⟩
        · exact Or.inl ⟨n, hlow, hhigh, he⟩
        · exact Or.inr ⟨a, ⟨n, hlow, hhigh, ha⟩, he⟩
      · rintro (⟨n, hlow, hhigh, he⟩ | ⟨a, ⟨n, hlow, hhigh, ha⟩, he⟩)
        · exact ⟨n, hlow, hhigh, Or.inl he⟩
        · exact ⟨n, hlow, hhigh, Or.inr ⟨a, ha, he⟩⟩

/-! ### What a program may do, and what it does whatever is drawn -/

/-- Some value that the program can be done with is as described. -/
def Possible (P : α → Prop) (p : Draws ε α) : Prop := ∃ a, p.Leads (.ok a) ∧ P a

/-- Every value that the program can be done with is as described. -/
def Always (P : α → Prop) (p : Draws ε α) : Prop := ∀ a, p.Leads (.ok a) → P a

/-- Every failure of the program is as described. -/
def Fails (P : ε → Prop) (p : Draws ε α) : Prop := ∀ e, p.Leads (.error e) → P e

section
variable {P : α → Prop} {R : ε → Prop} {p : Draws ε α}

@[simp] theorem possible_pure {a : α} : (pure a : Draws ε α).Possible P ↔ P a := by
  simp [Possible]

@[simp] theorem possible_fail {e : ε} : ¬ (fail e : Draws ε α).Possible P := by
  simp [Possible]

@[simp] theorem always_pure {a : α} : (pure a : Draws ε α).Always P ↔ P a := by
  simp [Always]

@[simp] theorem always_fail {e : ε} : (fail e : Draws ε α).Always P := by
  simp [Always]

@[simp] theorem fails_pure {a : α} : (pure a : Draws ε α).Fails R := by
  simp [Fails]

@[simp] theorem fails_fail {e : ε} : (fail e : Draws ε α).Fails R ↔ R e := by
  simp [Fails]

theorem possible_bind {f : α → Draws ε β} {P : β → Prop} :
    (p >>= f).Possible P ↔ p.Possible fun a => (f a).Possible P := by
  simp only [Possible, leads_bind_ok]
  exact ⟨fun ⟨b, ⟨a, ha, hb⟩, hP⟩ => ⟨a, ha, b, hb, hP⟩,
    fun ⟨a, ha, b, hb, hP⟩ => ⟨b, ⟨a, ha, hb⟩, hP⟩⟩

theorem always_bind {f : α → Draws ε β} {P : β → Prop} :
    (p >>= f).Always P ↔ p.Always fun a => (f a).Always P := by
  simp only [Always, leads_bind_ok]
  exact ⟨fun h a ha b hb => h b ⟨a, ha, hb⟩, fun h b ⟨a, ha, hb⟩ => h a ha b hb⟩

theorem fails_bind {f : α → Draws ε β} :
    (p >>= f).Fails R ↔ p.Fails R ∧ p.Always fun a => (f a).Fails R := by
  simp only [Fails, Always, leads_bind_error]
  exact ⟨fun h => ⟨fun e he => h e (Or.inl he), fun a ha e he => h e (Or.inr ⟨a, ha, he⟩)⟩,
    fun ⟨hp, hf⟩ e he => he.elim (hp e) fun ⟨a, ha, he⟩ => hf a ha e he⟩

/-- A program that starts with what is already known. -/
theorem ofExcept_ok_bind {a : α} {f : α → Draws ε β} : (ofExcept (.ok a) >>= f) = f a := rfl

end

/-! ### One after another -/

def each (f : α → Draws ε β) : List α → Draws ε (List β)
  | [] => pure []
  | a :: rest => do
    let b ← f a
    let bs ← each f rest
    pure (b :: bs)

theorem leads_each_ok {f : α → Draws ε β} {items : List α} {results : List β} :
    (each f items).Leads (.ok results) ↔
      List.Forall₂ (fun a b => (f a).Leads (.ok b)) items results := by
  induction items generalizing results with
  | nil =>
      rw [List.forall₂_nil_left_iff]
      simp [each]
  | cons a rest ih =>
      rw [List.forall₂_cons_left_iff]
      simp only [each, leads_bind_ok, leads_pure, Except.ok.injEq, ih]
      exact ⟨fun ⟨b, hb, bs, hbs, heq⟩ => ⟨b, bs, hb, hbs, heq⟩,
        fun ⟨b, bs, hb, hbs, heq⟩ => ⟨b, hb, bs, hbs, heq⟩⟩

theorem leads_each_error {f : α → Draws ε β} {items : List α} {e : ε} :
    (each f items).Leads (.error e) ↔ ∃ before a after, items = before ++ a :: after ∧
      (∀ earlier ∈ before, ∃ b, (f earlier).Leads (.ok b)) ∧ (f a).Leads (.error e) := by
  induction items with
  | nil => simp [each]
  | cons a rest ih =>
      simp only [each, leads_bind_error, leads_pure, reduceCtorEq, and_false, exists_false,
        or_false, ih]
      constructor
      · rintro (he | ⟨b, hb, before, a', after, rfl, hbefore, he⟩)
        · exact ⟨[], a, rest, rfl, fun _ h => absurd h List.not_mem_nil, he⟩
        · exact ⟨a :: before, a', after, rfl, List.forall_mem_cons.mpr ⟨⟨b, hb⟩, hbefore⟩, he⟩
      · rintro ⟨before, a', after, heq, hbefore, he⟩
        cases before with
        | nil =>
            obtain ⟨rfl, -⟩ := List.cons.inj heq
            exact Or.inl he
        | cons first before =>
            obtain ⟨rfl, rfl⟩ := List.cons.inj heq
            obtain ⟨⟨b, hb⟩, hbefore⟩ := List.forall_mem_cons.mp hbefore
            exact Or.inr ⟨b, hb, before, a', after, rfl, hbefore, he⟩

theorem exists_each_ok {f : α → Draws ε β} {items : List α} :
    (∃ results, (each f items).Leads (.ok results)) ↔
      ∀ a ∈ items, ∃ b, (f a).Leads (.ok b) := by
  simp only [leads_each_ok]
  induction items with
  | nil => simp
  | cons a rest ih =>
      rw [List.forall_mem_cons, ← ih]
      constructor
      · rintro ⟨results, hresults⟩
        obtain ⟨b, bs, hb, hbs, -⟩ := List.forall₂_cons_left_iff.mp hresults
        exact ⟨⟨b, hb⟩, bs, hbs⟩
      · rintro ⟨⟨b, hb⟩, bs, hbs⟩
        exact ⟨b :: bs, .cons hb hbs⟩

theorem possible_each {f : α → Draws ε β} {items : List α} :
    (each f items).Possible (fun _ => True) ↔ ∀ a ∈ items, (f a).Possible fun _ => True := by
  simp only [Possible, and_true]
  exact exists_each_ok

theorem fails_each {f : α → Draws ε β} {items : List α} {R : ε → Prop} :
    (each f items).Fails R ↔ ∀ before a after, items = before ++ a :: after →
      (∀ earlier ∈ before, (f earlier).Possible fun _ => True) → (f a).Fails R := by
  simp only [Fails, Possible, and_true, leads_each_error]
  exact ⟨fun h before a after heq hbefore e he => h e ⟨before, a, after, heq, hbefore, he⟩,
    fun h e ⟨before, a, after, heq, hbefore, he⟩ => h before a after heq hbefore e he⟩

/-- When all items can be worked off, what is said of all the results is said of each item. -/
theorem always_each {f : α → Draws ε β} {items : List α} {P : α → β → Prop} :
    (each f items).Always (List.Forall₂ P items) ↔
      ((∀ a ∈ items, (f a).Possible fun _ => True) → ∀ a ∈ items, (f a).Always (P a)) := by
  simp only [Always, leads_each_ok]
  constructor
  · intro h hpossible a ha b hb
    obtain ⟨before, after, rfl⟩ := List.append_of_mem ha
    obtain ⟨bs, hbs⟩ := exists_each_ok.mpr fun a' ha' =>
      (hpossible a' (List.mem_append_left _ ha')).imp fun _ h => h.1
    obtain ⟨cs, hcs⟩ := exists_each_ok.mpr fun a' ha' => (hpossible a'
      (List.mem_append_right _ (List.mem_cons_of_mem _ ha'))).imp fun _ h => h.1
    have hall := h (bs ++ b :: cs)
      (List.rel_append (leads_each_ok.mp hbs) (.cons hb (leads_each_ok.mp hcs)))
    have hlength := (leads_each_ok.mp hbs).length_eq
    rw [List.forall₂_iff_zip] at hall
    apply hall.2
    rw [List.zip_append hlength, List.zip_cons_cons]
    exact List.mem_append_right _ List.mem_cons_self
  · intro h results hresults
    have hpossible : ∀ a ∈ items, (f a).Possible fun _ => True := fun a ha =>
      (exists_each_ok.mp ⟨results, leads_each_ok.mpr hresults⟩ a ha).imp fun _ h => ⟨h, trivial⟩
    have halways := h hpossible
    clear h hpossible
    induction hresults with
    | nil => exact .nil
    | cons hb _ ih =>
        rw [List.forall_mem_cons] at halways
        exact .cons (halways.1 _ hb) (ih halways.2)

end Draws

end Pvllm
