import Pvllm.Core.Request

/-!
What the hash of a block says about its request.

With a hash function that is injective on its inputs, the hash at an index stands
for the contents of every block up to it, and the contents are read back from the
hashes. What is left is the packing of the extra keys: the adapter's name, the items
and the salt are put into one tuple without a mark of which is which. A name in front
of the items and a salt behind them can only be told apart by what stands between,
so a first block with a name and no salt and one with that salt and no name pack to
the same tuple when no item is in them. Further on there is no salt to take for a
name, and the parent chain carries what the first block said.
-/

namespace Pvllm

variable {H : Type}

/-! ### The extra keys as a packing -/

namespace Request

def adapter (request : Request H) : Option String := request.loraRequest.map (·.loraName)

/-- The salt, if it says anything: the empty string is no salt. -/
def salt (request : Request H) : Option String := request.cacheSalt.filter (· ≠ "")

/-- The items that overlap the tokens from `start` to `stop`, and how far from
`start` each of them begins. -/
def placement (request : Request H) (start stop : ℕ) : List (String × ℤ) :=
  (request.mmFeatures.filter fun feature =>
    feature.position < stop ∧ start < feature.position + feature.length).map fun feature =>
      (feature.identifier, (feature.position : ℤ) - start)

end Request

def ExtraKey.ofString (s : Option String) : List ExtraKey := (s.map ExtraKey.str).toList

def ExtraKey.ofItems (items : List (String × ℤ)) : List ExtraKey :=
  items.map fun item => ExtraKey.feature item.1 item.2

namespace ExtraKey

@[simp] theorem ofString_none : ofString none = [] := rfl

@[simp] theorem ofString_some (s : String) : ofString (some s) = [str s] := rfl

@[simp] theorem ofItems_nil : ofItems [] = [] := rfl

@[simp] theorem ofItems_cons (item : String × ℤ) (items : List (String × ℤ)) :
    ofItems (item :: items) = feature item.1 item.2 :: ofItems items := rfl

theorem ofString_inj {s t : Option String} : ofString s = ofString t ↔ s = t := by
  cases s <;> cases t <;> simp

theorem ofItems_append_inj {items items' : List (String × ℤ)} {s t : Option String} :
    ofItems items ++ ofString s = ofItems items' ++ ofString t ↔ items = items' ∧ s = t := by
  constructor
  · intro h
    induction items generalizing items' with
    | nil =>
        cases items' with
        | nil => exact ⟨rfl, ofString_inj.mp h⟩
        | cons item' items' => cases s <;> simp at h
    | cons item items ih =>
        cases items' with
        | nil => cases t <;> simp at h
        | cons item' items' =>
            simp only [ofItems_cons, List.cons_append, List.cons.injEq, feature.injEq] at h
            obtain ⟨⟨hname, hoffset⟩, hrest⟩ := h
            obtain ⟨rfl, rfl⟩ := ih hrest
            exact ⟨by rw [Prod.ext hname hoffset], rfl⟩
  · rintro ⟨rfl, rfl⟩
    rfl

theorem str_cons_eq {x : String} {rest : List ExtraKey} {items : List (String × ℤ)}
    {s : Option String} :
    str x :: rest = ofItems items ++ ofString s ↔ items = [] ∧ s = some x ∧ rest = [] := by
  constructor
  · intro h
    cases items with
    | nil =>
        cases s with
        | none => simp at h
        | some y =>
            simp only [ofItems_nil, List.nil_append, ofString_some, List.cons.injEq,
              str.injEq] at h
            exact ⟨rfl, by rw [h.1], h.2⟩
    | cons item items => simp at h
  · rintro ⟨rfl, rfl, rfl⟩
    rfl

/-- Two origins pack to the same tuple if they are the same, or if there is no item
and the name of the one is the salt of the other. -/
theorem pack_inj {name name' salt salt' : Option String} {items items' : List (String × ℤ)} :
    ofString name ++ ofItems items ++ ofString salt =
        ofString name' ++ ofItems items' ++ ofString salt' ↔
      (name = name' ∧ items = items' ∧ salt = salt') ∨
        (items = [] ∧ items' = [] ∧ name = salt' ∧ salt = name' ∧
          (name = none ↔ name' ≠ none)) := by
  simp only [List.append_assoc]
  cases name with
  | none =>
      cases name' with
      | none => simp [ofItems_append_inj]
      | some x =>
          simp only [ofString_none, List.nil_append, ofString_some, List.cons_append]
          rw [eq_comm, str_cons_eq, List.append_eq_nil_iff]
          cases items' <;> cases salt' <;> simp
  | some x =>
      cases name' with
      | none =>
          simp only [ofString_none, List.nil_append, ofString_some, List.cons_append]
          rw [str_cons_eq, List.append_eq_nil_iff]
          cases items <;> cases salt <;> simp
          tauto
      | some y => simp [ofItems_append_inj]

end ExtraKey

/-- A tuple of keys, which is no tuple when it is empty. -/
def packed (keys : List ExtraKey) : Option (List ExtraKey) :=
  if keys = [] then none else some keys

theorem packed_inj {keys keys' : List ExtraKey} : packed keys = packed keys' ↔ keys = keys' := by
  unfold packed
  split <;> split <;> simp_all [eq_comm]

theorem generateBlockHashExtraKeys_eq (request : Request H) (start stop : ℕ) :
    generateBlockHashExtraKeys request start stop =
      packed (ExtraKey.ofString request.adapter ++
        ExtraKey.ofItems (request.placement start stop) ++
          ExtraKey.ofString (if start = 0 then request.salt else none)) := by
  unfold generateBlockHashExtraKeys packed Request.adapter Request.salt Request.placement
    ExtraKey.ofString ExtraKey.ofItems
  cases request.loraRequest <;> cases hsalt : request.cacheSalt with
  | none => simp [Function.comp_def]
  | some salt =>
      by_cases hstart : start = 0 <;> by_cases hempty : salt = "" <;>
        simp [hstart, hempty, Option.filter, Function.comp_def]

/-! ### The chain -/

namespace BlockHasher

variable (hasher hasher' : BlockHasher H)

theorem hashBlockTokens_inj (hsame : hasher'.hashFn = hasher.hashFn)
    (hinjective : Function.Injective hasher.hashFn) {parent parent' : Option H}
    {content content' : BlockContent} :
    hasher.hashBlockTokens parent content = hasher'.hashBlockTokens parent' content' ↔
      parent.getD hasher.noneHash = parent'.getD hasher'.noneHash ∧ content = content' := by
  unfold hashBlockTokens
  rw [hsame, hinjective.eq_iff, HashInput.block.injEq, ← BlockContent.mk.injEq]

theorem noneHash_inj (hsame : hasher'.hashFn = hasher.hashFn)
    (hinjective : Function.Injective hasher.hashFn) :
    hasher.noneHash = hasher'.noneHash ↔ hasher.seed = hasher'.seed := by
  unfold noneHash
  rw [hsame, hinjective.eq_iff, HashInput.noneHash.injEq]

theorem chain_zero {contents : List BlockContent} (h : 0 < contents.length) :
    (hasher.chain none contents)[0]? = some (hasher.hashBlockTokens none contents[0]) := by
  rw [getElem?_chain, List.getElem?_eq_getElem h]
  rfl

theorem chain_succ {contents : List BlockContent} {i : ℕ} (h : i + 1 < contents.length) :
    ∃ parent, (hasher.chain none contents)[i]? = some parent ∧
      (hasher.chain none contents)[i + 1]? =
        some (hasher.hashBlockTokens (some parent) contents[i + 1]) := by
  have hi : i < (hasher.chain none contents).length := by
    rw [length_chain]
    omega
  refine ⟨_, List.getElem?_eq_getElem hi, ?_⟩
  rw [getElem?_chain, List.getElem?_eq_getElem h, parentOf, List.getElem?_eq_getElem hi]
  rfl

theorem chain_ne_noneHash (hsame : hasher'.hashFn = hasher.hashFn)
    (hinjective : Function.Injective hasher.hashFn) {contents : List BlockContent} {i : ℕ} {h : H}
    (hi : (hasher.chain none contents)[i]? = some h) : hasher'.noneHash ≠ h := by
  rw [getElem?_chain, Option.map_eq_some_iff] at hi
  obtain ⟨content, -, rfl⟩ := hi
  unfold noneHash hashBlockTokens
  rw [hsame]
  intro heq
  cases hinjective heq

/-- Equal hashes stand at the same index, over the same blocks and the same
sentinel. -/
theorem chain_inj (hsame : hasher'.hashFn = hasher.hashFn)
    (hinjective : Function.Injective hasher.hashFn) {contents contents' : List BlockContent}
    {i i' : ℕ} (hi : i < contents.length) (hi' : i' < contents'.length) :
    (hasher.chain none contents)[i]? = (hasher'.chain none contents')[i']? ↔
      hasher.seed = hasher'.seed ∧ i = i' ∧
        contents.take (i + 1) = contents'.take (i' + 1) := by
  have hinjective' : Function.Injective hasher'.hashFn := by rwa [hsame]
  induction i generalizing i' with
  | zero =>
      rw [hasher.chain_zero hi]
      cases i' with
      | zero =>
          rw [hasher'.chain_zero hi', Option.some.injEq,
            hasher.hashBlockTokens_inj hasher' hsame hinjective, Option.getD_none,
            Option.getD_none, hasher.noneHash_inj hasher' hsame hinjective,
            List.take_succ_eq_append_getElem hi, List.take_succ_eq_append_getElem hi']
          simp
      | succ i' =>
          obtain ⟨parent', hparent', hself'⟩ := hasher'.chain_succ hi'
          rw [hself', Option.some.injEq, hasher.hashBlockTokens_inj hasher' hsame hinjective]
          refine iff_of_false (fun h => ?_) (fun h => by omega)
          exact hasher'.chain_ne_noneHash hasher hsame.symm hinjective' hparent' h.1
  | succ i ih =>
      obtain ⟨parent, hparent, hself⟩ := hasher.chain_succ hi
      cases i' with
      | zero =>
          rw [hself, hasher'.chain_zero hi', Option.some.injEq,
            hasher.hashBlockTokens_inj hasher' hsame hinjective]
          refine iff_of_false (fun h => ?_) (fun h => by omega)
          exact hasher.chain_ne_noneHash hasher' hsame hinjective hparent h.1.symm
      | succ i' =>
          obtain ⟨parent', hparent', hself'⟩ := hasher'.chain_succ hi'
          have hprefix := ih (by omega) (by omega : i' < contents'.length)
          rw [hparent, hparent', Option.some.injEq] at hprefix
          rw [hself, hself', Option.some.injEq,
            hasher.hashBlockTokens_inj hasher' hsame hinjective, Option.getD_some,
            Option.getD_some, and_congr hprefix Iff.rfl, List.take_succ_eq_append_getElem hi,
            List.take_succ_eq_append_getElem hi', List.append_singleton_inj, and_assoc, and_assoc,
            Nat.add_right_cancel_iff]

end BlockHasher

/-! ### The hashes of a request -/

namespace Request

def blocks (request : Request H) (blockSize : ℕ) : List BlockContent :=
  (List.range (request.numTokens / blockSize)).map (request.blockContent blockSize)

@[simp] theorem length_blocks (request : Request H) (blockSize : ℕ) :
    (request.blocks blockSize).length = request.numTokens / blockSize := by
  simp [blocks]

/-- The hashes of a request under a policy are the chain over its full blocks. -/
structure Hashed (hasher : BlockHasher H) (request : Request H) : Prop where
  blockHasher : request.blockHasher = some hasher
  blockHashes : request.blockHashes = hasher.chain none (request.blocks hasher.blockSize)

namespace Hashed

variable {hasher : BlockHasher H} {request : Request H}

theorem length (h : Hashed hasher request) :
    request.blockHashes.length = request.numTokens / hasher.blockSize := by
  rw [h.blockHashes, hasher.length_chain, length_blocks]

/-- Hashing on from the first blocks gives the hashes of the whole. -/
theorem updateBlockHashes (full : ℕ) (hhasher : request.blockHasher = some hasher)
    (hle : full ≤ request.numTokens / hasher.blockSize)
    (hold : request.blockHashes = hasher.chain none
      ((List.range full).map (request.blockContent hasher.blockSize))) :
    Hashed hasher request.updateBlockHashes := by
  have heq : request.updateBlockHashes =
      { request with blockHashes := request.blockHashes ++ hasher.requestBlockHasher request } := by
    unfold Request.updateBlockHashes
    rw [hhasher]
  rw [heq]
  refine ⟨hhasher, ?_⟩
  show request.blockHashes ++ hasher.requestBlockHasher request =
    hasher.chain none (request.blocks hasher.blockSize)
  have hsplit : request.blocks hasher.blockSize =
      (List.range full).map (request.blockContent hasher.blockSize) ++
        (List.range' full (request.numTokens / hasher.blockSize - full)).map
          (request.blockContent hasher.blockSize) := by
    have hrange := List.range'_append_1 (s := 0) (m := full)
      (n := request.numTokens / hasher.blockSize - full)
    rw [Nat.zero_add, Nat.add_sub_cancel' hle] at hrange
    unfold Request.blocks
    rw [← List.map_append, List.range_eq_range', List.range_eq_range', hrange]
  have hlength : request.blockHashes.length = full := by
    rw [hold, hasher.length_chain, List.length_map, List.length_range]
  rw [hsplit, hasher.chain_append, ← hold, Option.or_none]
  unfold BlockHasher.requestBlockHasher
  rw [hlength]

/-- Binding the policy hashes whatever is there. -/
theorem attachBlockHasher (h : request.blockHashes = []) :
    Hashed hasher (request.attachBlockHasher hasher) :=
  updateBlockHashes 0 rfl (Nat.zero_le _) h

theorem blockContent_append (request : Request H) (tokenId : TokenId) {blockSize i : ℕ}
    (h : (i + 1) * blockSize ≤ request.numTokens) :
    { request with outputTokenIds := request.outputTokenIds ++ [tokenId] }.blockContent
      blockSize i = request.blockContent blockSize i := by
  have htokens : ((request.allTokenIds ++ [tokenId]).drop (i * blockSize)).take blockSize =
      (request.allTokenIds.drop (i * blockSize)).take blockSize := by
    have hlength : (i + 1) * blockSize ≤ request.allTokenIds.length := h
    rw [Nat.succ_mul] at hlength
    rw [List.drop_append_of_le_length (by omega),
      List.take_append_of_le_length (by rw [List.length_drop]; omega)]
  unfold Request.blockContent
  rw [← htokens]
  unfold Request.allTokenIds
  simp only [List.append_assoc]
  rfl

/-- A sampled token extends the hashes. -/
theorem appendOutputTokenIds (h : Hashed hasher request) (tokenId : TokenId) :
    Hashed hasher (request.appendOutputTokenIds tokenId) := by
  have hgrow : ({ request with
      outputTokenIds := request.outputTokenIds ++ [tokenId] } : Request H).numTokens =
        request.numTokens + 1 := by
    simp [numTokens, allTokenIds, Nat.add_assoc]
  refine updateBlockHashes (request.numTokens / hasher.blockSize) h.blockHasher ?_ ?_
  · rw [hgrow]
    exact Nat.div_le_div_right (Nat.le_succ _)
  · show request.blockHashes = _
    rw [h.blockHashes]
    unfold Request.blocks
    congr 1
    apply List.map_congr_left
    intro i hi
    rw [List.mem_range, Nat.lt_iff_add_one_le, Nat.le_div_iff_mul_le hasher.blockSize_pos] at hi
    exact (blockContent_append request tokenId hi).symm

end Hashed

/-! ### What equal hashes say -/

variable {a b : Request H} {blockSize i : ℕ}

/-- Two requests that nothing tells apart up to the end of block `i`: the same
tokens, adapter and salt, and in every block the same items at the same places, which
are then the same items before the end of `i` (`AgreeTo.itemsBefore_eq`). -/
structure AgreeTo (blockSize i : ℕ) (a b : Request H) : Prop where
  tokens : a.allTokenIds.take ((i + 1) * blockSize) = b.allTokenIds.take ((i + 1) * blockSize)
  adapter : a.adapter = b.adapter
  salt : a.cacheSalt = b.cacheSalt
  items : ∀ j ≤ i, a.placement (j * blockSize) (j * blockSize + blockSize) =
    b.placement (j * blockSize) (j * blockSize + blockSize)

/-- The name of the one's adapter is the salt of the other, and they have no other
name or salt. -/
def PassesFor (a b : Request H) : Prop :=
  a.adapter ≠ none ∧ a.salt = none ∧ b.adapter = none ∧ b.salt = a.adapter

/-- Two requests of the same tokens and items up to the end of block `i` that the
hasher does not tell apart, although their adapters or salts differ: an empty salt is
read as none, and a first block without items packs a name like a salt. -/
structure Confused (blockSize i : ℕ) (a b : Request H) : Prop where
  tokens : a.allTokenIds.take ((i + 1) * blockSize) = b.allTokenIds.take ((i + 1) * blockSize)
  items : ∀ j ≤ i, a.placement (j * blockSize) (j * blockSize + blockSize) =
    b.placement (j * blockSize) (j * blockSize + blockSize)
  origins : (a.adapter = b.adapter ∧ a.cacheSalt ≠ b.cacheSalt ∧ a.salt = b.salt) ∨
    (i = 0 ∧ a.placement 0 blockSize = [] ∧ (a.PassesFor b ∨ b.PassesFor a))

theorem PassesFor.ne (h : a.PassesFor b) : a.adapter ≠ b.adapter := by
  rw [h.2.2.1]
  exact h.1

theorem salt_eq_of_cacheSalt_eq (h : a.cacheSalt = b.cacheSalt) : a.salt = b.salt := by
  unfold salt
  rw [h]

/-- The items that begin before `stop`, with their places. -/
def itemsBefore (request : Request H) (stop : ℕ) : List (String × ℤ) :=
  (request.mmFeatures.filter fun feature => feature.position < stop).map fun feature =>
    (feature.identifier, (feature.position : ℤ))

theorem filter_before_append {features : List MultiModalFeatureSpec} {start stop : ℕ}
    (hle : start ≤ stop) (hordered : features.Pairwise (·.position ≤ ·.position)) :
    features.filter (fun feature => feature.position < stop) =
      features.filter (fun feature => feature.position < start) ++
        features.filter fun feature => start ≤ feature.position ∧ feature.position < stop := by
  induction features with
  | nil => rfl
  | cons feature features ih =>
      obtain ⟨hfirst, hrest⟩ := List.pairwise_cons.mp hordered
      by_cases hbefore : feature.position < start
      · simp [hbefore, Nat.lt_of_lt_of_le hbefore hle, Nat.not_le.mpr hbefore, ih hrest]
      · have hnone : features.filter (fun feature => feature.position < start) = [] := by
          rw [List.filter_eq_nil_iff]
          intro other hother
          have hle := hfirst other hother
          simp only [decide_eq_true_eq]
          omega
        have hsame := ih hrest
        rw [hnone, List.nil_append] at hsame
        simp [hbefore, Nat.not_lt.mp hbefore, List.filter_cons, hnone, hsame]

/-- Where the items are listed by their places, those that begin before the end of a
block are those that begin before the block and those that begin in it. -/
theorem itemsBefore_split {start stop : ℕ} (hle : start ≤ stop)
    (hordered : a.mmFeatures.Pairwise (·.position ≤ ·.position))
    (hlength : ∀ feature ∈ a.mmFeatures, 0 < feature.length) :
    a.itemsBefore stop = a.itemsBefore start ++
      ((a.placement start stop).filter fun item => 0 ≤ item.2).map fun item =>
        (item.1, item.2 + (start : ℤ)) := by
  unfold itemsBefore placement
  rw [filter_before_append hle hordered, List.map_append, List.filter_map, List.map_map,
    List.filter_filter]
  congr 1
  have hsame : ∀ feature ∈ a.mmFeatures,
      decide (start ≤ feature.position ∧ feature.position < stop) =
        (((fun item : String × ℤ => decide (0 ≤ item.2)) ∘ fun feature : MultiModalFeatureSpec =>
          (feature.identifier, (feature.position : ℤ) - start)) feature &&
          decide (feature.position < stop ∧ start < feature.position + feature.length)) := by
    intro feature hfeature
    have hpos := hlength feature hfeature
    rw [Bool.eq_iff_iff]
    simp only [Function.comp_apply, Bool.and_eq_true, decide_eq_true_eq]
    omega
  rw [List.filter_congr hsame]
  apply List.map_congr_left
  intro feature _
  simp

/-- Two requests that agree up to the end of `i`, and whose items are listed by their
places, have the same items at the same places before there. -/
theorem AgreeTo.itemsBefore_eq (h : AgreeTo blockSize i a b)
    (hordered : a.mmFeatures.Pairwise (·.position ≤ ·.position))
    (hordered' : b.mmFeatures.Pairwise (·.position ≤ ·.position))
    (hlength : ∀ feature ∈ a.mmFeatures, 0 < feature.length)
    (hlength' : ∀ feature ∈ b.mmFeatures, 0 < feature.length) :
    a.itemsBefore ((i + 1) * blockSize) = b.itemsBefore ((i + 1) * blockSize) := by
  have hstep : ∀ j ≤ i, a.itemsBefore (j * blockSize) = b.itemsBefore (j * blockSize) →
      a.itemsBefore ((j + 1) * blockSize) = b.itemsBefore ((j + 1) * blockSize) := by
    intro j hj hbefore
    rw [Nat.succ_mul, itemsBefore_split (Nat.le_add_right ..) hordered hlength,
      itemsBefore_split (Nat.le_add_right ..) hordered' hlength', hbefore, h.items j hj]
  have hall : ∀ j ≤ i + 1, a.itemsBefore (j * blockSize) = b.itemsBefore (j * blockSize) := by
    intro j hj
    induction j with
    | zero => simp [itemsBefore]
    | succ j ih => exact hstep j (by omega) (ih (by omega))
  exact hall (i + 1) (Nat.le_refl _)

/-- The tokens of the blocks up to `i` are the tokens up to the end of `i`. -/
theorem tokens_agree_iff (l l' : List TokenId) :
    l.take ((i + 1) * blockSize) = l'.take ((i + 1) * blockSize) ↔
      ∀ j ≤ i, (l.drop (j * blockSize)).take blockSize =
        (l'.drop (j * blockSize)).take blockSize := by
  constructor
  · intro h j hj
    have hcut : ∀ l : List TokenId, (l.drop (j * blockSize)).take blockSize =
        ((l.take ((i + 1) * blockSize)).drop (j * blockSize)).take blockSize := by
      intro l
      have hle : (j + 1) * blockSize ≤ (i + 1) * blockSize :=
        Nat.mul_le_mul_right _ (Nat.succ_le_succ hj)
      rw [Nat.succ_mul] at hle
      rw [List.drop_take, List.take_take, Nat.min_eq_left (by omega)]
    rw [hcut l, hcut l', h]
  · intro h
    induction i with
    | zero => simpa using h 0 (Nat.le_refl _)
    | succ i ih =>
        rw [Nat.succ_mul, List.take_add, List.take_add, h (i + 1) (Nat.le_refl _),
          ih fun j hj => h j (Nat.le_succ_of_le hj)]

theorem extraKeys_inj {start stop : ℕ} :
    generateBlockHashExtraKeys a start stop = generateBlockHashExtraKeys b start stop ↔
      (a.adapter = b.adapter ∧ a.placement start stop = b.placement start stop ∧
        (start = 0 → a.salt = b.salt)) ∨
      (start = 0 ∧ a.placement start stop = [] ∧ b.placement start stop = [] ∧
        (a.PassesFor b ∨ b.PassesFor a)) := by
  rw [generateBlockHashExtraKeys_eq, generateBlockHashExtraKeys_eq, packed_inj, ExtraKey.pack_inj]
  unfold PassesFor
  by_cases hstart : start = 0
  · simp only [hstart, if_true, true_and, forall_const]
    refine or_congr_right (and_congr_right fun _ => and_congr_right fun _ => ?_)
    cases a.adapter <;> cases b.adapter <;> simp [eq_comm, and_comm]
  · simp only [hstart, if_false, false_and, or_false, and_true, false_implies]
    refine or_iff_left ?_
    rintro ⟨-, -, hname, hname', hiff⟩
    rw [hname, ← hname'] at hiff
    simp at hiff

theorem take_blocks_eq_iff {blockSize' : ℕ} (ha : i < a.numTokens / blockSize)
    (hb : i < b.numTokens / blockSize') :
    (a.blocks blockSize).take (i + 1) = (b.blocks blockSize').take (i + 1) ↔
      ∀ j ≤ i, a.blockContent blockSize j = b.blockContent blockSize' j := by
  unfold blocks
  rw [← List.map_take, ← List.map_take, List.take_range, List.take_range,
    Nat.min_eq_left (Nat.succ_le_of_lt ha), Nat.min_eq_left (Nat.succ_le_of_lt hb),
    List.map_inj_left]
  simp only [List.mem_range, Nat.lt_succ_iff]

/-- Under one hash function, hashes are equal at equal indices and over one sentinel
only, and there if the blocks up to the index are of the same content. -/
theorem blockHashes_inj {hasher hasher' : BlockHasher H} {i' : ℕ}
    (hsame : hasher'.hashFn = hasher.hashFn) (hinjective : Function.Injective hasher.hashFn)
    (ha : Hashed hasher a) (hb : Hashed hasher' b)
    (hi : i < a.blockHashes.length) (hi' : i' < b.blockHashes.length) :
    a.blockHashes[i]? = b.blockHashes[i']? ↔ hasher.seed = hasher'.seed ∧ i = i' ∧
      ∀ j ≤ i, a.blockContent hasher.blockSize j = b.blockContent hasher'.blockSize j := by
  rw [ha.length] at hi
  rw [hb.length] at hi'
  rw [ha.blockHashes, hb.blockHashes, hasher.chain_inj hasher' hsame hinjective
    (by rwa [length_blocks]) (by rwa [length_blocks])]
  refine and_congr_right fun _ => and_congr_right fun heq => ?_
  subst heq
  exact take_blocks_eq_iff hi hi'

/-- What equal contents of the blocks up to `i` say about two requests. -/
theorem blockContents_agree_iff (hpos : 0 < blockSize) :
    (∀ j ≤ i, a.blockContent blockSize j = b.blockContent blockSize j) ↔
      AgreeTo blockSize i a b ∨ Confused blockSize i a b := by
  have hblock : ∀ j, a.blockContent blockSize j = b.blockContent blockSize j ↔
      (a.allTokenIds.drop (j * blockSize)).take blockSize =
          (b.allTokenIds.drop (j * blockSize)).take blockSize ∧
        generateBlockHashExtraKeys a (j * blockSize) (j * blockSize + blockSize) =
          generateBlockHashExtraKeys b (j * blockSize) (j * blockSize + blockSize) := by
    intro j
    unfold blockContent
    rw [BlockContent.mk.injEq]
  have hstart : ∀ j, j * blockSize = 0 ↔ j = 0 := fun j => by
    rw [Nat.mul_eq_zero]
    omega
  simp only [hblock, extraKeys_inj, hstart]
  constructor
  · intro h
    have htokens : a.allTokenIds.take ((i + 1) * blockSize) =
        b.allTokenIds.take ((i + 1) * blockSize) :=
      (tokens_agree_iff _ _).mpr fun j hj => (h j hj).1
    have hitems : ∀ j ≤ i, a.placement (j * blockSize) (j * blockSize + blockSize) =
        b.placement (j * blockSize) (j * blockSize + blockSize) := by
      intro j hj
      rcases (h j hj).2 with ⟨-, heq, -⟩ | ⟨-, hnil, hnil', -⟩
      · exact heq
      · rw [hnil, hnil']
    rcases (h 0 (Nat.zero_le _)).2 with ⟨hadapter, -, hsalt⟩ | ⟨-, hnil, -, hpasses⟩
    · by_cases hcacheSalt : a.cacheSalt = b.cacheSalt
      · exact .inl ⟨htokens, hadapter, hcacheSalt, hitems⟩
      · exact .inr ⟨htokens, hitems, .inl ⟨hadapter, hcacheSalt, hsalt rfl⟩⟩
    · rcases Nat.eq_zero_or_pos i with rfl | hi
      · rw [Nat.zero_mul, Nat.zero_add] at hnil
        exact .inr ⟨htokens, hitems, .inr ⟨rfl, hnil, hpasses⟩⟩
      · -- A second block says which of the two is the adapter.
        rcases (h 1 hi).2 with ⟨hadapter, -, -⟩ | ⟨hzero, -, -, -⟩
        · rcases hpasses with hpasses | hpasses
          · exact absurd hadapter hpasses.ne
          · exact absurd hadapter.symm hpasses.ne
        · exact absurd hzero Nat.one_ne_zero
  · intro h j hj
    rcases h with ⟨htokens, hadapter, hsalt, hitems⟩ | ⟨htokens, hitems, horigins⟩
    · exact ⟨(tokens_agree_iff _ _).mp htokens j hj,
        .inl ⟨hadapter, hitems j hj, fun _ => salt_eq_of_cacheSalt_eq hsalt⟩⟩
    · refine ⟨(tokens_agree_iff _ _).mp htokens j hj, ?_⟩
      rcases horigins with ⟨hadapter, -, hsalt⟩ | ⟨rfl, hnil, hpasses⟩
      · exact .inl ⟨hadapter, hitems j hj, fun _ => hsalt⟩
      · obtain rfl : j = 0 := by omega
        have hitem := hitems 0 hj
        rw [Nat.zero_mul, Nat.zero_add] at hitem ⊢
        exact .inr ⟨rfl, hnil, by rw [← hitem, hnil], hpasses⟩

theorem AgreeTo.not_confused (h : AgreeTo blockSize i a b) : ¬ Confused blockSize i a b := by
  rintro ⟨-, -, ⟨-, hsalt, -⟩ | ⟨-, -, hpasses | hpasses⟩⟩
  · exact hsalt h.salt
  · exact hpasses.ne h.adapter
  · exact hpasses.ne h.adapter.symm

/-- The hashes at `i` say that nothing tells the two requests apart up to there, if
and only if the hasher does not confuse them. -/
theorem blockHashes_agree_iff {hasher : BlockHasher H}
    (hinjective : Function.Injective hasher.hashFn) (ha : Hashed hasher a) (hb : Hashed hasher b)
    (hi : i < a.blockHashes.length) (hi' : i < b.blockHashes.length) :
    (a.blockHashes[i]? = b.blockHashes[i]? ↔ AgreeTo hasher.blockSize i a b) ↔
      ¬ Confused hasher.blockSize i a b := by
  rw [blockHashes_inj rfl hinjective ha hb hi hi', blockContents_agree_iff hasher.blockSize_pos]
  constructor
  · intro h hconfused
    exact (h.mp ⟨rfl, rfl, .inr hconfused⟩).not_confused hconfused
  · intro hnot
    exact ⟨fun h => h.2.2.resolve_right hnot, fun h => ⟨rfl, rfl, .inl h⟩⟩

end Request

end Pvllm
