import Mathlib.Data.List.Basic
import Mathlib.Algebra.BigOperators.Group.List.Basic
import Mathlib.Tactic.Abel

/-!
Insertion-ordered dictionaries.

A dictionary is the list of its entries in the order their keys were first
inserted, each key once. Storing under a present key replaces the value where
it stands, storing under a new key appends, and deleting keeps the order of
the rest. That each key occurs once is a field, so it is never re-proved by a
user. Reading is `find`; the lemmas below reduce reads of an updated
dictionary to reads of the old one, and `total` sums a quantity over the
entries in the way an accounting invariant needs it.
-/

namespace Pvllm

/-- Entries in insertion order, one for each key. -/
structure Dict (κ ν : Type*) where
  items : List (κ × ν)
  nodup_keys : (items.map Prod.fst).Nodup

namespace Dict

variable {κ ν : Type*}

def empty : Dict κ ν := ⟨[], List.nodup_nil⟩

def keys (d : Dict κ ν) : List κ := d.items.map Prod.fst

theorem keys_nodup (d : Dict κ ν) : d.keys.Nodup := d.nodup_keys

@[simp] theorem keys_empty : (empty : Dict κ ν).keys = [] := rfl

variable [DecidableEq κ]

/-! ### Entry lists -/

/-- The value stored under `k` in an entry list. -/
def findIn (k : κ) : List (κ × ν) → Option ν
  | [] => none
  | (k', v) :: rest => if k' = k then some v else findIn k rest

/-- Store `v` under `k`: in place when present, at the end when new. -/
def storeIn (k : κ) (v : ν) : List (κ × ν) → List (κ × ν)
  | [] => [(k, v)]
  | (k', v') :: rest => if k' = k then (k, v) :: rest else (k', v') :: storeIn k v rest

/-- Delete the entry under `k`. -/
def deleteIn (k : κ) : List (κ × ν) → List (κ × ν)
  | [] => []
  | (k', v') :: rest => if k' = k then rest else (k', v') :: deleteIn k rest

theorem keys_storeIn (k : κ) (v : ν) (l : List (κ × ν)) :
    (storeIn k v l).map Prod.fst =
      if k ∈ l.map Prod.fst then l.map Prod.fst else l.map Prod.fst ++ [k] := by
  induction l with
  | nil => simp [storeIn]
  | cons entry rest ih =>
      obtain ⟨k', v'⟩ := entry
      by_cases h : k' = k
      · simp [storeIn, h]
      · have h' : k ≠ k' := fun e => h e.symm
        simp only [storeIn, h, if_false, List.map_cons, ih, List.mem_cons, h', false_or]
        split <;> simp

theorem keys_deleteIn (k : κ) (l : List (κ × ν)) :
    (deleteIn k l).map Prod.fst = (l.map Prod.fst).erase k := by
  induction l with
  | nil => rfl
  | cons entry rest ih =>
      obtain ⟨k', v'⟩ := entry
      by_cases h : k' = k
      · simp [deleteIn, h]
      · simp [deleteIn, h, ih, List.erase_cons_tail]

theorem findIn_storeIn (k k' : κ) (v : ν) (l : List (κ × ν)) :
    findIn k' (storeIn k v l) = if k' = k then some v else findIn k' l := by
  induction l with
  | nil => simp [storeIn, findIn, eq_comm]
  | cons entry rest ih =>
      obtain ⟨k₀, v₀⟩ := entry
      by_cases h : k₀ = k
      · subst h
        simp only [storeIn, if_true, findIn]
        by_cases h' : k₀ = k'
        · simp [h']
        · simp [h', Ne.symm h']
      · simp only [storeIn, h, if_false, findIn, ih]
        by_cases h' : k₀ = k'
        · subst h'
          simp [h]
        · simp [h']

theorem findIn_eq_none_iff (k : κ) (l : List (κ × ν)) :
    findIn k l = none ↔ k ∉ l.map Prod.fst := by
  induction l with
  | nil => simp [findIn]
  | cons entry rest ih =>
      obtain ⟨k₀, v₀⟩ := entry
      by_cases h : k₀ = k
      · simp [findIn, h]
      · have h' : k ≠ k₀ := fun e => h e.symm
        simp [findIn, h, ih, h']

theorem findIn_deleteIn (k k' : κ) (l : List (κ × ν)) (hl : (l.map Prod.fst).Nodup) :
    findIn k' (deleteIn k l) = if k' = k then none else findIn k' l := by
  induction l with
  | nil => simp [deleteIn, findIn]
  | cons entry rest ih =>
      obtain ⟨k₀, v₀⟩ := entry
      rw [List.map_cons, List.nodup_cons] at hl
      by_cases h : k₀ = k
      · subst h
        simp only [deleteIn, if_true, findIn]
        by_cases h' : k' = k₀
        · subst h'
          simpa using (findIn_eq_none_iff k' rest).mpr hl.1
        · simp [h', Ne.symm h']
      · simp only [deleteIn, h, if_false, findIn, ih hl.2]
        by_cases h' : k₀ = k'
        · subst h'
          simp [h]
        · simp [h']

theorem mem_of_findIn {k : κ} {v : ν} {l : List (κ × ν)} (h : findIn k l = some v) :
    (k, v) ∈ l := by
  induction l with
  | nil => simp [findIn] at h
  | cons entry rest ih =>
      obtain ⟨k₀, v₀⟩ := entry
      by_cases hk : k₀ = k
      · simp only [findIn, hk, if_true, Option.some.injEq] at h
        simp [hk, h]
      · simp only [findIn, hk, if_false] at h
        exact List.mem_cons_of_mem _ (ih h)

theorem findIn_of_mem {k : κ} {v : ν} {l : List (κ × ν)} (hl : (l.map Prod.fst).Nodup)
    (h : (k, v) ∈ l) : findIn k l = some v := by
  induction l with
  | nil => simp at h
  | cons entry rest ih =>
      obtain ⟨k₀, v₀⟩ := entry
      rw [List.map_cons, List.nodup_cons] at hl
      rcases List.mem_cons.mp h with he | hm
      · injection he with h1 h2
        simp [findIn, h1, h2]
      · have hne : k₀ ≠ k := by
          rintro rfl
          exact hl.1 (List.mem_map.mpr ⟨(k₀, v), hm, rfl⟩)
        simp [findIn, hne, ih hl.2 hm]

/-! ### Dictionaries -/

/-- The value under `k`, if there is one. -/
def find (d : Dict κ ν) (k : κ) : Option ν := findIn k d.items

/-- The value under `k`, or a default. -/
def findD (d : Dict κ ν) (k : κ) (default : ν) : ν := (d.find k).getD default

/-- Store `v` under `k`. -/
def store (d : Dict κ ν) (k : κ) (v : ν) : Dict κ ν where
  items := storeIn k v d.items
  nodup_keys := by
    rw [keys_storeIn]
    split
    · exact d.nodup_keys
    · rename_i h
      exact List.nodup_append.mpr ⟨d.nodup_keys, by simp, fun a ha b hb => by
        rw [List.mem_singleton.mp hb]
        exact fun e => h (e ▸ ha)⟩

/-- Delete the entry under `k`, if there is one. -/
def delete (d : Dict κ ν) (k : κ) : Dict κ ν where
  items := deleteIn k d.items
  nodup_keys := by
    rw [keys_deleteIn]
    exact d.nodup_keys.erase k

/-- The key has an entry. -/
def Contains (d : Dict κ ν) (k : κ) : Prop := k ∈ d.keys

instance (d : Dict κ ν) (k : κ) : Decidable (d.Contains k) :=
  inferInstanceAs (Decidable (k ∈ d.keys))

@[simp] theorem find_empty (k : κ) : (empty : Dict κ ν).find k = none := rfl

@[simp] theorem findD_empty (k : κ) (v : ν) : (empty : Dict κ ν).findD k v = v := rfl

theorem find_store (d : Dict κ ν) (k k' : κ) (v : ν) :
    (d.store k v).find k' = if k' = k then some v else d.find k' :=
  findIn_storeIn k k' v d.items

@[simp] theorem find_store_self (d : Dict κ ν) (k : κ) (v : ν) :
    (d.store k v).find k = some v := by
  rw [find_store, if_pos rfl]

theorem find_store_of_ne (d : Dict κ ν) {k k' : κ} (v : ν) (h : k' ≠ k) :
    (d.store k v).find k' = d.find k' := by
  rw [find_store, if_neg h]

theorem find_delete (d : Dict κ ν) (k k' : κ) :
    (d.delete k).find k' = if k' = k then none else d.find k' :=
  findIn_deleteIn k k' d.items d.nodup_keys

theorem find_of_find_delete {d : Dict κ ν} {k k' : κ} {v : ν}
    (h : (d.delete k).find k' = some v) : d.find k' = some v := by
  rw [find_delete] at h
  split at h
  · cases h
  · exact h

@[simp] theorem findD_store (d : Dict κ ν) (k k' : κ) (v w : ν) :
    (d.store k v).findD k' w = if k' = k then v else d.findD k' w := by
  unfold findD
  rw [find_store]
  split <;> rfl

@[simp] theorem findD_delete (d : Dict κ ν) (k k' : κ) (w : ν) :
    (d.delete k).findD k' w = if k' = k then w else d.findD k' w := by
  unfold findD
  rw [find_delete]
  split <;> rfl

theorem find_eq_none_iff (d : Dict κ ν) (k : κ) : d.find k = none ↔ k ∉ d.keys :=
  findIn_eq_none_iff k d.items

theorem findD_of_not_mem {d : Dict κ ν} {k : κ} (h : k ∉ d.keys) (v : ν) : d.findD k v = v := by
  rw [findD, (find_eq_none_iff d k).mpr h, Option.getD_none]

theorem mem_keys_iff (d : Dict κ ν) (k : κ) : k ∈ d.keys ↔ ∃ v, d.find k = some v := by
  rw [← not_iff_not, ← find_eq_none_iff, Option.eq_none_iff_forall_ne_some]
  simp

theorem find_eq_some_iff (d : Dict κ ν) (k : κ) (v : ν) :
    d.find k = some v ↔ (k, v) ∈ d.items :=
  ⟨mem_of_findIn, findIn_of_mem d.nodup_keys⟩

theorem mem_keys_store (d : Dict κ ν) (k k' : κ) (v : ν) :
    k' ∈ (d.store k v).keys ↔ k' = k ∨ k' ∈ d.keys := by
  rw [mem_keys_iff, find_store, mem_keys_iff]
  by_cases h : k' = k <;> simp [h]

theorem mem_keys_delete (d : Dict κ ν) (k k' : κ) :
    k' ∈ (d.delete k).keys ↔ k' ≠ k ∧ k' ∈ d.keys := by
  rw [mem_keys_iff, find_delete, mem_keys_iff]
  by_cases h : k' = k <;> simp [h]

/-- Deleting keys, one after the other: none of them is left. -/
theorem find_foldl_delete (keys : List κ) (d : Dict κ ν) (k : κ) :
    (keys.foldl delete d).find k = if k ∈ keys then none else d.find k := by
  induction keys generalizing d with
  | nil => rfl
  | cons k₀ keys ih =>
      rw [List.foldl_cons, ih, find_delete]
      by_cases h : k = k₀ <;> simp [h]

/-- Appending to the list under a key adds to what the lists hold together. -/
theorem perm_flatMap_store {α : Type*} (d : Dict κ (List α)) (k : κ) (l : List α) :
    ((d.store k (d.findD k [] ++ l)).items.flatMap Prod.snd).Perm
      (d.items.flatMap Prod.snd ++ l) := by
  show ((storeIn k ((findIn k d.items).getD [] ++ l) d.items).flatMap Prod.snd).Perm _
  induction d.items with
  | nil => simp [storeIn, findIn]
  | cons entry rest ih =>
      obtain ⟨k₀, v₀⟩ := entry
      by_cases h : k₀ = k
      · simp only [storeIn, findIn, h, if_true, Option.getD_some, List.flatMap_cons]
        rw [List.append_assoc, List.append_assoc]
        exact (List.perm_append_comm).append_left v₀
      · simp only [storeIn, findIn, h, if_false, List.flatMap_cons]
        rw [List.append_assoc]
        exact ih.append_left v₀

theorem storeIn_of_not_mem {k : κ} {l : List (κ × ν)} (h : k ∉ l.map Prod.fst) (v : ν) :
    storeIn k v l = l ++ [(k, v)] := by
  induction l with
  | nil => rfl
  | cons entry rest ih =>
      obtain ⟨k₀, v₀⟩ := entry
      rw [List.map_cons, List.mem_cons, not_or] at h
      rw [storeIn, if_neg (Ne.symm h.1), ih h.2]
      rfl

theorem items_store_of_not_mem {d : Dict κ ν} {k : κ} (h : k ∉ d.keys) (v : ν) :
    (d.store k v).items = d.items ++ [(k, v)] :=
  storeIn_of_not_mem h v

/-- Storing entries with distinct keys, one after the other: each key reads its entry. -/
theorem find_foldl_store {entries : List (κ × ν)} (hnodup : (entries.map Prod.fst).Nodup)
    (d : Dict κ ν) (k : κ) :
    (entries.foldl (fun d entry => d.store entry.1 entry.2) d).find k =
      (findIn k entries).or (d.find k) := by
  induction entries generalizing d with
  | nil => rfl
  | cons entry entries ih =>
      obtain ⟨k₀, v₀⟩ := entry
      rw [List.map_cons, List.nodup_cons] at hnodup
      rw [List.foldl_cons, ih hnodup.2, find_store]
      by_cases h : k₀ = k
      · subst h
        simp [findIn, (findIn_eq_none_iff k₀ entries).mpr hnodup.1]
      · simp [findIn, h, Ne.symm h]

theorem deleteIn_of_not_mem {k : κ} {l : List (κ × ν)} (h : k ∉ l.map Prod.fst) :
    deleteIn k l = l := by
  induction l with
  | nil => rfl
  | cons entry rest ih =>
      obtain ⟨k₀, v₀⟩ := entry
      rw [List.map_cons, List.mem_cons, not_or] at h
      rw [deleteIn, if_neg (Ne.symm h.1), ih h.2]

theorem delete_of_not_mem {d : Dict κ ν} {k : κ} (h : k ∉ d.keys) : d.delete k = d := by
  obtain ⟨items, hitems⟩ := d
  simp only [delete, mk.injEq]
  exact deleteIn_of_not_mem h

@[simp] theorem delete_delete (d : Dict κ ν) (k : κ) : (d.delete k).delete k = d.delete k :=
  delete_of_not_mem fun h => ((mem_keys_delete d k k).mp h).1 rfl

/-! ### Sums over the entries -/

section Total

variable {M : Type*} [AddCommMonoid M]

def weigh (d : Dict κ ν) (f : κ → ν → M) : M := (d.items.map fun entry => f entry.1 entry.2).sum

omit [DecidableEq κ] in
@[simp] theorem weigh_empty (f : κ → ν → M) : (empty : Dict κ ν).weigh f = 0 := rfl

omit [DecidableEq κ] in
/-- Only the entries that are there count. -/
theorem weigh_congr {d : Dict κ ν} {f g : κ → ν → M}
    (h : ∀ entry ∈ d.items, f entry.1 entry.2 = g entry.1 entry.2) : d.weigh f = d.weigh g := by
  rw [weigh, weigh, List.map_congr_left h]

/-- Storing under `k` replaces the old share of `k` in the sum by the new one. -/
theorem weigh_store (d : Dict κ ν) (k : κ) (v : ν) (f : κ → ν → M) :
    (d.store k v).weigh f + ((d.find k).map (f k)).getD 0 = d.weigh f + f k v := by
  suffices H : ∀ l : List (κ × ν),
      ((storeIn k v l).map fun entry => f entry.1 entry.2).sum + ((findIn k l).map (f k)).getD 0 =
        (l.map fun entry => f entry.1 entry.2).sum + f k v from H d.items
  intro l
  induction l with
  | nil => simp [storeIn, findIn]
  | cons entry rest ih =>
      obtain ⟨k₀, v₀⟩ := entry
      by_cases h : k₀ = k
      · simp only [storeIn, findIn, h, if_true, List.map_cons, List.sum_cons, Option.map_some,
          Option.getD_some]
        abel
      · simp only [storeIn, findIn, h, if_false, List.map_cons, List.sum_cons, add_assoc, ih]

/-- Deleting `k` takes its share off the sum. -/
theorem weigh_delete (d : Dict κ ν) (k : κ) (f : κ → ν → M) :
    (d.delete k).weigh f + ((d.find k).map (f k)).getD 0 = d.weigh f := by
  suffices H : ∀ l : List (κ × ν),
      ((deleteIn k l).map fun entry => f entry.1 entry.2).sum + ((findIn k l).map (f k)).getD 0 =
        (l.map fun entry => f entry.1 entry.2).sum from H d.items
  intro l
  induction l with
  | nil => simp [deleteIn, findIn]
  | cons entry rest ih =>
      obtain ⟨k₀, v₀⟩ := entry
      by_cases h : k₀ = k
      · simp only [deleteIn, findIn, h, if_true, List.map_cons, List.sum_cons, Option.map_some,
          Option.getD_some]
        abel
      · simp only [deleteIn, findIn, h, if_false, List.map_cons, List.sum_cons, add_assoc, ih]

/-- A new key adds its share. -/
theorem weigh_store_of_not_mem {d : Dict κ ν} {k : κ} (hk : k ∉ d.keys) (v : ν) (f : κ → ν → M) :
    (d.store k v).weigh f = d.weigh f + f k v := by
  have h := weigh_store d k v f
  rwa [(find_eq_none_iff d k).mpr hk, Option.map_none, Option.getD_none, add_zero] at h

def total (d : Dict κ ν) (f : ν → M) : M := (d.items.map fun entry => f entry.2).sum

omit [DecidableEq κ] in
@[simp] theorem total_empty (f : ν → M) : (empty : Dict κ ν).total f = 0 := rfl

theorem total_store (d : Dict κ ν) (k : κ) (v : ν) (f : ν → M) :
    (d.store k v).total f + ((d.find k).map f).getD 0 = d.total f + f v :=
  d.weigh_store k v fun _ => f

theorem total_delete (d : Dict κ ν) (k : κ) (f : ν → M) :
    (d.delete k).total f + ((d.find k).map f).getD 0 = d.total f :=
  d.weigh_delete k fun _ => f

/-- Where every value counts for nothing, so do they together. -/
theorem total_eq_zero {d : Dict κ ν} {f : ν → M} (h : ∀ k v, d.find k = some v → f v = 0) :
    d.total f = 0 := by
  refine List.sum_eq_zero fun x hx => ?_
  obtain ⟨⟨k, v⟩, hmem, rfl⟩ := List.mem_map.mp hx
  exact h k v ((d.find_eq_some_iff k v).mpr hmem)

end Total

end Dict

end Pvllm
