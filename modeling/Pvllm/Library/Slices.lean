import Mathlib.Data.List.Perm.Basic
import Mathlib.Data.List.Nodup

/-!
Every n-th element of a list.

`slice l i n` is the elements at the positions `i`, `i + n`, `i + 2 * n` and so on. The
slices that start at `0`, …, `n - 1` share the list out among them (`slice_perm`), evenly
(`length_slice_le`, `slice_ne_nil`).
-/

namespace Pvllm

variable {α : Type*}

/-- `l[start::step]`. -/
def slice (l : List α) (start step : ℕ) : List α :=
  (l.zipIdx.filter fun entry => start ≤ entry.2 ∧ (entry.2 - start) % step = 0).map (·.1)

theorem sub_mod_eq_zero_iff {i k n : ℕ} (hi : i < n) :
    i ≤ k ∧ (k - i) % n = 0 ↔ k % n = i := by
  constructor
  · rintro ⟨hle, hmod⟩
    obtain ⟨m, hm⟩ := Nat.dvd_of_mod_eq_zero hmod
    have hk : k = i + n * m := by omega
    rw [hk, Nat.add_mul_mod_self_left, Nat.mod_eq_of_lt hi]
  · rintro rfl
    have hk := Nat.div_add_mod k n
    refine ⟨Nat.mod_le k n, ?_⟩
    rw [show k - k % n = n * (k / n) by omega]
    exact Nat.mul_mod_right n _

theorem perm_flatMap_filter {f : α → ℕ} {l : List α} (n : ℕ) :
    ((List.range n).flatMap fun i => l.filter fun a => f a = i).Perm
      (l.filter fun a => f a < n) := by
  induction n with
  | zero => simp
  | succ n ih =>
      rw [List.range_succ, List.flatMap_append, List.flatMap_singleton]
      have hsplit := List.filter_append_perm (fun a => decide (f a < n))
        (l.filter fun a => f a < n + 1)
      rw [List.filter_filter, List.filter_filter] at hsplit
      have hlt : (l.filter fun a => decide (f a < n) && decide (f a < n + 1)) =
          l.filter fun a => f a < n := by
        apply List.filter_congr
        intro a _
        rw [← Bool.decide_and, decide_eq_decide]
        omega
      have heq : (l.filter fun a => (!decide (f a < n)) && decide (f a < n + 1)) =
          l.filter fun a => f a = n := by
        apply List.filter_congr
        intro a _
        rw [← decide_not, ← Bool.decide_and, decide_eq_decide]
        omega
      rw [hlt, heq] at hsplit
      exact (ih.append_right _).trans hsplit

theorem slice_eq {l : List α} {i n : ℕ} (hi : i < n) :
    slice l i n = (l.zipIdx.filter fun entry => entry.2 % n = i).map (·.1) := by
  unfold slice
  congr 1
  apply List.filter_congr
  intro entry _
  rw [decide_eq_decide]
  exact sub_mod_eq_zero_iff hi

/-- The slices share the list out. -/
theorem slice_perm {l : List α} {n : ℕ} (hn : 0 < n) :
    ((List.range n).flatMap fun i => slice l i n).Perm l := by
  have hslices : ((List.range n).flatMap fun i => slice l i n) =
      ((List.range n).flatMap fun i =>
        l.zipIdx.filter fun entry => entry.2 % n = i).map (·.1) := by
    rw [List.map_flatMap]
    apply List.flatMap_congr
    intro i hi
    exact slice_eq (List.mem_range.mp hi)
  rw [hslices]
  have hperm := (@perm_flatMap_filter _ (fun entry : α × ℕ => entry.2 % n) l.zipIdx n).map (·.1)
  rw [List.filter_eq_self.mpr fun entry _ => decide_eq_true (Nat.mod_lt _ hn),
    List.zipIdx_map_fst] at hperm
  exact hperm

theorem length_slice {l : List α} {i n : ℕ} (hi : i < n) :
    (slice l i n).length = (List.range l.length).countP fun k => k % n = i := by
  rw [slice_eq hi, List.length_map, ← List.countP_eq_length_filter, List.range_eq_range',
    ← List.zipIdx_map_snd 0 l, List.countP_map]
  rfl

theorem countP_range_mul {i n : ℕ} (hi : i < n) (m : ℕ) :
    (List.range (n * m)).countP (fun k => k % n = i) = m := by
  induction m with
  | zero => rfl
  | succ m ih =>
      rw [Nat.mul_succ, List.range_add, List.countP_append, ih, List.countP_map]
      have hone : (List.range n).countP (fun k => (n * m + k) % n = i) = 1 := by
        have heq : (List.range n).countP (fun k => (n * m + k) % n = i) =
            (List.range n).count i := by
          rw [List.count_eq_countP]
          apply List.countP_congr
          intro k hk
          rw [Nat.mul_add_mod, Nat.mod_eq_of_lt (List.mem_range.mp hk)]
          simp
        rw [heq]
        exact List.count_eq_one_of_mem List.nodup_range (List.mem_range.mpr hi)
      exact congrArg (m + ·) hone

/-- A slice has at most as many elements as an even share. -/
theorem length_slice_le {l : List α} {i n m : ℕ} (hi : i < n) (hl : l.length ≤ n * m) :
    (slice l i n).length ≤ m := by
  rw [length_slice hi]
  calc (List.range l.length).countP (fun k => k % n = i)
      ≤ (List.range (n * m)).countP (fun k => k % n = i) :=
        (List.range_sublist.mpr hl).countP_le
    _ = m := countP_range_mul hi m

theorem slice_ne_nil {l : List α} {i n : ℕ} (hi : i < n) (hl : n ≤ l.length) :
    slice l i n ≠ [] := by
  rw [← List.length_pos_iff, length_slice hi, List.countP_pos_iff]
  exact ⟨i, List.mem_range.mpr (Nat.lt_of_lt_of_le hi hl), by simp [Nat.mod_eq_of_lt hi]⟩

end Pvllm
