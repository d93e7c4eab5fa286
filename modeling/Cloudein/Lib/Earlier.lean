import Mathlib.Data.List.Induction

/-!
# The earlier elements that match

For a list that grows at its end, the elements before a position that are the same as the one at it, with their
positions.  Appending leaves those of the old positions as they are, and of two positions with the same element
exactly one comes before the other.
-/

namespace Earlier

variable {α : Type}

/-- The elements before position `k` that are the same as the one at `k`, with their positions. -/
def earlier (same : α → α → Bool) (xs : List α) (k : Nat) : List (α × Nat) :=
  match xs[k]? with
  | none => []
  | some x => (xs.take k).zipIdx.filter fun p => same p.1 x

variable {same : α → α → Bool} {xs : List α} {x y : α} {j k : Nat}

theorem earlier_of_getElem? (hk : xs[k]? = some x) :
    earlier same xs k = (xs.take k).zipIdx.filter fun p => same p.1 x := by
  unfold earlier
  rw [hk]

theorem earlier_append (hk : k < xs.length) (ys : List α) : earlier same (xs ++ ys) k = earlier same xs k := by
  unfold earlier
  rw [List.getElem?_append_left hk, List.take_append_of_le_length (Nat.le_of_lt hk)]

/-- Behind the end of a list every element of it comes earlier. -/
theorem earlier_concat (xs : List α) (x : α) :
    earlier same (xs ++ [x]) xs.length = xs.zipIdx.filter fun p => same p.1 x := by
  rw [earlier_of_getElem? List.getElem?_concat_length, List.take_left]

private theorem zipIdx_filter_snd (xs : List α) (j : Nat) :
    xs.zipIdx.filter (fun p => p.2 = j) = (xs[j]?.map fun y => (y, j)).toList := by
  induction xs using List.reverseRecOn with
  | nil => rfl
  | append_singleton xs x ih =>
    rw [List.zipIdx_append, List.filter_append, ih]
    rcases Nat.lt_trichotomy j xs.length with hlt | rfl | hgt
    · have hne : ¬ xs.length = j := by omega
      simp [List.getElem?_append_left hlt, hne]
    · simp
    · have hne : ¬ xs.length = j := by omega
      have hout : (xs ++ [x])[j]? = none := List.getElem?_eq_none (by simp; omega)
      have hout' : xs[j]? = none := List.getElem?_eq_none (by omega)
      simp [hout, hout', hne]

/-- Position `j` is among the earlier ones of `k` exactly when it comes before and has the same element, and then it
is once. -/
theorem earlier_filter (same : α → α → Bool) (hj : xs[j]? = some y) (hk : xs[k]? = some x) :
    (earlier same xs k).filter (fun p => p.2 = j) = if j < k ∧ same y x then [(y, j)] else [] := by
  rw [earlier_of_getElem? hk, List.filter_filter]
  have hcomm : (fun p : α × Nat => decide (p.2 = j) && same p.1 x) = fun p => same p.1 x && decide (p.2 = j) := by
    funext p
    exact Bool.and_comm _ _
  rw [hcomm, ← List.filter_filter, zipIdx_filter_snd]
  by_cases hlt : j < k
  · rw [List.getElem?_take_of_lt hlt, hj]
    by_cases hs : same y x <;> simp [hlt, hs]
  · have hout : (xs.take k)[j]? = none := List.getElem?_eq_none (by rw [List.length_take]; omega)
    rw [hout]
    simp [hlt]

/-- In a journal with one block for each position, the entries of a position are its block. -/
theorem journal_filter {β : Type} {block : Nat → List β} {key : β → Nat} (hkey : ∀ m, ∀ b ∈ block m, key b = m)
    (n k : Nat) : ((List.range n).flatMap block).filter (fun b => key b = k) = if k < n then block k else [] := by
  induction n with
  | zero => rfl
  | succ n ih =>
    rw [List.range_succ, List.flatMap_append, List.filter_append, ih, List.flatMap_singleton]
    by_cases hn : n = k
    · subst hn
      have hall : (block n).filter (fun b => key b = n) = block n := by
        rw [List.filter_eq_self]
        intro b hb
        simpa using hkey n b hb
      simp [hall]
    · have hnone : (block n).filter (fun b => key b = k) = [] := by
        rw [List.filter_eq_nil_iff]
        intro b hb
        rw [hkey n b hb]
        simpa using hn
      have hlt : k < n + 1 ↔ k < n := by omega
      simp [hnone, hlt]

end Earlier
