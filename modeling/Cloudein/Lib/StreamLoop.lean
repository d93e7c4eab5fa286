import Mathlib.Data.List.Induction

/-!
# Loops over a stream

A loop that reads a stream to its end is a fold.  What it has done after a part of the stream is an invariant of that
part and of the variables of the loop; a loop that keeps the item before the one it reads goes through the consecutive
pairs of the stream.
-/

namespace StreamLoop

variable {α σ : Type*}

/-- What holds before the stream, and is kept by every item, holds at its end. -/
theorem foldl_inv {I : List α → σ → Prop} {f : σ → α → σ} {s : σ} {l : List α} (h0 : I [] s)
    (hstep : ∀ p a t, p ++ [a] <+: l → I p t → I (p ++ [a]) (f t a)) : I l (l.foldl f s) := by
  induction l using List.reverseRecOn with
  | nil => exact h0
  | append_singleton l a ih =>
    have hl : I l (l.foldl f s) := by
      refine ih fun p b t hp => hstep p b t ?_
      exact hp.trans (List.prefix_append l [a])
    rw [List.foldl_append]
    exact hstep l a _ List.prefix_rfl hl

/-- The pairs of neighbours in a list. -/
def consecutive (l : List α) : List (α × α) := l.zip l.tail

theorem length_consecutive (l : List α) : (consecutive l).length = l.length - 1 := by
  simp [consecutive]

/-- One more item makes a pair with the one that was the last. -/
theorem consecutive_concat {l : List α} {a : α} (h : l.getLast? = some a) (b : α) :
    consecutive (l ++ [b]) = consecutive l ++ [(a, b)] := by
  induction l with
  | nil => cases h
  | cons c l ih =>
    cases l with
    | nil =>
      obtain rfl : c = a := by simpa using h
      rfl
    | cons d l =>
      rw [List.getLast?_cons_cons] at h
      have hrest := ih h
      simp only [consecutive, List.cons_append, List.tail_cons, List.zip_cons_cons] at hrest ⊢
      rw [hrest]

end StreamLoop
