import Mathlib.Tactic.Common

/-!
# Sections under a mutex

Threads enter a section when they take the lock and leave it when they free it.  `Exclusive` says that one thread at
most is inside, and that the lock is taken exactly when one is; entering, leaving and steps of any other kind keep it.
-/

namespace Mutex

variable {ι : Type} {inside inside' : ι → Prop} {lock : Bool}

structure Exclusive (inside : ι → Prop) (lock : Bool) : Prop where
  unique : ∀ i j, inside i → inside j → i = j
  taken : lock = true ↔ ∃ i, inside i

namespace Exclusive

theorem free (h : ∀ i, ¬ inside i) : Exclusive inside false := by
  refine ⟨fun i _ hi => absurd hi (h i), ?_⟩
  simp [h]

theorem congr (h : Exclusive inside lock) (hinside : ∀ i, inside' i ↔ inside i) : Exclusive inside' lock := by
  obtain rfl : inside' = inside := funext fun i => propext (hinside i)
  exact h

private theorem not_inside (h : Exclusive inside false) (i : ι) : ¬ inside i := by
  intro hi
  have htaken := h.taken.2 ⟨i, hi⟩
  cases htaken

theorem enter (h : Exclusive inside false) {i : ι} (hinside : ∀ j, inside' j ↔ j = i ∨ inside j) :
    Exclusive inside' true := by
  have honly : ∀ j, inside' j → j = i := fun j hj => ((hinside j).1 hj).resolve_right (h.not_inside j)
  refine ⟨fun j k hj hk => (honly j hj).trans (honly k hk).symm, ?_⟩
  exact iff_of_true rfl ⟨i, (hinside i).2 (Or.inl rfl)⟩

theorem leave (h : Exclusive inside lock) {i : ι} (hi : inside i) (hinside : ∀ j, inside' j ↔ j ≠ i ∧ inside j) :
    Exclusive inside' false := by
  refine free fun j hj => ?_
  obtain ⟨hne, hj⟩ := (hinside j).1 hj
  exact hne (h.unique j i hj hi)

theorem lock_eq (h : Exclusive inside lock) {i : ι} (hi : inside i) : lock = true := h.taken.2 ⟨i, hi⟩

end Exclusive

end Mutex
