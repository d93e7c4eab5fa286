import Mathlib.Data.List.Basic

/-!
# Texts up to spaces

`strip` removes the spaces of a text, as the idiom of `std::remove_if` and `erase` does.  Two texts that differ by
inserted spaces only (`Inserts`) are stripped to the same text.
-/

namespace Spaces

variable {α : Type} (space : α → Bool)

def strip (l : List α) : List α := l.filter fun c => !space c

/-- The second text is the first with spaces inserted at any places. -/
inductive Inserts : List α → List α → Prop
  | nil : Inserts [] []
  | keep (c : α) {l t : List α} : Inserts l t → Inserts (c :: l) (c :: t)
  | insert {c : α} {l t : List α} : space c → Inserts l t → Inserts l (c :: t)

variable {space}

theorem strip_append (l m : List α) : strip space (l ++ m) = strip space l ++ strip space m :=
  List.filter_append l m

theorem strip_of_forall {l : List α} (h : ∀ c ∈ l, space c = false) : strip space l = l := by
  refine List.filter_eq_self.2 fun c hc => ?_
  rw [h c hc]
  rfl

private theorem not_space_of_mem_strip {l : List α} {c : α} (h : c ∈ strip space l) : space c = false := by
  simpa using (List.mem_filter.1 h).2

theorem mem_of_mem_strip {l : List α} {c : α} (h : c ∈ strip space l) : c ∈ l :=
  (List.mem_filter.1 h).1

@[simp] theorem strip_strip (l : List α) : strip space (strip space l) = strip space l :=
  strip_of_forall fun _ => not_space_of_mem_strip

theorem length_strip_le (space : α → Bool) (l : List α) : (strip space l).length ≤ l.length :=
  List.length_filter_le _ l

theorem Inserts.refl (l : List α) : Inserts space l l := by
  induction l with
  | nil => exact .nil
  | cons c _ ih => exact .keep c ih

theorem Inserts.strip_eq {l t : List α} (h : Inserts space l t) : strip space t = strip space l := by
  induction h with
  | nil => rfl
  | keep c _ ih =>
    simp only [strip, List.filter_cons] at ih ⊢
    rw [ih]
  | insert hc _ ih =>
    simp only [strip, List.filter_cons, hc] at ih ⊢
    simpa using ih

end Spaces
