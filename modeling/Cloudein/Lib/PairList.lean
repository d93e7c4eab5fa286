import Cloudein.Lib.KeyedList

/-!
# Lists of pairs searched by their second component

`findSnd` and `eraseSnd` are the search for the first pair with a given second component and the removal of that
pair, as `std::find_if` and `std::list::erase` do them.  When the second components are pairwise distinct
(`Distinct`) both act on the only pair with that component: the list is then a finite map `g` from second to first
components written down in some order (`Represents l g`), and appending, searching and erasing are the update, the
lookup and the removal of `g`.
-/

namespace PairList

variable {τ κ : Type} [DecidableEq κ]

def findSnd (l : List (τ × κ)) (k : κ) : Option (τ × κ) := KeyedList.lookup Prod.snd l k

/-- The list without the first pair with second component `k`. -/
def eraseSnd (l : List (τ × κ)) (k : κ) : List (τ × κ) := l.eraseP fun p => p.2 = k

abbrev Distinct (l : List (τ × κ)) : Prop := KeyedList.Distinct Prod.snd l

private theorem eraseSnd_sublist (l : List (τ × κ)) (k : κ) : (eraseSnd l k).Sublist l :=
  List.eraseP_sublist

/-- Erasing keeps exactly the other pairs. -/
theorem mem_eraseSnd {l : List (τ × κ)} (h : Distinct l) {k : κ} {p : τ × κ} :
    p ∈ eraseSnd l k ↔ p ∈ l ∧ p.2 ≠ k := by
  unfold eraseSnd
  induction l with
  | nil => simp
  | cons q l ih =>
    have hq : q.2 ∉ l.map Prod.snd := (List.nodup_cons.1 h).1
    have hl : Distinct l := (List.nodup_cons.1 h).2
    by_cases hqk : q.2 = k
    · rw [List.eraseP_cons_of_pos (by simpa using hqk)]
      constructor
      · intro hp
        refine ⟨List.mem_cons_of_mem _ hp, fun hpk => hq ?_⟩
        rw [hqk, ← hpk]
        exact List.mem_map_of_mem hp
      · rintro ⟨hp, hpk⟩
        rcases List.mem_cons.1 hp with rfl | hp
        · exact absurd hqk hpk
        · exact hp
    · rw [List.eraseP_cons_of_neg (by simpa using hqk), List.mem_cons, ih hl, List.mem_cons]
      constructor
      · rintro (rfl | ⟨hp, hpk⟩)
        · exact ⟨Or.inl rfl, hqk⟩
        · exact ⟨Or.inr hp, hpk⟩
      · rintro ⟨rfl | hp, hpk⟩
        · exact Or.inl rfl
        · exact Or.inr ⟨hp, hpk⟩

/-! ### The map a list represents -/

/-- The list holds the pairs of the finite map `g`, each once, in some order. -/
structure Represents (l : List (τ × κ)) (g : κ → Option τ) : Prop where
  distinct : Distinct l
  mem : ∀ t k, (t, k) ∈ l ↔ g k = some t

omit [DecidableEq κ] in
theorem represents_nil : Represents ([] : List (τ × κ)) (fun _ => none) :=
  ⟨KeyedList.distinct_nil, by simp⟩

namespace Represents

variable {l : List (τ × κ)} {g : κ → Option τ}

omit [DecidableEq κ] in
theorem congr {g' : κ → Option τ} (h : Represents l g) (hg : ∀ k, g' k = g k) : Represents l g' :=
  ⟨h.distinct, fun t k => by rw [hg, h.mem]⟩

theorem push (h : Represents l g) {k : κ} (hk : g k = none) (t : τ) :
    Represents (l ++ [(t, k)]) (Function.update g k (some t)) := by
  refine ⟨h.distinct.concat fun q hq hqk => ?_, fun t' k' => ?_⟩
  · have hqk : q.2 = k := hqk
    have := (h.mem q.1 q.2).1 hq
    rw [hqk, hk] at this
    cases this
  · rw [List.mem_append, List.mem_singleton, h.mem, Prod.mk.injEq]
    by_cases hkk : k' = k
    · subst hkk
      simp [hk, eq_comm]
    · simp [hkk]

theorem find (h : Represents l g) {k : κ} {t : τ} (hk : g k = some t) : findSnd l k = some (t, k) :=
  h.distinct.lookup_eq_some.2 ⟨(h.mem t k).2 hk, rfl⟩

theorem erase (h : Represents l g) (k : κ) : Represents (eraseSnd l k) (Function.update g k none) := by
  refine ⟨h.distinct.sublist (eraseSnd_sublist l k), fun t k' => ?_⟩
  rw [mem_eraseSnd h.distinct, h.mem]
  by_cases hkk : k' = k
  · subst hkk
    simp
  · simp [hkk]

/-! The case of a heap: `g` gives the tag `f x` of the object `x` that lives at an address. -/

section Heap

variable {β : Type} {heap : κ → Option β} {f : β → τ}

theorem push_map (h : Represents l fun k => (heap k).map f) {k : κ} (hk : heap k = none) {x : β} {t : τ}
    (ht : f x = t) : Represents (l ++ [(t, k)]) fun k' => (Function.update heap k (some x) k').map f := by
  refine (h.push (k := k) (by simp [hk]) t).congr fun k' => ?_
  by_cases hkk : k' = k
  · subst hkk
    simp [ht]
  · simp [hkk]

theorem erase_map (h : Represents l fun k => (heap k).map f) (k : κ) :
    Represents (eraseSnd l k) fun k' => (Function.update heap k none k').map f := by
  refine (h.erase k).congr fun k' => ?_
  by_cases hkk : k' = k
  · subst hkk
    simp
  · simp [hkk]

/-- Overwriting an object with one of the same tag leaves the list right. -/
theorem same_map (h : Represents l fun k => (heap k).map f) {k : κ} {x y : β} (hk : heap k = some x)
    (hxy : f y = f x) : Represents l fun k' => (Function.update heap k (some y) k').map f := by
  refine h.congr fun k' => ?_
  by_cases hkk : k' = k
  · subst hkk
    simp [hk, hxy]
  · simp [hkk]

end Heap

omit [DecidableEq κ] in
theorem eq_nil (h : Represents l g) (hg : ∀ k, g k = none) : l = [] := by
  rw [List.eq_nil_iff_forall_not_mem]
  rintro ⟨t, k⟩ hm
  rw [h.mem, hg] at hm
  cases hm

theorem count_eq_one (h : Represents l g) {k : κ} {t : τ} (hk : g k = some t) : (l.map Prod.snd).count k = 1 :=
  List.count_eq_one_of_mem h.distinct (List.mem_map_of_mem (f := Prod.snd) ((h.mem t k).2 hk))

end Represents

end PairList
