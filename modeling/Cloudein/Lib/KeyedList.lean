import Mathlib.Data.List.Nodup
import Mathlib.Logic.Function.Basic

/-!
# Lists searched by a key

A list whose elements are found by a key, the first one with the key when there are several.  `lookup` is the search
as a function of the key.  Inserting an element whose key is new (`insertNew`) and changing the first element with a
key (`modifyFirst`) are updates of that function; so is removing an element when the keys are pairwise distinct
(`Distinct`), and then the elements are exactly what the search finds.
-/

namespace KeyedList

variable {α κ : Type} [DecidableEq κ] (key : α → κ)

def lookup (l : List α) (k : κ) : Option α := l.find? fun a => key a = k

def Distinct (l : List α) : Prop := (l.map key).Nodup

/-- The list with an element behind it, unless its key is already there. -/
def insertNew (a : α) (l : List α) : List α :=
  if l.any fun b => key b = key a then l else l ++ [a]

/-- The list with the first element of key `k` changed. -/
def modifyFirst (k : κ) (f : α → α) : List α → List α
  | [] => []
  | a :: l => if key a = k then f a :: l else a :: modifyFirst k f l

variable {key}

private theorem lookup_cons (a : α) (l : List α) (k : κ) :
    lookup key (a :: l) k = if key a = k then some a else lookup key l k := by
  unfold lookup
  by_cases h : key a = k
  · rw [if_pos h, List.find?_cons_of_pos (by simpa using h)]
  · rw [if_neg h, List.find?_cons_of_neg (by simpa using h)]

private theorem lookup_append (l m : List α) (k : κ) : lookup key (l ++ m) k = (lookup key l k).or (lookup key m k) :=
  List.find?_append

theorem lookup_eq_none {l : List α} {k : κ} : lookup key l k = none ↔ ∀ a ∈ l, key a ≠ k := by
  simp [lookup, List.find?_eq_none]

theorem of_lookup {l : List α} {k : κ} {a : α} (h : lookup key l k = some a) : a ∈ l ∧ key a = k :=
  ⟨List.mem_of_find?_eq_some h, by simpa using List.find?_some h⟩

omit [DecidableEq κ] in
theorem distinct_nil : Distinct key [] := List.nodup_nil

omit [DecidableEq κ] in
theorem Distinct.sublist {l m : List α} (h : Distinct key m) (hl : l.Sublist m) : Distinct key l :=
  List.Nodup.sublist (hl.map key) h

omit [DecidableEq κ] in
private theorem Distinct.eq_of_key_eq {l : List α} (h : Distinct key l) {a b : α} (ha : a ∈ l) (hb : b ∈ l)
    (hab : key a = key b) : a = b :=
  List.inj_on_of_nodup_map h ha hb hab

omit [DecidableEq κ] in
theorem nodup_push {l : List κ} (h : l.Nodup) {k : κ} (hk : k ∉ l) : (l ++ [k]).Nodup := by
  rw [← List.concat_eq_append]
  exact List.Nodup.concat hk h

omit [DecidableEq κ] in
theorem Distinct.concat {l : List α} (h : Distinct key l) {a : α} (ha : ∀ b ∈ l, key b ≠ key a) :
    Distinct key (l ++ [a]) := by
  unfold Distinct at h ⊢
  rw [List.map_append, List.map_singleton]
  refine nodup_push h fun hk => ?_
  obtain ⟨b, hb, hba⟩ := List.mem_map.1 hk
  exact ha b hb hba

/-- When the keys are distinct the search finds exactly the elements of the list. -/
theorem Distinct.lookup_eq_some {l : List α} (h : Distinct key l) {k : κ} {a : α} :
    lookup key l k = some a ↔ a ∈ l ∧ key a = k := by
  refine ⟨of_lookup, ?_⟩
  rintro ⟨ha, rfl⟩
  cases hl : lookup key l (key a) with
  | none => exact absurd rfl (lookup_eq_none.1 hl a ha)
  | some b =>
    obtain ⟨hb, hba⟩ := of_lookup hl
    rw [h.eq_of_key_eq hb ha hba]

/-! ### The elements after an operation -/

theorem mem_insertNew {l : List α} {a b : α} (h : b ∈ insertNew key a l) : b ∈ l ∨ b = a := by
  unfold insertNew at h
  split at h
  · exact Or.inl h
  · rcases List.mem_append.1 h with hb | hb
    · exact Or.inl hb
    · exact Or.inr (List.mem_singleton.1 hb)

theorem mem_modifyFirst {l : List α} {k : κ} {f : α → α} {b : α} (h : b ∈ modifyFirst key k f l) :
    b ∈ l ∨ ∃ a ∈ l, b = f a := by
  induction l with
  | nil => exact Or.inl h
  | cons a l ih =>
    unfold modifyFirst at h
    split at h
    · rcases List.mem_cons.1 h with rfl | hb
      · exact Or.inr ⟨a, List.mem_cons_self, rfl⟩
      · exact Or.inl (List.mem_cons_of_mem a hb)
    · rcases List.mem_cons.1 h with rfl | hb
      · exact Or.inl List.mem_cons_self
      · exact (ih hb).imp (List.mem_cons_of_mem a) fun ⟨c, hc, hbc⟩ => ⟨c, List.mem_cons_of_mem a hc, hbc⟩

/-! ### What the operations do to the search -/

theorem lookup_insertNew (a : α) (l : List α) :
    lookup key (insertNew key a l) =
      Function.update (lookup key l) (key a) (some ((lookup key l (key a)).getD a)) := by
  have hany : (l.any fun b => key b = key a) = (lookup key l (key a)).isSome := by
    rw [lookup, Bool.eq_iff_iff, List.find?_isSome, List.any_eq_true]
  funext k
  unfold insertNew
  rw [hany]
  cases hl : lookup key l (key a) with
  | some b =>
    rw [if_pos (by rfl)]
    by_cases hk : k = key a
    · rw [hk, Function.update_self, hl]
      rfl
    · rw [Function.update_of_ne hk]
  | none =>
    rw [if_neg (by simp), lookup_append, lookup_cons]
    by_cases hk : k = key a
    · rw [hk, Function.update_self, hl, if_pos rfl]
      rfl
    · rw [Function.update_of_ne hk, if_neg (Ne.symm hk), lookup, lookup, List.find?_nil, Option.or_none]

theorem lookup_modifyFirst {k : κ} {f : α → α} (hf : ∀ a, key (f a) = key a) (l : List α) :
    lookup key (modifyFirst key k f l) = Function.update (lookup key l) k ((lookup key l k).map f) := by
  funext k'
  induction l with
  | nil => by_cases hk : k' = k <;> simp [modifyFirst, lookup, hk]
  | cons a l ih =>
    by_cases hk : k' = k
    · subst hk
      rw [Function.update_self] at ih ⊢
      rw [modifyFirst]
      by_cases ha : key a = k'
      · rw [if_pos ha, lookup_cons, lookup_cons, hf, if_pos ha, if_pos ha]
        rfl
      · rw [if_neg ha, lookup_cons, lookup_cons, if_neg ha, if_neg ha, ih]
    · rw [Function.update_of_ne hk] at ih ⊢
      rw [modifyFirst]
      by_cases ha : key a = k
      · have hak : key a ≠ k' := fun h => hk (h.symm.trans ha)
        rw [if_pos ha, lookup_cons, lookup_cons, hf, if_neg hak, if_neg hak]
      · rw [if_neg ha, lookup_cons, lookup_cons, ih]

theorem Distinct.lookup_remove {l m : List α} {a : α} (h : Distinct key (l ++ a :: m)) :
    lookup key (l ++ m) = Function.update (lookup key (l ++ a :: m)) (key a) none := by
  have hsub : (l ++ m).Sublist (l ++ a :: m) := (List.sublist_cons_self a m).append_left l
  funext k
  by_cases hk : k = key a
  · rw [hk, Function.update_self, lookup_eq_none]
    intro b hb hba
    have hnodup : (l ++ a :: m).Nodup := h.of_map
    obtain rfl : b = a := h.eq_of_key_eq (hsub.mem hb) (by simp) hba
    have hnot : b ∉ l ++ m := (List.nodup_cons.1 (List.perm_middle.nodup hnodup)).1
    exact hnot hb
  · rw [Function.update_of_ne hk, lookup_append, lookup_append, lookup_cons, if_neg (Ne.symm hk)]

theorem Distinct.insertNew {l : List α} (h : Distinct key l) (a : α) : Distinct key (insertNew key a l) := by
  unfold KeyedList.insertNew
  split
  · exact h
  · rename_i hany
    refine h.concat fun b hb hba => hany ?_
    exact List.any_eq_true.2 ⟨b, hb, by simpa using hba⟩

private theorem map_modifyFirst {k : κ} {f : α → α} (hf : ∀ a, key (f a) = key a) (l : List α) :
    (modifyFirst key k f l).map key = l.map key := by
  induction l with
  | nil => rfl
  | cons a l ih =>
    unfold modifyFirst
    split
    · rw [List.map_cons, List.map_cons, hf]
    · rw [List.map_cons, List.map_cons, ih]

theorem Distinct.modifyFirst {l : List α} (h : Distinct key l) (k : κ) {f : α → α} (hf : ∀ a, key (f a) = key a) :
    Distinct key (modifyFirst key k f l) := by
  unfold Distinct
  rw [map_modifyFirst hf]
  exact h

end KeyedList
