import Mathlib.Data.List.Induction
import Mathlib.Tactic.Common

/-!
# Runs of a program among the events of its environment

A `System` says which events may happen in a state (what the environment promises) and what the program does on
an event; a step may fail.  `exec` is the state after a list of events, `Along P` says that every event of a list
satisfies `P` in the state in which it happens, and `Allowed` is `Along` for the events that may happen.  A property
of all runs is proved from one step: `exec_inv` (an invariant of the steps that succeed), `exec_hist` and
`exec_hist_run` (an invariant that also speaks of the events so far, or of the run they make), `exec_safe` and
`exec_safe_of` (steps from the invariant never fail, or the good ones never do), `along_congr` (two properties of
events agree along a run) and `exec_created` (what holds at the end was brought about by an event).
-/

namespace Runs

/-- The events that may happen in a state, and the step of the program on an event. -/
structure System (σ α ε : Type) where
  enabled : σ → α → Prop
  step : σ → α → Except ε σ

variable {σ α ε : Type}

namespace System

variable (M : System σ α ε)

/-- The state after a list of events. -/
def exec : σ → List α → Except ε σ
  | s, [] => .ok s
  | s, a :: es => match M.step s a with
    | .error e => .error e
    | .ok t => exec t es

/-- Every event of the list satisfies `P` in the state in which it happens. -/
def Along (P : σ → α → Prop) : σ → List α → Prop
  | _, [] => True
  | s, a :: es => P s a ∧ ∀ t, M.step s a = .ok t → Along P t es

abbrev Allowed : σ → List α → Prop := M.Along M.enabled

instance decAlong (P : σ → α → Prop) [∀ s a, Decidable (P s a)] : ∀ s es, Decidable (M.Along P s es)
  | _, [] => .isTrue trivial
  | s, a :: es => match h : M.step s a with
    | .error _ => decidable_of_iff (P s a) (by simp [Along, h])
    | .ok t =>
      have := decAlong P t es
      decidable_of_iff (P s a ∧ M.Along P t es) (by simp [Along, h])

variable {M}

@[simp] theorem exec_nil (s : σ) : M.exec s [] = .ok s := rfl

theorem exec_cons_ok {s t : σ} {a : α} (h : M.step s a = .ok t) (es : List α) :
    M.exec s (a :: es) = M.exec t es := by
  simp only [exec, h]

theorem exec_cons_error {s : σ} {a : α} {e : ε} (h : M.step s a = .error e) (es : List α) :
    M.exec s (a :: es) = .error e := by
  simp only [exec, h]

@[simp] theorem exec_single (s : σ) (a : α) : M.exec s [a] = M.step s a := by
  cases h : M.step s a with
  | error e => exact exec_cons_error h []
  | ok t => rw [exec_cons_ok h, exec_nil]

theorem exec_append {s t : σ} {p : List α} (h : M.exec s p = .ok t) (q : List α) :
    M.exec s (p ++ q) = M.exec t q := by
  induction p generalizing s with
  | nil =>
    simp only [exec_nil, Except.ok.injEq] at h
    rw [List.nil_append, h]
  | cons a p ih =>
    cases hs : M.step s a with
    | error e => simp [exec_cons_error hs] at h
    | ok u =>
      rw [exec_cons_ok hs] at h
      rw [List.cons_append, exec_cons_ok hs, ih h]

theorem exec_concat {s t u : σ} {p : List α} {a : α} (h : M.exec s p = .ok t) (ha : M.step t a = .ok u) :
    M.exec s (p ++ [a]) = .ok u := by
  rw [exec_append h, exec_single, ha]

theorem exec_append_error {s : σ} {p : List α} {e : ε} (h : M.exec s p = .error e) (q : List α) :
    M.exec s (p ++ q) = .error e := by
  induction p generalizing s with
  | nil => simp at h
  | cons a p ih =>
    cases hs : M.step s a with
    | error e' =>
      rw [exec_cons_error hs] at h
      rw [List.cons_append, exec_cons_error hs, h]
    | ok u =>
      rw [exec_cons_ok hs] at h
      rw [List.cons_append, exec_cons_ok hs, ih h]

/-- A run that succeeds succeeds up to every event of it. -/
theorem exec_append_ok {s t : σ} {p q : List α} (h : M.exec s (p ++ q) = .ok t) :
    ∃ u, M.exec s p = .ok u ∧ M.exec u q = .ok t := by
  cases hp : M.exec s p with
  | error e => simp [exec_append_error hp] at h
  | ok u => exact ⟨u, rfl, by rw [← h, exec_append hp]⟩

/-- A test of the state reached, as it is run. -/
theorem exec_test (s : σ) (es : List α) (p : σ → Bool)
    (h : (match M.exec s es with | .ok t => p t | .error _ => false) = true) :
    ∃ t, M.exec s es = .ok t ∧ p t = true := by
  cases hs : M.exec s es with
  | error e =>
    rw [hs] at h
    cases h
  | ok t =>
    rw [hs] at h
    exact ⟨t, rfl, h⟩

section

variable {P : σ → α → Prop}

theorem along_append {s : σ} {p q : List α} :
    M.Along P s (p ++ q) ↔ M.Along P s p ∧ ∀ u, M.exec s p = .ok u → M.Along P u q := by
  induction p generalizing s with
  | nil => simp [Along]
  | cons a p ih =>
    simp only [List.cons_append, Along, ih, and_assoc]
    refine and_congr_right fun _ => ?_
    cases hs : M.step s a with
    | error e => simp [exec_cons_error hs]
    | ok t => simp [exec_cons_ok hs]

theorem along_cons_ok {s t : σ} {a : α} {es : List α} (ha : P s a) (hs : M.step s a = .ok t) (h : M.Along P t es) :
    M.Along P s (a :: es) :=
  ⟨ha, fun t' ht' => by rw [hs, Except.ok.injEq] at ht'; exact ht' ▸ h⟩

theorem Along.concat {s t : σ} {p : List α} {a : α} (h : M.Along P s p) (ht : M.exec s p = .ok t) (ha : P t a) :
    M.Along P s (p ++ [a]) := by
  refine along_append.2 ⟨h, fun u hu => ?_⟩
  obtain rfl : t = u := by simpa [ht] using hu
  exact ⟨ha, fun _ _ => trivial⟩

theorem along_of_forall {es : List α} (h : ∀ u, ∀ a ∈ es, P u a) (s : σ) : M.Along P s es := by
  induction es generalizing s with
  | nil => trivial
  | cons a es ih =>
    refine ⟨h s a List.mem_cons_self, fun t _ => ih (fun u b hb => ?_) t⟩
    exact h u b (List.mem_cons_of_mem a hb)

theorem Along.left {s : σ} {p q : List α} (h : M.Along P s (p ++ q)) : M.Along P s p :=
  (along_append.1 h).1

theorem Along.at {s u : σ} {p q : List α} {a : α} (h : M.Along P s (p ++ a :: q)) (hp : M.exec s p = .ok u) : P u a :=
  ((along_append.1 h).2 u hp).1

/-- `Along P` speaks of every event of the run and of the state reached before it. -/
theorem along_iff {s : σ} {es : List α} :
    M.Along P s es ↔ ∀ p a q u, es = p ++ a :: q → M.exec s p = .ok u → P u a := by
  constructor
  · rintro h p a q u rfl hu
    exact h.at hu
  · intro h
    induction es generalizing s with
    | nil => trivial
    | cons a es ih =>
      refine ⟨h [] a es s rfl rfl, fun t ht => ih fun p b q u he hu => ?_⟩
      exact h (a :: p) b q u (by rw [he]; rfl) (by rw [exec_cons_ok ht]; exact hu)

end

/-- Where an event of a run stands when the run goes on for one event. -/
theorem concat_eq_append_cons {p p' q : List α} {e a : α} (h : p ++ [e] = p' ++ a :: q) :
    (p = p' ∧ e = a) ∨ ∃ q', p = p' ++ a :: q' := by
  rcases List.eq_nil_or_concat q with rfl | ⟨q', b, rfl⟩
  · have hinj := List.append_inj' h rfl
    exact Or.inl ⟨hinj.1, by simpa using hinj.2⟩
  · refine Or.inr ⟨q', ?_⟩
    have hassoc : p ++ [e] = (p' ++ a :: q') ++ [b] := by rw [h]; simp
    exact (List.append_inj' hassoc rfl).1

/-! ### States that can be reached -/

/-- `t` is reached from `s` by at most `n` events that may happen. -/
def Reaches (M : System σ α ε) (n : Nat) (s t : σ) : Prop :=
  ∃ es, es.length ≤ n ∧ M.Allowed s es ∧ M.exec s es = .ok t

theorem reaches_refl (n : Nat) (s : σ) : M.Reaches n s s := ⟨[], Nat.zero_le n, trivial, rfl⟩

theorem reaches_single {s t : σ} {a : α} (ha : M.enabled s a) (hs : M.step s a = .ok t) : M.Reaches 1 s t :=
  ⟨[a], Nat.le_refl 1, ⟨ha, fun _ _ => trivial⟩, by rw [exec_single, hs]⟩

theorem Reaches.mono {m n : Nat} {s t : σ} (h : M.Reaches m s t) (hle : m ≤ n) : M.Reaches n s t := by
  obtain ⟨es, hes, hal, hexec⟩ := h
  exact ⟨es, Nat.le_trans hes hle, hal, hexec⟩

theorem Reaches.trans {m n : Nat} {s t u : σ} (h : M.Reaches m s t) (h' : M.Reaches n t u) :
    M.Reaches (m + n) s u := by
  obtain ⟨p, hp, hpa, hpe⟩ := h
  obtain ⟨q, hq, hqa, hqe⟩ := h'
  refine ⟨p ++ q, ?_, along_append.2 ⟨hpa, fun v hv => ?_⟩, ?_⟩
  · rw [List.length_append]
    omega
  · obtain rfl : t = v := by simpa [hpe] using hv
    exact hqa
  · rw [exec_append hpe, hqe]

/-- The system in which only some of the events happen. -/
def restrict (M : System σ α ε) (Q : α → Prop) : System σ α ε := ⟨fun s a => Q a ∧ M.enabled s a, M.step⟩

/-- What is reached in a part of a system is reached in the system. -/
theorem Reaches.lift {τ β δ : Type} {N : System τ β δ} {g : σ → τ} {f : α → β}
    (hen : ∀ s a, M.enabled s a → N.enabled (g s) (f a))
    (hstep : ∀ s a t, M.step s a = .ok t → N.step (g s) (f a) = .ok (g t)) {n : Nat} {s t : σ} (h : M.Reaches n s t) :
    N.Reaches n (g s) (g t) := by
  obtain ⟨es, hes, hal, hexec⟩ := h
  suffices hrun : N.Allowed (g s) (es.map f) ∧ N.exec (g s) (es.map f) = .ok (g t) from
    ⟨es.map f, by rw [List.length_map]; exact hes, hrun⟩
  clear hes
  induction es generalizing s with
  | nil =>
    obtain rfl : s = t := by simpa using hexec
    exact ⟨trivial, rfl⟩
  | cons a es ih =>
    cases hs : M.step s a with
    | error e =>
      rw [exec_cons_error hs] at hexec
      cases hexec
    | ok u =>
      rw [exec_cons_ok hs] at hexec
      obtain ⟨hal', hexec'⟩ := ih (hal.2 u hs) hexec
      rw [List.map_cons, exec_cons_ok (hstep s a u hs)]
      exact ⟨along_cons_ok (hen s a hal.1) (hstep s a u hs) hal', hexec'⟩

/-! ### From one step to all runs -/

/-- An invariant that speaks of the events so far, and of the run that they make. -/
theorem exec_hist_run {I : List α → σ → Prop} {s : σ} (h0 : I [] s)
    (hstep : ∀ p u a t, M.exec s p = .ok u → I p u → M.enabled u a → M.step u a = .ok t → I (p ++ [a]) t)
    {es : List α} (hal : M.Allowed s es) {t : σ} (ht : M.exec s es = .ok t) : I es t := by
  induction es using List.reverseRecOn generalizing t with
  | nil =>
    simp only [exec_nil, Except.ok.injEq] at ht
    exact ht ▸ h0
  | append_singleton p a ih =>
    obtain ⟨u, hu, hua⟩ := exec_append_ok ht
    rw [exec_single] at hua
    exact hstep p u a t hu (ih hal.left hu) (hal.at hu) hua

/-- An invariant that speaks of the events so far. -/
theorem exec_hist {I : List α → σ → Prop} {s : σ} (h0 : I [] s)
    (hstep : ∀ p u a t, I p u → M.enabled u a → M.step u a = .ok t → I (p ++ [a]) t)
    {es : List α} (hal : M.Allowed s es) {t : σ} (ht : M.exec s es = .ok t) : I es t :=
  exec_hist_run h0 (fun p u a t _ => hstep p u a t) hal ht

/-- An invariant of the steps that succeed holds in every state reached. -/
theorem exec_inv {I : σ → Prop} {s : σ} (h0 : I s)
    (hstep : ∀ u a t, I u → M.enabled u a → M.step u a = .ok t → I t)
    {es : List α} (hal : M.Allowed s es) {t : σ} (ht : M.exec s es = .ok t) : I t :=
  exec_hist (I := fun _ => I) h0 (fun _ => hstep) hal ht

/-- What holds of a state but not of the first one was brought about by an event, and has held ever since: `J a` says
what the event `a` brought about, and the later events keep it. -/
theorem exec_created {I P : σ → Prop} {J : α → σ → Prop} {s : σ} (h0 : I s) (hP0 : ¬ P s)
    (hI : ∀ u a t, I u → M.enabled u a → M.step u a = .ok t → I t)
    (hcreate : ∀ u a t, I u → M.enabled u a → M.step u a = .ok t → ¬ P u → P t → J a t)
    (hkeep : ∀ b u a t, I u → M.enabled u a → M.step u a = .ok t → P t → J b u → J b t)
    {es : List α} (hal : M.Allowed s es) {t : σ} (ht : M.exec s es = .ok t) (hP : P t) :
    ∃ p a q, es = p ++ a :: q ∧ J a t ∧ (∀ u, M.exec s p = .ok u → ¬ P u) ∧
      ∀ q₁ q₂ u, q = q₁ ++ q₂ → M.exec s (p ++ a :: q₁) = .ok u → P u := by
  induction es using List.reverseRecOn generalizing t with
  | nil =>
    simp only [exec_nil, Except.ok.injEq] at ht
    exact absurd (ht ▸ hP) hP0
  | append_singleton p b ih =>
    obtain ⟨u, hu, hub⟩ := exec_append_ok ht
    rw [exec_single] at hub
    have hIu : I u := exec_inv h0 hI hal.left hu
    by_cases hPu : P u
    · obtain ⟨p', a, q, rfl, hJ, hbefore, hsince⟩ := ih hal.left hu hPu
      refine ⟨p', a, q ++ [b], by simp, hkeep a u b t hIu (hal.at hu) hub hP hJ, hbefore, fun q₁ q₂ v hq hv => ?_⟩
      -- A later state is the last one, or one of the shorter run.
      rcases List.eq_nil_or_concat q₂ with rfl | ⟨q₂', c, rfl⟩
      · obtain rfl : t = v := by
          rw [List.append_nil] at hq
          have hall : p' ++ a :: q₁ = p' ++ a :: q ++ [b] := by rw [← hq]; simp
          rw [hall, ht] at hv
          simpa using hv
        exact hP
      · rw [List.concat_eq_append, ← List.append_assoc] at hq
        exact hsince q₁ q₂' v (List.append_inj_left' hq rfl) hv
    · refine ⟨p, b, [], rfl, hcreate u b t hIu (hal.at hu) hub hPu hP, fun v hv => ?_, fun q₁ q₂ v hq hv => ?_⟩
      · obtain rfl : u = v := by simpa [hu] using hv
        exact hPu
      · obtain ⟨rfl, rfl⟩ := List.append_eq_nil_iff.1 hq.symm
        obtain rfl : t = v := by simpa [ht] using hv
        exact hP

/-- When the good steps from the invariant succeed and keep it, a run of good steps succeeds and ends in it. -/
theorem exec_safe_of {I : σ → Prop} {good : σ → α → Prop} {s : σ} (h0 : I s)
    (hstep : ∀ u a, I u → M.enabled u a → good u a → ∃ t, M.step u a = .ok t ∧ I t)
    {es : List α} (hal : M.Allowed s es) (hgood : M.Along good s es) : ∃ t, M.exec s es = .ok t ∧ I t := by
  induction es generalizing s with
  | nil => exact ⟨s, rfl, h0⟩
  | cons a es ih =>
    obtain ⟨t, ht, hI⟩ := hstep s a h0 hal.1 hgood.1
    obtain ⟨t', ht', hI'⟩ := ih hI (hal.2 t ht) (hgood.2 t ht)
    exact ⟨t', by rw [exec_cons_ok ht, ht'], hI'⟩

/-- When every step from the invariant succeeds and keeps it, every allowed run succeeds and ends in it. -/
theorem exec_safe {I : σ → Prop} {s : σ} (h0 : I s)
    (hstep : ∀ u a, I u → M.enabled u a → ∃ t, M.step u a = .ok t ∧ I t)
    {es : List α} (hal : M.Allowed s es) : ∃ t, M.exec s es = .ok t ∧ I t :=
  exec_safe_of h0 (fun u a hu ha _ => hstep u a hu ha) hal hal

/-- Two properties of an event agree along an allowed run when they agree on an invariant of the steps that have
them. -/
theorem along_congr {I : σ → Prop} {P Q : σ → α → Prop} {s : σ} (h0 : I s)
    (hPQ : ∀ u a, I u → M.enabled u a → (P u a ↔ Q u a))
    (hstep : ∀ u a t, I u → M.enabled u a → Q u a → M.step u a = .ok t → I t)
    {es : List α} (hal : M.Allowed s es) : M.Along P s es ↔ M.Along Q s es := by
  induction es generalizing s with
  | nil => exact Iff.rfl
  | cons a es ih =>
    have hiff := hPQ s a h0 hal.1
    constructor
    · rintro ⟨hP, hrest⟩
      exact ⟨hiff.1 hP, fun t ht => (ih (hstep s a t h0 hal.1 (hiff.1 hP) ht) (hal.2 t ht)).1 (hrest t ht)⟩
    · rintro ⟨hQ, hrest⟩
      exact ⟨hiff.2 hQ, fun t ht => (ih (hstep s a t h0 hal.1 hQ ht) (hal.2 t ht)).2 (hrest t ht)⟩

end System

end Runs
