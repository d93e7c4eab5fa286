import Cloudein.Lib.Run

/-!
# Simulations between systems

A step of a system `C` may be a run of a coarser system `A`, or nothing at all: `commit` says which events of `A` it
makes up.  A `Simulation` matches each step of `C`, and its faults with those of `A`; a run of `C` then is the run of
`A` with the events that it commits (`Simulation.commits`).
-/

namespace Runs

variable {σ α ε τ β δ : Type}

namespace System

/-- The events that a list of events commits, where `commit` says what one event commits. -/
def commits (C : System σ α ε) (commit : σ → α → List β) : σ → List α → List β
  | _, [] => []
  | s, e :: es => match C.step s e with
    | .error _ => commit s e
    | .ok t => commit s e ++ C.commits commit t es

variable {C : System σ α ε} {commit : σ → α → List β}

private theorem commits_cons_ok {s t : σ} {e : α} (h : C.step s e = .ok t) (es : List α) :
    C.commits commit s (e :: es) = commit s e ++ C.commits commit t es := by
  simp only [commits, h]

private theorem commits_cons_error {s : σ} {e : α} {x : ε} (h : C.step s e = .error x) (es : List α) :
    C.commits commit s (e :: es) = commit s e := by
  simp only [commits, h]

end System

/-- Related states stay related: an event of `C` that satisfies `P` commits events of `A` that satisfy `Q`, and it
succeeds or fails as they do. -/
structure Simulation (C : System σ α ε) (P : σ → α → Prop) (A : System τ β δ) (Q : τ → β → Prop) (R : σ → τ → Prop)
    (commit : σ → α → List β) : Prop where
  along : ∀ {s a e}, R s a → P s e → A.Along Q a (commit s e)
  step : ∀ {s a e t}, R s a → P s e → C.step s e = .ok t → ∃ b, A.exec a (commit s e) = .ok b ∧ R t b
  fault : ∀ {s a e x}, R s a → P s e → C.step s e = .error x → ∃ y, A.exec a (commit s e) = .error y

namespace Simulation

variable {C : System σ α ε} {P : σ → α → Prop} {A : System τ β δ} {Q : τ → β → Prop} {R : σ → τ → Prop}
  {commit : σ → α → List β} (S : Simulation C P A Q R commit)

include S

/-- From related states on, a run is the run of the events that it commits: it ends in related states, or fails when
that run fails. -/
theorem commits {s : σ} {a : τ} {es : List α} (hR : R s a) (h : C.Along P s es) :
    A.Along Q a (C.commits commit s es) ∧
      (∀ t, C.exec s es = .ok t → ∃ b, A.exec a (C.commits commit s es) = .ok b ∧ R t b) ∧
      ∀ x, C.exec s es = .error x → ∃ y, A.exec a (C.commits commit s es) = .error y := by
  induction es generalizing s a with
  | nil =>
    refine ⟨trivial, fun t ht => ⟨a, rfl, ?_⟩, fun x hx => ?_⟩
    · obtain rfl : s = t := by simpa using ht
      exact hR
    · simp at hx
  | cons e es ih =>
    obtain ⟨he, hrest⟩ := h
    have hal := S.along hR he
    cases hs : C.step s e with
    | error x =>
      obtain ⟨y, hy⟩ := S.fault hR he hs
      rw [System.commits_cons_error hs, System.exec_cons_error hs]
      refine ⟨hal, fun t ht => ?_, fun _ _ => ⟨y, hy⟩⟩
      cases ht
    | ok u =>
      obtain ⟨b, hb, hRu⟩ := S.step hR he hs
      obtain ⟨hal', hok, herror⟩ := ih hRu (hrest u hs)
      rw [System.commits_cons_ok hs, System.exec_cons_ok hs, System.exec_append hb]
      refine ⟨System.along_append.2 ⟨hal, fun v hv => ?_⟩, hok, herror⟩
      obtain rfl : b = v := by simpa [hb] using hv
      exact hal'

end Simulation

end Runs
