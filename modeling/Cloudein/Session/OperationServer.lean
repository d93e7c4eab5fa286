import Cloudein.Lib.Run

/-!
# Start and stop of the operation server

The main thread spawns the thread of `StartSyncSingleRPC` in `set_ST_gRPC` and later stops it in `unsetGRPC`:
`StopSyncSingleRPC` calls `server->Shutdown()`, and the thread is joined.  The spawned thread stores the result of
`BuildAndStart` in `server` and calls `server->Wait()`, which returns once the server is shut down.  Nothing orders
the store before the stop, and `BuildAndStart` returns null when the address cannot be bound.
-/

namespace Cloudein

open Runs

/-- Where the main thread is: `spawned` after `set_ST_gRPC`, and `joining` after `StopSyncSingleRPC`. -/
inductive MainPc where
  | start
  | spawned
  | joining
  | joined
deriving DecidableEq, Repr

/-- Where the spawned thread is in `StartSyncSingleRPC`: `BuildAndStart` has returned a running server or null in
`built`, and the result is in `server` from `stored` on. -/
inductive ServerPc where
  | notStarted
  | building
  | built (running : Bool)
  | stored
  | waiting
  | returned
deriving DecidableEq, Repr

/-- The positions of the threads, whether the pointer `server` is set and whether the server was shut down. -/
structure OperationServer where
  main : MainPc
  thread : ServerPc
  server : Bool
  shutdown : Bool
deriving DecidableEq, Repr

inductive OperationEvent where
  | spawn
  /-- `BuildAndStart` returns a running server or null -/
  | build (running : Bool)
  | store
  | wait
  | waitReturns
  | stop
  | join
deriving DecidableEq, Repr

inductive OperationFault where
  | nullServer
deriving DecidableEq, Repr

namespace OperationServer

def init : OperationServer := ⟨.start, .notStarted, false, false⟩

/-- `server->Wait()` on the pointer as it is. -/
def callWait (s : OperationServer) : Except OperationFault OperationServer :=
  if s.server then .ok { s with thread := .waiting } else .error .nullServer

/-- `server->Shutdown()` on the pointer as it is. -/
def stopSyncSingleRpc (s : OperationServer) : Except OperationFault OperationServer :=
  if s.server then .ok { s with main := .joining, shutdown := true } else .error .nullServer

end OperationServer

/-- The steps the two threads may take; `Wait` returns only after `Shutdown`, and `join` only after the thread has. -/
def operationSystem : System OperationServer OperationEvent OperationFault where
  enabled s
    | .spawn => s.main = .start
    | .build _ => s.thread = .building
    | .store => ∃ r, s.thread = .built r
    | .wait => s.thread = .stored
    | .waitReturns => s.thread = .waiting ∧ s.shutdown = true
    | .stop => s.main = .spawned
    | .join => s.main = .joining ∧ s.thread = .returned
  step s
    | .spawn => .ok { s with main := .spawned, thread := .building }
    | .build r => .ok { s with thread := .built r }
    | .store => match s.thread with
      | .built r => .ok { s with thread := .stored, server := r }
      | _ => .ok s
    | .wait => s.callWait
    | .waitReturns => .ok { s with thread := .returned }
    | .stop => s.stopSyncSingleRpc
    | .join => .ok { s with main := .joined }

instance (s : OperationServer) : ∀ e, Decidable (operationSystem.enabled s e)
  | .spawn => inferInstanceAs (Decidable (s.main = .start))
  | .build _ => inferInstanceAs (Decidable (s.thread = .building))
  | .store => match h : s.thread with
    | .built r => .isTrue ⟨r, h⟩
    | .notStarted => .isFalse fun ⟨_, h'⟩ => by cases h.symm.trans h'
    | .building => .isFalse fun ⟨_, h'⟩ => by cases h.symm.trans h'
    | .stored => .isFalse fun ⟨_, h'⟩ => by cases h.symm.trans h'
    | .waiting => .isFalse fun ⟨_, h'⟩ => by cases h.symm.trans h'
    | .returned => .isFalse fun ⟨_, h'⟩ => by cases h.symm.trans h'
  | .wait => inferInstanceAs (Decidable (s.thread = .stored))
  | .waitReturns => inferInstanceAs (Decidable (s.thread = .waiting ∧ s.shutdown = true))
  | .stop => inferInstanceAs (Decidable (s.main = .spawned))
  | .join => inferInstanceAs (Decidable (s.main = .joining ∧ s.thread = .returned))

/-- The main thread is blocked in `join` while the other thread waits on a server that nobody has shut down. -/
def OperationServer.Deadlocked (s : OperationServer) : Prop :=
  s.main = .joining ∧ s.thread = .waiting ∧ s.shutdown = false

def OperationServer.Finished (s : OperationServer) : Prop := ∀ e, ¬ operationSystem.enabled s e

/-- No thread dereferences a null server, and no state reached is deadlocked. -/
def StartStopSafe (es : List OperationEvent) : Prop :=
  (∃ s, operationSystem.exec .init es = .ok s) ∧
    ∀ p q s, es = p ++ q → operationSystem.exec .init p = .ok s → ¬ s.Deadlocked

/-- `BuildAndStart` returns a running server, and `StopSyncSingleRPC` is called only after the result was stored. -/
def Orderly (s : OperationServer) : OperationEvent → Prop
  | .build running => running = true
  | .stop => s.thread = .stored ∨ s.thread = .waiting ∨ s.thread = .returned
  | _ => True

instance (s : OperationServer) : ∀ e, Decidable (Orderly s e)
  | .build running => inferInstanceAs (Decidable (running = true))
  | .stop => inferInstanceAs (Decidable (s.thread = .stored ∨ s.thread = .waiting ∨ s.thread = .returned))
  | .spawn | .store | .wait | .waitReturns | .join => .isTrue trivial

namespace OperationServer

/-- `unsetGRPC` joins only after `Shutdown`, and `server` is null until the result is stored. -/
structure Inv (s : OperationServer) : Prop where
  start : s.main = .start → s.thread = .notStarted
  joining : s.main = .joining → s.shutdown = true
  server : s.server = true → s.thread = .stored ∨ s.thread = .waiting ∨ s.thread = .returned
  waited : s.thread = .waiting ∨ s.thread = .returned → s.server = true

private theorem inv_init : init.Inv := ⟨by decide, by decide, by decide, by decide⟩

private theorem callWait_ok {s s' : OperationServer} (h : s.callWait = .ok s') :
    s.server = true ∧ s' = { s with thread := .waiting } := by
  unfold callWait at h
  split at h
  · exact ⟨‹_›, (Except.ok.inj h).symm⟩
  · cases h

private theorem stop_ok {s s' : OperationServer} (h : s.stopSyncSingleRpc = .ok s') :
    s.server = true ∧ s' = { s with main := .joining, shutdown := true } := by
  unfold stopSyncSingleRpc at h
  split at h
  · exact ⟨‹_›, (Except.ok.inj h).symm⟩
  · cases h

theorem Inv.step {s s' : OperationServer} (h : s.Inv) {e : OperationEvent} (he : operationSystem.enabled s e)
    (hs : operationSystem.step s e = .ok s') : s'.Inv := by
  obtain ⟨h0, h1, h2, h3⟩ := h
  cases e with
  | spawn =>
    cases hs
    have ht : s.thread = .notStarted := h0 he
    refine ⟨by simp, by simp, fun hr => ?_, by simp⟩
    simpa [ht] using h2 hr
  | build r =>
    cases hs
    have he : s.thread = .building := he
    refine ⟨fun hm => ?_, h1, fun hr => ?_, by simp⟩
    · simpa [he] using h0 hm
    · simpa [he] using h2 hr
  | store =>
    obtain ⟨r, hr⟩ := he
    simp only [operationSystem, hr, Except.ok.injEq] at hs
    subst hs
    refine ⟨fun hm => ?_, h1, by simp, by simp⟩
    simpa [hr] using h0 hm
  | wait =>
    obtain ⟨hr, rfl⟩ := callWait_ok hs
    have he : s.thread = .stored := he
    refine ⟨fun hm => ?_, h1, by simp, by simp [hr]⟩
    simpa [he] using h0 hm
  | waitReturns =>
    cases hs
    refine ⟨fun hm => ?_, h1, by simp, fun _ => h3 (Or.inl he.1)⟩
    simpa [he.1] using h0 hm
  | stop =>
    obtain ⟨hr, rfl⟩ := stop_ok hs
    exact ⟨by simp, by simp, h2, h3⟩
  | join =>
    cases hs
    exact ⟨by simp, by simp, h2, h3⟩

/-- The other thread holds a null result, or is about to wait on it. -/
def HoldsNull (s : OperationServer) : Prop := s.thread = .built false ∨ s.thread = .stored ∧ s.server = false

theorem HoldsNull.step {s s' : OperationServer} (h : s.HoldsNull) {e : OperationEvent}
    (he : operationSystem.enabled s e) (hstart : s.main = .start → s.thread = .notStarted)
    (hs : operationSystem.step s e = .ok s') : s'.HoldsNull := by
  cases e with
  | spawn =>
    have ht : s.thread = .notStarted := hstart he
    rcases h with h | ⟨h, -⟩ <;> simp [ht] at h
  | build r =>
    have he : s.thread = .building := he
    rcases h with h | ⟨h, -⟩ <;> simp [he] at h
  | store =>
    obtain ⟨r, hr⟩ := he
    rcases h with h | ⟨h, -⟩
    · obtain rfl : r = false := by simpa [hr] using h
      simp only [operationSystem, hr, Except.ok.injEq] at hs
      subst hs
      exact Or.inr ⟨rfl, rfl⟩
    · simp [hr] at h
  | wait =>
    have he : s.thread = .stored := he
    rcases h with h | ⟨-, h⟩
    · simp [he] at h
    · simp [(callWait_ok hs).1] at h
  | waitReturns => rcases h with h | ⟨h, -⟩ <;> simp [he.1] at h
  | stop =>
    obtain ⟨hr, rfl⟩ := stop_ok hs
    rcases h with h | ⟨-, h⟩
    · exact Or.inl h
    · simp [hr] at h
  | join => rcases h with h | ⟨h, -⟩ <;> simp [he.2] at h

private theorem finished_of_joined {s : OperationServer} (hm : s.main = .joined) (ht : s.thread = .returned) :
    s.Finished := by
  intro e
  cases e <;> simp [operationSystem, hm, ht]

private theorem HoldsNull.not_finished {s : OperationServer} (h : s.HoldsNull) : ¬ s.Finished := by
  intro hf
  rcases h with h | ⟨h, -⟩
  · exact hf .store ⟨false, h⟩
  · exact hf .wait h

/-- An orderly step succeeds when no null result is held, and lets none be held. -/
theorem Inv.orderly_step {s : OperationServer} (h : s.Inv) (hn : ¬ s.HoldsNull) {e : OperationEvent}
    (he : operationSystem.enabled s e) (ho : Orderly s e) :
    ∃ s', operationSystem.step s e = .ok s' ∧ s'.Inv ∧ ¬ s'.HoldsNull := by
  have hstored : s.thread = .stored → s.server = true := by
    intro ht
    by_contra hr
    exact hn (Or.inr ⟨ht, by simpa using hr⟩)
  suffices hok : ∃ s', operationSystem.step s e = .ok s' ∧ ¬ s'.HoldsNull by
    obtain ⟨s', hs, hn'⟩ := hok
    exact ⟨s', hs, h.step he hs, hn'⟩
  cases e with
  | spawn => exact ⟨_, rfl, by simp [HoldsNull]⟩
  | build r =>
    have ho : r = true := ho
    exact ⟨_, rfl, by simp [HoldsNull, ho]⟩
  | store =>
    obtain ⟨r, hr⟩ := he
    have hrt : r ≠ false := by
      rintro rfl
      exact hn (Or.inl hr)
    exact ⟨{ s with thread := .stored, server := r }, by simp only [operationSystem, hr], by simp [HoldsNull, hrt]⟩
  | wait =>
    exact ⟨_, by simp only [operationSystem, callWait, hstored he, if_true]; rfl, by simp [HoldsNull]⟩
  | waitReturns => exact ⟨_, rfl, by simp [HoldsNull]⟩
  | stop =>
    have hr : s.server = true := by
      rcases ho with ht | ht
      · exact hstored ht
      · exact h.waited ht
    exact ⟨{ s with main := .joining, shutdown := true },
      by simp only [operationSystem, stopSyncSingleRpc, hr, if_true], hn⟩
  | join => exact ⟨_, rfl, hn⟩

/-- After a disorderly step that succeeds a null result is held. -/
theorem Inv.disorderly_step {s s' : OperationServer} (h : s.Inv) {e : OperationEvent} (ho : ¬ Orderly s e)
    (hs : operationSystem.step s e = .ok s') : s'.HoldsNull := by
  cases e with
  | build r =>
    cases hs
    have ho : r = false := by simpa [Orderly] using ho
    exact Or.inl (by rw [ho])
  | stop => exact absurd (h.server (stop_ok hs).1) ho
  | spawn | store | wait | waitReturns | join => exact absurd trivial ho

end OperationServer

theorem operation_inv {es : List OperationEvent} (h : operationSystem.Allowed .init es) {s : OperationServer}
    (hs : operationSystem.exec .init es = .ok s) : s.Inv :=
  System.exec_inv OperationServer.inv_init (fun _ _ _ hu he ht => hu.step he ht) h hs

/-- The main thread never joins before the shutdown, so no state is deadlocked. -/
theorem operation_not_deadlocked {es : List OperationEvent} (h : operationSystem.Allowed .init es)
    {s : OperationServer} (hs : operationSystem.exec .init es = .ok s) : ¬ s.Deadlocked := by
  rintro ⟨hm, -, hd⟩
  rw [(operation_inv h hs).joining hm] at hd
  cases hd

/-- A run that ends without a failed step was orderly. -/
theorem orderly_of_finished {es : List OperationEvent} (h : operationSystem.Allowed .init es) {s : OperationServer}
    (hs : operationSystem.exec .init es = .ok s) (hf : s.Finished) : operationSystem.Along Orderly .init es := by
  rw [System.along_iff]
  rintro p e q u rfl hu
  by_contra ho
  have hinv := operation_inv h.left hu
  obtain ⟨u', hu', hq⟩ := System.exec_append_ok (p := p ++ [e]) (q := q) (by simpa using hs)
  rw [System.exec_append hu, System.exec_single] at hu'
  have hallowed : operationSystem.Allowed u' q := ((System.along_append.1 h).2 u hu).2 u' hu'
  have hnull : s.Inv ∧ s.HoldsNull := by
    refine System.exec_inv (I := fun s => s.Inv ∧ s.HoldsNull) ⟨?_, hinv.disorderly_step ho hu'⟩
      (fun v f t hv hf' ht => ⟨hv.1.step hf' ht, hv.2.step hf' hv.1.start ht⟩) hallowed hq
    exact hinv.step (h.at hu) hu'
  exact hnull.2.not_finished hf

/-- A run whose steps are orderly is safe, and a run that goes on until no step is left is safe only then. -/
theorem startStop_safe_iff {es : List OperationEvent} (h : operationSystem.Allowed .init es) :
    (operationSystem.Along Orderly .init es → StartStopSafe es) ∧
      ((∀ s, operationSystem.exec .init es = .ok s → s.Finished) →
        (StartStopSafe es ↔ operationSystem.Along Orderly .init es)) := by
  have hsafe : operationSystem.Along Orderly .init es → StartStopSafe es := by
    intro ho
    obtain ⟨s, hs, -⟩ := System.exec_safe_of (I := fun s : OperationServer => s.Inv ∧ ¬ s.HoldsNull)
      ⟨OperationServer.inv_init, by simp [OperationServer.HoldsNull, OperationServer.init]⟩
      (fun u e hu he hg => hu.1.orderly_step hu.2 he hg) h ho
    refine ⟨⟨s, hs⟩, ?_⟩
    rintro p q s rfl hp
    exact operation_not_deadlocked h.left hp
  refine ⟨hsafe, fun hend => ⟨fun hs => ?_, hsafe⟩⟩
  obtain ⟨s, hs⟩ := hs.1
  exact orderly_of_finished h hs (hend s hs)

/-- The server is stopped before it is stored, or was never built: a null pointer is dereferenced either way. -/
theorem startStop_null_server :
    (operationSystem.Allowed .init [.spawn, .stop] ∧ ¬ StartStopSafe [.spawn, .stop]) ∧
      operationSystem.Allowed .init [.spawn, .build false, .store, .wait] ∧
      ¬ StartStopSafe [.spawn, .build false, .store, .wait] := by
  refine ⟨⟨by decide, ?_⟩, by decide, ?_⟩
  · rintro ⟨⟨s, hs⟩, -⟩
    cases hs
  · rintro ⟨⟨s, hs⟩, -⟩
    cases hs

def orderlyRun : List OperationEvent := [.spawn, .build true, .store, .wait, .stop, .waitReturns, .join]

theorem startStop_safe_orderlyRun :
    StartStopSafe orderlyRun ∧ (StartStopSafe orderlyRun ↔ operationSystem.Along Orderly .init orderlyRun) := by
  have h := startStop_safe_iff (show operationSystem.Allowed .init orderlyRun by decide)
  refine ⟨h.1 (by decide), h.2 fun s hs => ?_⟩
  cases hs
  exact OperationServer.finished_of_joined rfl rfl

end Cloudein
