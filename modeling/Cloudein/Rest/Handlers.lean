import Cloudein.Lib.Run
import Cloudein.Rest.TxStore

/-!
# Handlers and the state checker, interleaved

The handlers of different requests run concurrently: `recvdata_copy` of a request and its section under the lock are
two steps with the steps of other handlers and passes of the checker between them.  A handler whose copy throws is
done.  The only stream a pass may write to is `fd_log`, which is never opened, so a pass completes exactly when the
clock is not behind the entries it tests.
-/

namespace Cloudein.Rest

open Runs

/-- Where the handler of a request is. -/
inductive HandlerPc where
  | idle
  | copied
  | done
deriving DecidableEq, Repr

structure Handlers where
  store : TxStore
  pc : Nat → HandlerPc

/-- The two steps of the handler of a request `i`, `recvdata_copy` and the section under the lock, and a pass. -/
inductive RestEvent where
  | copy (i : Nat) (body : JsonValue)
  | save (i : Nat) (now : Int)
  | pass (now : Nat → Int)

namespace Handlers

def init : Handlers := ⟨.init, fun _ => .idle⟩

def copy (i : Nat) (body : JsonValue) (s : Handlers) : Handlers :=
  let r := s.store.recvdataCopy body
  { store := r.1, pc := Function.update s.pc i (if r.2.isNone then .copied else .done) }

def save (i : Nat) (now : Int) (s : Handlers) : Handlers :=
  { store := s.store.saveSection now, pc := Function.update s.pc i .done }

def pass (now : Nat → Int) (s : Handlers) : Except Fault Handlers :=
  (s.store.stateCheckerLoop now).map fun store => { s with store := store }

end Handlers

/-- The steps that may happen: the lock is held by one thread at a time. -/
def restSystem : System Handlers RestEvent Fault where
  enabled s
    | .copy i _ => s.pc i = .idle
    | .save i _ => s.pc i = .copied ∧ s.store.txInfoListLock = false
    | .pass _ => s.store.txInfoListLock = false
  step s
    | .copy i body => .ok (s.copy i body)
    | .save i now => .ok (s.save i now)
    | .pass now => s.pass now

instance (s : Handlers) : ∀ e, Decidable (restSystem.enabled s e)
  | .copy i _ => inferInstanceAs (Decidable (s.pc i = .idle))
  | .save i _ => inferInstanceAs (Decidable (s.pc i = .copied ∧ s.store.txInfoListLock = false))
  | .pass _ => inferInstanceAs (Decidable (s.store.txInfoListLock = false))

/-! ### Passes of the checker complete -/

/-- The event does not write to a stream that is not open, and leaves the lock free. -/
def Completes (s : Handlers) (e : RestEvent) : Prop :=
  ∃ s', restSystem.step s e = .ok s' ∧ s'.store.txInfoListLock = false

/-- A pass does not test an entry whose time is ahead of the clock. -/
def ReadsClockForward (s : Handlers) : RestEvent → Prop
  | .pass now => ClockNotBehind now s.store.txInfoList
  | _ => True

/-- Between two steps the lock is free, and `fd_log` is null as it was in the beginning. -/
structure Handlers.Quiet (s : Handlers) : Prop where
  lock : s.store.txInfoListLock = false
  fdLog : s.store.fdLogOpen = false

theorem Handlers.pass_ok {s s' : Handlers} {now : Nat → Int} (h : s.pass now = .ok s') :
    ∃ l, checkEntries s.store.fdLogOpen now s.store.txInfoList = .ok l ∧
      s' = { s with store := { s.store with txInfoList := l, txInfoListLock := false } } := by
  exact TxStore.map_stateCheckerLoop h

theorem Handlers.Quiet.step {s s' : Handlers} (h : s.Quiet) {e : RestEvent} (hs : restSystem.step s e = .ok s') :
    s'.Quiet := by
  cases e with
  | copy i body =>
    cases hs
    exact ⟨h.lock, h.fdLog⟩
  | save i now =>
    cases hs
    exact ⟨rfl, h.fdLog⟩
  | pass now =>
    obtain ⟨l, -, rfl⟩ := Handlers.pass_ok hs
    exact ⟨rfl, h.fdLog⟩

theorem Handlers.Quiet.completes_iff {s : Handlers} (h : s.Quiet) (e : RestEvent) :
    Completes s e ↔ ReadsClockForward s e := by
  cases e with
  | copy i body => exact iff_of_true ⟨_, rfl, h.lock⟩ trivial
  | save i now => exact iff_of_true ⟨_, rfl, rfl⟩ trivial
  | pass now =>
    have hiff : (∃ l, checkEntries false now s.store.txInfoList = .ok l) ↔ ClockNotBehind now s.store.txInfoList :=
      checkEntries_ok_iff
    constructor
    · rintro ⟨s', hs, -⟩
      obtain ⟨l, hl, -⟩ := Handlers.pass_ok hs
      rw [h.fdLog] at hl
      exact hiff.1 ⟨l, hl⟩
    · intro hclock
      obtain ⟨l, hl⟩ := hiff.2 hclock
      refine ⟨{ s with store := { s.store with txInfoList := l, txInfoListLock := false } }, ?_, rfl⟩
      simp only [restSystem, Handlers.pass, TxStore.stateCheckerLoop_eq, h.fdLog, hl, Except.map]

/-- In every run every pass completes and releases the lock exactly when no pass tests an entry whose time is ahead of
the clock. -/
theorem passes_complete_iff {es : List RestEvent} (h : restSystem.Allowed .init es) :
    restSystem.Along Completes .init es ↔ restSystem.Along ReadsClockForward .init es :=
  System.along_congr (I := Handlers.Quiet) ⟨rfl, rfl⟩ (fun _ _ hu _ => hu.completes_iff _)
    (fun _ _ _ hu _ _ ht => hu.step ht) h

def clockSetBack : List RestEvent := [.copy 0 (requestBody "10.0.0.1" "1"), .save 0 100, .pass fun _ => 99]

theorem clockSetBack_stops_pass : ¬ ∀ es, restSystem.Allowed .init es → restSystem.Along Completes .init es := by
  intro h
  obtain ⟨s', hs', -⟩ := (h clockSetBack (by decide)).at (q := [])
    (p := [RestEvent.copy 0 (requestBody "10.0.0.1" "1"), RestEvent.save 0 100]) rfl
  cases hs'

def clockForward : List RestEvent := [.copy 0 (requestBody "10.0.0.1" "1"), .save 0 100, .pass fun _ => 111]

theorem passes_complete_clockForward :
    restSystem.Along Completes .init clockForward ↔ restSystem.Along ReadsClockForward .init clockForward :=
  passes_complete_iff (by decide)

end Cloudein.Rest
