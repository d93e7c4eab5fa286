import Cloudein.Lib.Run
import Mathlib.Logic.Function.Basic

/-!
# Lease tables

A lease table maps keys to leases: the data of the request that took the lease and the time at which it was last
renewed.  `configure` takes a lease or renews the one there is, and a lease may expire when its last renewal is more
than `limit` ago.  In every run the time of a lease is that of the last configuration of its key (`renewed_eq`).
-/

namespace Lease

open Runs

structure Entry (δ : Type) where
  data : δ
  renewed : Int

abbrev Table (κ δ : Type) := κ → Option (Entry δ)

inductive Event (κ δ : Type) where
  | configure (k : κ) (d : δ) (now : Int)
  | expire (k : κ) (now : Int)

variable {κ δ : Type} [DecidableEq κ]

def Table.empty : Table κ δ := fun _ => none

def Table.configure (T : Table κ δ) (k : κ) (d : δ) (now : Int) : Table κ δ :=
  Function.update T k (some ⟨((T k).map Entry.data).getD d, now⟩)

/-- A lease expires only when its last renewal is more than `limit` ago. -/
def system (limit : Int) : System (Table κ δ) (Event κ δ) Empty where
  enabled T
    | .configure _ _ _ => True
    | .expire k now => ∃ e, T k = some e ∧ limit < now - e.renewed
  step T
    | .configure k d now => .ok (T.configure k d now)
    | .expire k _ => .ok (Function.update T k none)

def renewals (es : List (Event κ δ)) : List (κ × Int) :=
  es.filterMap fun
    | .configure k _ now => some (k, now)
    | .expire _ _ => none

def lastRenewal (k : κ) (rs : List (κ × Int)) : Option Int := ((rs.filter fun r => r.1 = k).map Prod.snd).getLast?

private theorem lastRenewal_concat (k : κ) (rs : List (κ × Int)) (r : κ × Int) :
    lastRenewal k (rs ++ [r]) = if r.1 = k then some r.2 else lastRenewal k rs := by
  unfold lastRenewal
  by_cases h : r.1 = k <;> simp [h]

/-- A lease was last renewed by the last configuration of its key. -/
theorem renewed_eq {limit : Int} {es : List (Event κ δ)} {T : Table κ δ} (h : (system limit).Allowed .empty es)
    (hT : (system limit).exec .empty es = .ok T) {k : κ} {e : Entry δ} (hk : T k = some e) :
    lastRenewal k (renewals es) = some e.renewed := by
  refine System.exec_hist (I := fun es T => ∀ k e, T k = some e → lastRenewal k (renewals es) = some e.renewed)
    (fun k e hk => by cases hk) (fun p U a V hU _ hV k e hk => ?_) h hT k e hk
  cases a with
  | configure k' d now =>
    obtain rfl : U.configure k' d now = V := by simpa [system] using hV
    have hrenewals : renewals (p ++ [Event.configure k' d now]) = renewals p ++ [(k', now)] := by simp [renewals]
    rw [hrenewals, lastRenewal_concat]
    by_cases hkk : k' = k
    · subst hkk
      obtain rfl : _ = e := by simpa [Table.configure] using hk
      rw [if_pos rfl]
    · rw [if_neg hkk]
      exact hU k e (by simpa [Table.configure, Ne.symm hkk] using hk)
  | expire k' now =>
    obtain rfl : Function.update U k' none = V := by simpa [system] using hV
    have hrenewals : renewals (p ++ [Event.expire k' now]) = renewals p := by simp [renewals]
    have hkk : k ≠ k' := by
      rintro rfl
      simp at hk
    rw [hrenewals]
    exact hU k e (by simpa [hkk] using hk)

end Lease
