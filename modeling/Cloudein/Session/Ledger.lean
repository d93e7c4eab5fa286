import Cloudein.Session.Client

/-!
# Every allocation is live or deleted once

`Ledger` relates the heap, the number of allocations made and the record of deletions: the serial numbers of the
live structs and of the deleted ones are, without repetition, the numbers of all allocations.  Only `new` and
`delete` touch the three.
-/

namespace Cloudein

def Client.deletedSerials (c : Client) : List Nat := c.deleted.map Deleted.serial

/-- Each allocation so far is either one live struct or one deletion. -/
structure Client.Ledger (c : Client) : Prop where
  fresh : ∀ a call, c.heap a = some call → call.serial < c.nextSerial ∧ call.serial ∉ c.deletedSerials
  unique : ∀ a b call call', c.heap a = some call → c.heap b = some call' → call.serial = call'.serial → a = b
  nodup : c.deletedSerials.Nodup
  bound : ∀ n ∈ c.deletedSerials, n < c.nextSerial
  total : ∀ n < c.nextSerial, n ∈ c.deletedSerials ∨ ∃ a call, c.heap a = some call ∧ call.serial = n

namespace Client

theorem ledger_init : init.Ledger := by
  constructor <;> simp [init, deletedSerials]

theorem Ledger.congr {c c' : Client} (h : c.Ledger) (hheap : c'.heap = c.heap) (hnext : c'.nextSerial = c.nextSerial)
    (hdel : c'.deleted = c.deleted) : c'.Ledger := by
  obtain ⟨h1, h2, h3, h4, h5⟩ := h
  constructor <;> simp only [deletedSerials, hheap, hnext, hdel] <;> assumption

theorem Ledger.newCall {c : Client} (h : c.Ledger) (f : DoFn) (now : Int) {a : Addr} (ha : c.heap a = none) :
    (c.newCall f now a).Ledger := by
  have hne : ∀ b call, c.heap b = some call → b ≠ a := by
    rintro b call hb rfl
    rw [ha] at hb
    cases hb
  constructor
  · intro b call hb
    by_cases hba : b = a
    · subst hba
      obtain rfl : _ = call := by simpa [Client.newCall] using hb
      exact ⟨Nat.lt_succ_self _, fun hd => Nat.lt_irrefl _ (h.bound _ hd)⟩
    · obtain ⟨h1, h2⟩ := h.fresh b call (by simpa [Client.newCall, hba] using hb)
      exact ⟨Nat.lt_succ_of_lt h1, h2⟩
  · intro b b' call call' hb hb' hs
    by_cases hba : b = a <;> by_cases hba' : b' = a
    · rw [hba, hba']
    · obtain rfl : _ = call := by simpa [Client.newCall, hba] using hb
      have := (h.fresh b' call' (by simpa [Client.newCall, hba'] using hb')).1
      exact absurd hs (Nat.ne_of_gt this)
    · obtain rfl : _ = call' := by simpa [Client.newCall, hba'] using hb'
      have := (h.fresh b call (by simpa [Client.newCall, hba] using hb)).1
      exact absurd hs (Nat.ne_of_lt this)
    · exact h.unique b b' call call' (by simpa [Client.newCall, hba] using hb)
        (by simpa [Client.newCall, hba'] using hb') hs
  · exact h.nodup
  · exact fun n hn => Nat.lt_succ_of_lt (h.bound n hn)
  · intro n hn
    rcases Nat.lt_succ_iff_lt_or_eq.1 hn with hn | rfl
    · rcases h.total n hn with hd | ⟨b, call, hb, rfl⟩
      · exact Or.inl hd
      · exact Or.inr ⟨b, call, by simp [Client.newCall, hne b call hb, hb], rfl⟩
    · exact Or.inr ⟨a, ⟨f.api, now + 5000, c.nextSerial⟩, by simp [Client.newCall], rfl⟩

theorem Ledger.freed {c : Client} (h : c.Ledger) {a : Addr} {call : AsyncClientCall} (ha : c.heap a = some call)
    (as : Option Api) : (c.freed a as call).Ledger := by
  have hlive : ∀ {b call'}, (c.freed a as call).heap b = some call' → b ≠ a ∧ c.heap b = some call' := by
    intro b call' hb
    by_cases hba : b = a
    · subst hba
      simp [Client.freed] at hb
    · exact ⟨hba, by simpa [Client.freed, hba] using hb⟩
  have hserials : ∀ n, n ∈ (c.freed a as call).deletedSerials ↔ n ∈ c.deletedSerials ∨ n = call.serial := by
    simp [Client.freed, deletedSerials, eq_comm]
  constructor
  · intro b call' hb
    obtain ⟨hba, hb⟩ := hlive hb
    obtain ⟨h1, h2⟩ := h.fresh b call' hb
    refine ⟨h1, fun hn => ?_⟩
    rcases (hserials _).1 hn with hn | hn
    · exact h2 hn
    · exact hba (h.unique b a call' call hb ha hn)
  · intro b b' call' call'' hb hb' hs
    exact h.unique b b' call' call'' (hlive hb).2 (hlive hb').2 hs
  · simp only [deletedSerials, Client.freed, List.map_append, List.map_cons, List.map_nil]
    exact KeyedList.nodup_push h.nodup (h.fresh a call ha).2
  · intro n hn
    rcases (hserials n).1 hn with hn | rfl
    · exact h.bound n hn
    · exact (h.fresh a call ha).1
  · intro n hn
    rcases h.total n hn with hd | ⟨b, call', hb, rfl⟩
    · exact Or.inl ((hserials n).2 (Or.inl hd))
    · by_cases hba : b = a
      · subst hba
        obtain rfl : call' = call := by simpa [ha] using hb.symm
        exact Or.inl ((hserials _).2 (Or.inr rfl))
      · exact Or.inr ⟨b, call', by simp [Client.freed, hba, hb], rfl⟩

/-- When nothing is live, every allocation was deleted exactly once. -/
theorem Ledger.count_eq_one {c : Client} (h : c.Ledger) (hnone : ∀ a, c.heap a = none) {n : Nat}
    (hn : n < c.nextSerial) : c.deletedSerials.count n = 1 := by
  rcases h.total n hn with hd | ⟨a, call, ha, -⟩
  · exact List.count_eq_one_of_mem h.nodup hd
  · rw [hnone] at ha
    cases ha

end Client

end Cloudein
