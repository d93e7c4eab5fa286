import Cloudein.Lib.NodeList
import Cloudein.Rest.TxStore

/-!
# The state checker erases the expired entries

`state_checker_loop` goes through `tx_info_list` with an iterator, erases the node of the first expired entry and
leaves the loop, since the iterator is then invalid.  So one pass drops one entry, and all expired ones are gone after
as many passes.  The loop over the nodes computes what `checkEntries` does (`checkNodes_refines`); with a clock that
stands still a pass is `List.eraseP`, and enough passes are `List.filter`.
-/

namespace Cloudein.Rest

open NodeList

/-- What may go wrong in a pass: an iterator is used after its node was erased, or the warning of `diff_times_sec`. -/
inductive PassFault where
  | list (e : ListFault)
  | log (e : Fault)
deriving DecidableEq, Repr

/-- The tests of `state_checker_loop` on an entry, and whether it is to be erased. -/
def testEntry (fdLogOpen : Bool) (now : Int) (t : TxInfo) : Except Fault Bool :=
  if t.state = .init then
    (diffTimesSec fdLogOpen now t.initTime).map fun diff => decide (diff > 10)
  else if t.state = .ready then
    (diffTimesSec fdLogOpen now t.initTime).map fun diff => decide (diff > txInfoReadyTimeoutSec)
  else if t.state = .connected then
    (diffTimesSec fdLogOpen now t.initTime).map fun diff => decide (diff > txInfoKeepAliveTimeoutSec)
  else .ok false

/-- The loop of `state_checker_loop` from an iterator on, the `i`-th entry of the pass; `none` when it takes more
rounds than `fuel`. -/
def checkNodes (fdLogOpen : Bool) (now : Nat → Int) :
    Nat → Nat → Iter → Nodes TxInfo → Option (Except PassFault (Nodes TxInfo))
  | 0, _, _, _ => none
  | fuel + 1, i, itor, l =>
    if itor = none then some (.ok l)
    else match l.deref itor with
      | .error e => some (.error (.list e))
      | .ok t => match testEntry fdLogOpen (now i) t with
        | .error e => some (.error (.log e))
        -- `erase` and `break`
        | .ok true => some ((l.erase itor).mapError .list)
        | .ok false => match l.next itor with
          | .error e => some (.error (.list e))
          | .ok itor => checkNodes fdLogOpen now fuel (i + 1) itor l

/-- What `state_checker_loop` works on, with the nodes of `tx_info_list`. -/
structure NodeStore where
  txInfoList : Nodes TxInfo
  txInfoListLock : Bool
  fdLogOpen : Bool

namespace NodeStore

/-- A pass stands at every node at most once, and at `end()`. -/
def stateCheckerLoop (now : Nat → Int) (s : NodeStore) : Option (Except PassFault NodeStore) :=
  let s := { s with txInfoListLock := true }
  match checkNodes s.fdLogOpen now (s.txInfoList.nodes.length + 1) 0 s.txInfoList.begin s.txInfoList with
  | none => none
  | some (.error e) => some (.error e)
  | some (.ok l) => some (.ok { s with txInfoList := l, txInfoListLock := false })

/-- The globals as the handlers see them, with the record `tx_received`. -/
def store (s : NodeStore) (txReceived : TxInfo) : TxStore :=
  ⟨txReceived, s.txInfoList.values, s.txInfoListLock, s.fdLogOpen⟩

/-- The loop of `state_checker`, as many passes as it is let to make, with the clock at one reading. -/
def stateChecker (now : Int) : Nat → NodeStore → Option (Except PassFault NodeStore)
  | 0, s => some (.ok s)
  | n + 1, s => match s.stateCheckerLoop fun _ => now with
    | some (.ok s) => stateChecker now n s
    | r => r

end NodeStore

/-! ### The loop over the nodes and the loop over the entries -/

theorem testEntry_eq (fdLogOpen : Bool) (now : Int) (t : TxInfo) :
    testEntry fdLogOpen now t = match t.state.timeoutSec with
      | none => .ok false
      | some limit => (diffTimesSec fdLogOpen now t.initTime).map fun diff => decide (diff > limit) := by
  unfold testEntry
  cases t.state <;> rfl

theorem checkEntries_cons (fdLogOpen : Bool) (now : Nat → Int) (t : TxInfo) (l : List TxInfo) :
    checkEntries fdLogOpen now (t :: l) = match testEntry fdLogOpen (now 0) t with
      | .error e => .error e
      | .ok true => .ok l
      | .ok false => (checkEntries fdLogOpen (fun i => now (i + 1)) l).map (t :: ·) := by
  rw [testEntry_eq, checkEntries]
  cases t.state.timeoutSec with
  | none => rfl
  | some limit =>
    cases diffTimesSec fdLogOpen (now 0) t.initTime with
    | error e => rfl
    | ok diff => by_cases hdiff : diff > limit <;> simp [hdiff, Except.map]

section

variable (fdLogOpen : Bool) (now : Nat → Int) {l : Nodes TxInfo} {pre post : List (Nat × TxInfo)} {a : Nat}
    {t : TxInfo}

/-- One round of the loop at a node. -/
theorem checkNodes_at (h : l.nodes = pre ++ (a, t) :: post) (fuel i : Nat) :
    checkNodes fdLogOpen now (fuel + 1) i (some a) l = match testEntry fdLogOpen (now i) t with
      | .error e => some (.error (.log e))
      | .ok true => some (.ok (l.remove a))
      | .ok false => checkNodes fdLogOpen now fuel (i + 1) (first post) l := by
  rw [checkNodes, if_neg (by simp), Nodes.deref_at h, Nodes.erase_at h, Nodes.next_at h]
  rfl

/-- From any node on, the loop leaves the nodes of the entries that `checkEntries` leaves, and fails only when it
does: no iterator is used after its node was erased. -/
theorem checkNodes_refines (h : l.nodes = pre ++ post) {fuel : Nat} (hfuel : post.length < fuel)
    (i : Nat) :
    (∃ e, checkNodes fdLogOpen now fuel i (first post) l = some (.error (.log e)) ∧
      checkEntries fdLogOpen (fun j => now (i + j)) (post.map Prod.snd) = .error e) ∨
    ∃ l' post', checkNodes fdLogOpen now fuel i (first post) l = some (.ok l') ∧ l'.nodes = pre ++ post' ∧
      checkEntries fdLogOpen (fun j => now (i + j)) (post.map Prod.snd) = .ok (post'.map Prod.snd) := by
  induction post generalizing pre fuel i with
  | nil =>
    obtain ⟨fuel, rfl⟩ := Nat.exists_eq_succ_of_ne_zero (Nat.ne_of_gt hfuel)
    exact Or.inr ⟨l, [], rfl, h, rfl⟩
  | cons p post ih =>
    obtain ⟨a, t⟩ := p
    obtain ⟨fuel, rfl⟩ := Nat.exists_eq_succ_of_ne_zero (Nat.ne_of_gt (Nat.zero_lt_of_lt hfuel))
    have hentries := checkEntries_cons fdLogOpen (fun j => now (i + j)) t (post.map Prod.snd)
    have hnodes := checkNodes_at fdLogOpen now h fuel i
    cases htest : testEntry fdLogOpen (now i) t with
    | error e =>
      simp only [Nat.add_zero, htest] at hentries hnodes
      exact Or.inl ⟨e, hnodes, hentries⟩
    | ok expired =>
      cases expired with
      | true =>
        simp only [Nat.add_zero, htest] at hentries hnodes
        -- The loop breaks, so the rest of the nodes is not visited after the erase.
        exact Or.inr ⟨l.remove a, post, hnodes, Nodes.remove_at h, hentries⟩
      | false =>
        simp only [Nat.add_zero, htest] at hentries hnodes
        -- Each test reads the clock once, so the rest of the pass starts one reading later.
        have hnext : (fun j => now (i + 1 + j)) = fun j => now (i + (j + 1)) := by
          funext j
          congr 1
          omega
        have hpassed : l.nodes = (pre ++ [(a, t)]) ++ post := by simpa using h
        rcases ih hpassed (Nat.lt_of_succ_lt_succ hfuel) (i + 1) with
          ⟨e, hrest, herr⟩ | ⟨l', post', hrest, hl', hok⟩
        · rw [hnext] at herr
          rw [herr] at hentries
          exact Or.inl ⟨e, hnodes.trans hrest, hentries⟩
        · rw [hnext] at hok
          rw [hok] at hentries
          exact Or.inr ⟨l', (a, t) :: post', hnodes.trans hrest, by simpa using hl', hentries⟩

end

/-- A pass over the nodes is a pass over the entries, whatever the clock reads. -/
theorem NodeStore.pass_refines (now : Nat → Int) (s : NodeStore) (r : TxInfo) :
    (∃ e, s.stateCheckerLoop now = some (.error (.log e)) ∧ (s.store r).stateCheckerLoop now = .error e) ∨
      ∃ s', s.stateCheckerLoop now = some (.ok s') ∧ (s.store r).stateCheckerLoop now = .ok (s'.store r) := by
  have hrefines := checkNodes_refines s.fdLogOpen now (List.nil_append s.txInfoList.nodes).symm
    (Nat.lt_succ_self _) 0
  simp only [Nat.zero_add] at hrefines
  rcases hrefines with ⟨e, hnodes, herr⟩ | ⟨l, post', hnodes, hl, hok⟩
  · refine Or.inl ⟨e, ?_, ?_⟩
    · simp only [stateCheckerLoop, Nodes.begin, hnodes]
    · simp only [TxStore.stateCheckerLoop_eq, store, Nodes.values, herr, Except.map]
  · refine Or.inr ⟨⟨l, false, s.fdLogOpen⟩, ?_, ?_⟩
    · simp only [stateCheckerLoop, Nodes.begin, hnodes]
    · simp only [TxStore.stateCheckerLoop_eq, store, Nodes.values, hok, hl, List.nil_append, Except.map]

/-! ### Passes with the clock at one reading -/

private theorem expired_of_timeout {now limit : Int} {t : TxInfo} (h : t.state.timeoutSec = some limit) :
    Expired now t ↔ now - t.initTime > limit := by
  simp [Expired, h]

instance (now : Int) (t : TxInfo) : Decidable (Expired now t) :=
  match h : t.state.timeoutSec with
  | none => .isFalse (by simp [Expired, h])
  | some _ => decidable_of_iff _ (expired_of_timeout h).symm

def expired (now : Int) (t : TxInfo) : Bool := decide (Expired now t)

private theorem testEntry_fixed {now : Int} {t : TxInfo} (h : t.initTime ≤ now) (fdLogOpen : Bool) :
    testEntry fdLogOpen now t = .ok (expired now t) := by
  rw [testEntry_eq, expired]
  cases hlimit : t.state.timeoutSec with
  | none => simp [Expired, hlimit]
  | some limit =>
    have hforward : ¬ now < t.initTime := by omega
    simp [expired_of_timeout hlimit, diffTimesSec, hforward, Except.map]

/-- A pass erases the first expired entry. -/
theorem checkEntries_fixed {now : Int} {l : List TxInfo} (h : ∀ t ∈ l, t.initTime ≤ now) (fdLogOpen : Bool) :
    checkEntries fdLogOpen (fun _ => now) l = .ok (l.eraseP (expired now)) := by
  induction l with
  | nil => rfl
  | cons t l ih =>
    rw [checkEntries_cons, testEntry_fixed (h t List.mem_cons_self), ih fun u hu => h u (List.mem_cons_of_mem t hu)]
    cases hexp : expired now t
    · rw [List.eraseP_cons_of_neg (by simp [hexp])]
      rfl
    · rw [List.eraseP_cons_of_pos hexp]

private theorem NodeStore.pass_fixed {now : Int} {s : NodeStore}
    (hclock : ∀ t ∈ s.txInfoList.values, t.initTime ≤ now) :
    ∃ l, s.stateCheckerLoop (fun _ => now) = some (.ok ⟨l, false, s.fdLogOpen⟩) ∧
      l.values = s.txInfoList.values.eraseP (expired now) := by
  have hstore : (s.store .zero).stateCheckerLoop (fun _ => now) =
      .ok ⟨.zero, s.txInfoList.values.eraseP (expired now), false, s.fdLogOpen⟩ := by
    simp only [TxStore.stateCheckerLoop_eq, store, checkEntries_fixed hclock, Except.map]
  rcases s.pass_refines (fun _ => now) .zero with ⟨e, -, herr⟩ | ⟨⟨l, lock, fdLogOpen⟩, hpass, hok⟩
  · rw [hstore] at herr
    cases herr
  · rw [hstore, Except.ok.injEq, store, TxStore.mk.injEq] at hok
    obtain ⟨-, hvalues, rfl, rfl⟩ := hok
    exact ⟨l, hpass, hvalues.symm⟩

private theorem filter_eraseP {α : Type} (p : α → Bool) (l : List α) :
    (l.eraseP p).filter (fun a => !p a) = l.filter fun a => !p a := by
  induction l with
  | nil => rfl
  | cons a l ih => cases hp : p a <;> simp [hp, ih]

private theorem countP_eraseP_le {α : Type} {p : α → Bool} {l : List α} {n : Nat} (h : l.countP p ≤ n + 1) :
    (l.eraseP p).countP p ≤ n := by
  induction l with
  | nil => simp
  | cons a l ih =>
    cases hp : p a
    · simp only [List.countP_cons, hp] at h
      simpa [hp] using ih (by simpa using h)
    · simp only [List.countP_cons, hp, if_true] at h
      simpa [hp] using h

/-- One pass over a list with no time ahead of the clock erases the first expired entry and leaves the others in
order; as many passes as there are expired entries, or more, leave those that are not expired. -/
theorem stateChecker_filters {now : Int} {s : NodeStore} (hclock : ∀ t ∈ s.txInfoList.values, t.initTime ≤ now) :
    (∃ l, s.stateCheckerLoop (fun _ => now) = some (.ok ⟨l, false, s.fdLogOpen⟩) ∧
      l.values = s.txInfoList.values.eraseP (expired now)) ∧
    ∀ n, s.txInfoList.values.countP (expired now) ≤ n → ∃ s', s.stateChecker now n = some (.ok s') ∧
      s'.txInfoList.values = s.txInfoList.values.filter fun t => !expired now t := by
  refine ⟨NodeStore.pass_fixed hclock, fun n hn => ?_⟩
  induction n generalizing s with
  | zero =>
    refine ⟨s, rfl, (List.filter_eq_self.2 fun t ht => ?_).symm⟩
    have hnone := List.countP_eq_zero.1 (Nat.le_zero.1 hn) t ht
    simpa using hnone
  | succ n ih =>
    obtain ⟨l, hpass, hvalues⟩ := NodeStore.pass_fixed hclock
    have hclock' : ∀ t ∈ l.values, t.initTime ≤ now := by
      intro t ht
      rw [hvalues] at ht
      exact hclock t (List.mem_of_mem_eraseP ht)
    have hcount : l.values.countP (expired now) ≤ n := by
      rw [hvalues]
      exact countP_eraseP_le hn
    obtain ⟨s', hs', hfilter⟩ := ih (s := ⟨l, false, s.fdLogOpen⟩) hclock' hcount
    refine ⟨s', ?_, ?_⟩
    · simp only [NodeStore.stateChecker, hpass, hs']
    · rw [hfilter, hvalues, filter_eraseP]

/-- Two neighbours that have expired, and entries that have not. -/
def mixedStore : NodeStore where
  txInfoList :=
    { nodes :=
        [(1, { TxInfo.zero with state := .ready, initTime := 60 }),
          (2, { TxInfo.zero with state := .init, initTime := 80 }),
          (3, { TxInfo.zero with state := .connected, initTime := 84 }), (4, { TxInfo.zero with state := .reboot })]
      distinct := by decide }
  txInfoListLock := false
  fdLogOpen := false

theorem stateChecker_filters_mixedStore :
    (∃ l, mixedStore.stateCheckerLoop (fun _ => 100) = some (.ok ⟨l, false, mixedStore.fdLogOpen⟩) ∧
      l.values = mixedStore.txInfoList.values.eraseP (expired 100)) ∧
    ∀ n, mixedStore.txInfoList.values.countP (expired 100) ≤ n → ∃ s', mixedStore.stateChecker 100 n = some (.ok s') ∧
      s'.txInfoList.values = mixedStore.txInfoList.values.filter fun t => !expired 100 t :=
  stateChecker_filters (by decide)

end Cloudein.Rest
