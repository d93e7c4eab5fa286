import Cloudein.Lib.Simulation
import Cloudein.Rest.Statements

/-!
# The steps of a request are atomic while no copy is torn

`restSystem` takes `recvdata_copy`, the section under the lock and a pass as one step each.  This is what the
statements amount to in the runs in which, while a copy is under way, no other copy makes a statement and no section
saves, and no copy makes a statement between the two of a section that read `tx_received` (`Undivided`).  Each such
run is the run of the copies, sections and passes that it completes, in that order: the lists agree when no section is
between the two, and the records when no copy is under way (`commits_run`).  The states that are reached between them
are those of `restSystem` (`undivided_reachable_iff`).
-/

namespace Cloudein.Rest

open KeyedList Mutex Runs

/-- In `recvdata_copy`, behind the first statement. -/
def HandlerAt.Writing : HandlerAt → Prop
  | copying rest => rest ≠ recvKeys
  | _ => False

/-- No two copies overlap, no section saves while a copy is under way, and no copy makes a statement before the
section has gone on to `tx_info_state_init`. -/
def Undivided (s : RestThreads) : Statement → Prop
  | .strncpy i => ∀ j, j ≠ i → ¬ (s.handler j).Writing ∧ s.handler j ≠ .saved
  | .save _ => ∀ j, ¬ (s.handler j).Writing
  | _ => True

abbrev UndividedRun (es : List Statement) : Prop :=
  statementSystem.Along (fun s e => statementSystem.enabled s e ∧ Undivided s e) .init es

/-- What a statement completes: the copy with its last statement or with the one that throws, the section with
`tx_info_state_init`, after which the list is not touched, and the pass with the end of its loop. -/
def commit (s : RestThreads) : Statement → List RestEvent
  | .strncpy i => match s.handler i with
    | .copying ((key, _) :: rest) => match (s.req i).member key with
      | .error _ => [.copy i (s.req i)]
      | .ok _ => if rest = [] then [.copy i (s.req i)] else []
    | _ => []
  | .init i now => [.save i now]
  | .round now => match s.checker with
    | .entry readings =>
      let pass := .pass fun j => (readings ++ [now]).getD j 0
      match s.list[readings.length]? with
      | none => [pass]
      | some t => match testEntry s.store.fdLogOpen now t with
        | .ok false => []
        | _ => [pass]
    | _ => []
  | _ => []

/-- The step of `restSystem` that the handler waits for. -/
def HandlerAt.pc : HandlerAt → HandlerPc
  | idle | copying _ => .idle
  | copied | locked | saved => .copied
  | renewed | done => .done

/-- The readings of the clock so far are those of a pass that goes on from here. -/
def PassFrom (o : Bool) (l : List TxInfo) (readings : List Int) : Prop :=
  readings.length ≤ l.length ∧ ∀ now : Nat → Int, (∀ j < readings.length, now j = readings.getD j 0) →
    checkEntries o now l = (checkEntries o (fun j => now (readings.length + j)) (l.drop readings.length)).map
      (l.take readings.length ++ ·)

/-- The threads in the middle of their statements, and the state after what they completed. -/
structure Matches (s : RestThreads) (a : Handlers) : Prop where
  locked : s.Locked
  pc : ∀ i, a.pc i = (s.handler i).pc
  lock : a.store.txInfoListLock = false
  fdLog : a.store.fdLogOpen = s.store.fdLogOpen
  suffix : ∀ i rest, s.handler i = .copying rest → rest ≠ [] ∧ rest <:+ recvKeys
  /-- A copy that is under way is alone with `tx_received`. -/
  alone : ∀ i j, (s.handler i).Writing → (s.handler j).Writing ∨ s.handler j = .saved → i = j
  received : (∀ i, ¬ (s.handler i).Writing) → s.store.txReceived = a.store.txReceived
  writing : ∀ i rest, s.handler i = .copying rest → rest ≠ recvKeys →
    copyMembers (s.req i) rest s.store.txReceived = copyMembers (s.req i) recvKeys a.store.txReceived
  list : (∀ i, s.handler i ≠ .saved) → s.list = a.store.txInfoList
  saved : ∀ i, s.handler i = .saved → s.list =
    (ifThereIsNotDataTxInfoSave a.store.txReceived a.store.txReceived.txIp a.store.txInfoList).1
  pass : ∀ readings, s.checker = .entry readings → PassFrom s.store.fdLogOpen s.list readings

/-! ### Passes, round by round -/

section

variable {o : Bool} {l : List TxInfo} {readings : List Int}

private theorem passFrom_nil (o : Bool) (l : List TxInfo) : PassFrom o l [] := by
  refine ⟨Nat.zero_le _, fun now _ => ?_⟩
  simp only [List.length_nil, Nat.zero_add, List.drop_zero, List.take_zero, List.nil_append]
  cases checkEntries o now l <;> rfl

/-- The reading of the round that a pass is in is the next one. -/
theorem PassFrom.at (h : PassFrom o l readings) (now : Int) :
    checkEntries o (fun j => (readings ++ [now]).getD j 0) l =
      (checkEntries o (fun j => (readings ++ [now]).getD (readings.length + j) 0) (l.drop readings.length)).map
        (l.take readings.length ++ ·) := by
  refine h.2 _ fun j hj => ?_
  simp [List.getD_eq_getElem?_getD, List.getElem?_append_left hj]

private theorem getD_concat (readings : List Int) (now : Int) :
    (readings ++ [now]).getD (readings.length + 0) 0 = now := by
  simp

private theorem drop_of_getElem? {t : TxInfo} (ht : l[readings.length]? = some t) :
    l.drop readings.length = t :: l.drop (readings.length + 1) := by
  obtain ⟨hlt, hget⟩ := List.getElem?_eq_some_iff.1 ht
  rw [← hget, List.getElem_cons_drop]

theorem PassFrom.end (h : PassFrom o l readings) (hend : l[readings.length]? = none) (now : Int) :
    checkEntries o (fun j => (readings ++ [now]).getD j 0) l = .ok l := by
  have hlen : readings.length = l.length := Nat.le_antisymm h.1 (List.getElem?_eq_none_iff.1 hend)
  rw [h.at now, hlen, List.drop_length, List.take_length]
  simp [checkEntries, Except.map]

theorem PassFrom.error (h : PassFrom o l readings) {t : TxInfo} (ht : l[readings.length]? = some t) {now : Int}
    {e : Fault} (htest : testEntry o now t = .error e) :
    checkEntries o (fun j => (readings ++ [now]).getD j 0) l = .error e := by
  rw [h.at now, drop_of_getElem? ht, checkEntries_cons, getD_concat, htest]
  rfl

theorem PassFrom.erase (h : PassFrom o l readings) {t : TxInfo} (ht : l[readings.length]? = some t) {now : Int}
    (htest : testEntry o now t = .ok true) :
    checkEntries o (fun j => (readings ++ [now]).getD j 0) l = .ok (l.eraseIdx readings.length) := by
  rw [h.at now, drop_of_getElem? ht, checkEntries_cons, getD_concat, htest, List.eraseIdx_eq_take_drop_succ]
  rfl

theorem PassFrom.next (h : PassFrom o l readings) {t : TxInfo} (ht : l[readings.length]? = some t) {now : Int}
    (htest : testEntry o now t = .ok false) : PassFrom o l (readings ++ [now]) := by
  obtain ⟨hlt, -⟩ := List.getElem?_eq_some_iff.1 ht
  refine ⟨by rw [List.length_append, List.length_singleton]; omega, fun now' hnow' => ?_⟩
  have hlast : now' (readings.length + 0) = now := by
    rw [hnow' _ (by simp), getD_concat]
  have hfirst : ∀ j < readings.length, now' j = readings.getD j 0 := by
    intro j hj
    rw [hnow' j (by rw [List.length_append]; omega)]
    simp [List.getD_eq_getElem?_getD, List.getElem?_append_left hj]
  have htake : l.take (readings.length + 1) = l.take readings.length ++ [t] := by
    rw [List.take_add_one, ht]
    rfl
  rw [h.2 now' hfirst, drop_of_getElem? ht, checkEntries_cons, hlast, htest, List.length_append,
    List.length_singleton, htake]
  simp only [Nat.add_assoc, Nat.add_comm 1]
  cases checkEntries o (fun j => now' (readings.length + (j + 1))) (l.drop (readings.length + 1)) <;>
    simp [Except.map]

end

/-! ### The statements of a run -/

namespace RestThreads

/-- The handler `i` has gone on to `x`, and the other threads are where they were. -/
structure GoesOn (i : Nat) (x : HandlerAt) (s t : RestThreads) : Prop where
  self : t.handler i = x
  other : ∀ j, j ≠ i → t.handler j = s.handler j
  req : ∀ j, j ≠ i → t.req j = s.req j
  checker : t.checker = s.checker
  fdLog : t.store.fdLogOpen = s.store.fdLogOpen

private theorem goesOn_goto {s t : RestThreads} (i : Nat) (x : HandlerAt) (hhandler : t.handler = s.handler)
    (hreq : ∀ j, j ≠ i → t.req j = s.req j) (hchecker : t.checker = s.checker)
    (hlog : t.store.fdLogOpen = s.store.fdLogOpen) : s.GoesOn i x (t.goto i x) := by
  refine ⟨goto_self .., fun j hj => ?_, hreq, hchecker, hlog⟩
  rw [goto_of_ne hj, hhandler]

variable {s t : RestThreads} {i : Nat} {x : HandlerAt}

theorem GoesOn.forall (h : s.GoesOn i x t) {p : Nat → HandlerAt → Prop} (hx : p i x)
    (hp : ∀ j, j ≠ i → p j (s.handler j)) (j : Nat) : p j (t.handler j) := by
  by_cases hj : j = i
  · subst hj
    rw [h.self]
    exact hx
  · rw [h.other j hj]
    exact hp j hj

/-- Only a handler inside is between `save` and `init`. -/
theorem Locked.not_saved (hs : s.Locked) (h : s.checker.Inside ∨ s.store.txInfoListLock = false) (i : Nat) :
    s.handler i ≠ .saved := by
  intro hi
  have hin : s.Inside (some i) := by
    rw [Inside, hi]
    trivial
  rcases h with hc | hfree
  · cases hs.unique none (some i) hc hin
  · have htaken := hs.lock_eq hin
    rw [hfree] at htaken
    cases htaken

end RestThreads

namespace Matches

theorem init : Matches .init .init := by
  refine ⟨RestThreads.locked_init, fun _ => rfl, rfl, rfl, ?_, ?_, fun _ => rfl, ?_, fun _ => rfl, ?_, ?_⟩
  all_goals simp [RestThreads.init, HandlerAt.Writing]

variable {s t : RestThreads} {a b : Handlers} {i : Nat} {x : HandlerAt} (h : Matches s a)

include h

private theorem same_pc (hx : x.pc = (s.handler i).pc) : a.pc = Function.update a.pc i x.pc := by
  rw [hx, ← h.pc, Function.update_eq_self]

/-- A handler goes on: what depends on where it is, apart from what it does to `tx_received` and to the list. -/
theorem goesOn (hgoes : s.GoesOn i x t) (hlocked : t.Locked) (hpc : b.pc = Function.update a.pc i x.pc)
    (hfree : b.store.txInfoListLock = false) (hlog : b.store.fdLogOpen = a.store.fdLogOpen)
    (hsuffix : ∀ rest, x = .copying rest → rest ≠ [] ∧ rest <:+ recvKeys)
    (halone : ∀ j k, (t.handler j).Writing → (t.handler k).Writing ∨ t.handler k = .saved → j = k)
    (hreceived : (∀ j, ¬ (t.handler j).Writing) → t.store.txReceived = b.store.txReceived)
    (hwriting : ∀ j rest, t.handler j = .copying rest → rest ≠ recvKeys →
      copyMembers (t.req j) rest t.store.txReceived = copyMembers (t.req j) recvKeys b.store.txReceived)
    (hlist : (∀ j, t.handler j ≠ .saved) → t.list = b.store.txInfoList)
    (hsaved : ∀ j, t.handler j = .saved → t.list =
      (ifThereIsNotDataTxInfoSave b.store.txReceived b.store.txReceived.txIp b.store.txInfoList).1)
    (hpass : ∀ readings, s.checker = .entry readings → PassFrom s.store.fdLogOpen t.list readings) : Matches t b := by
  refine ⟨hlocked, ?_, hfree, ?_, ?_, halone, hreceived, hwriting, hlist, hsaved, fun readings hc => ?_⟩
  · refine hgoes.forall (p := fun j y => b.pc j = y.pc) ?_ fun j hj => ?_
    · rw [hpc, Function.update_self]
    · rw [hpc, Function.update_of_ne hj, h.pc]
  · rw [hlog, h.fdLog, hgoes.fdLog]
  · exact hgoes.forall (p := fun _ y => ∀ rest, y = .copying rest → rest ≠ [] ∧ rest <:+ recvKeys) hsuffix
      fun j _ => h.suffix j
  · rw [hgoes.fdLog]
    exact hpass readings (hgoes.checker.symm.trans hc)

/-- A handler goes on and leaves none that has to do with `tx_received`. -/
theorem settles (hgoes : s.GoesOn i x t) (hlocked : t.Locked) (hpc : b.pc = Function.update a.pc i x.pc)
    (hfree : b.store.txInfoListLock = false) (hlog : b.store.fdLogOpen = a.store.fdLogOpen)
    (hx : x ≠ .saved ∧ ∀ rest, x ≠ .copying rest)
    (hother : ∀ j, j ≠ i → ¬ (s.handler j).Writing ∧ s.handler j ≠ .saved)
    (hreceived : t.store.txReceived = b.store.txReceived) (hlist : t.list = b.store.txInfoList)
    (hpass : ∀ readings, s.checker = .entry readings → PassFrom s.store.fdLogOpen t.list readings) : Matches t b := by
  have hnotWriting : ¬ x.Writing := by
    cases x with
    | copying rest => exact absurd rfl (hx.2 rest)
    | _ => exact id
  have hnone := hgoes.forall (p := fun _ y => ¬ y.Writing ∧ y ≠ .saved) ⟨hnotWriting, hx.1⟩ hother
  refine h.goesOn hgoes hlocked hpc hfree hlog (fun rest hrest => absurd hrest (hx.2 rest))
    (fun j _ hj => absurd hj (hnone j).1) (fun _ => hreceived) (fun j rest hj hrest => ?_) (fun _ => hlist)
    (fun j hj => absurd hj (hnone j).2) hpass
  refine absurd ?_ (hnone j).1
  rw [hj]
  exact hrest

/-- A handler that is not about to read or write `tx_received` goes on, and the lock may change. -/
theorem moved (hgoes : s.GoesOn i x t) (hlocked : t.Locked) (hpc : x.pc = (s.handler i).pc)
    (hx : ¬ x.Writing ∧ x ≠ .saved) (hi : ¬ (s.handler i).Writing ∧ s.handler i ≠ .saved)
    (hsuffix : ∀ rest, x = .copying rest → rest ≠ [] ∧ rest <:+ recvKeys)
    (hreceived : t.store.txReceived = s.store.txReceived) (hlist : t.list = s.list) : Matches t a := by
  have hwriting : ∀ j, (t.handler j).Writing ↔ (s.handler j).Writing :=
    hgoes.forall (p := fun j y => y.Writing ↔ (s.handler j).Writing) (iff_of_false hx.1 hi.1) fun _ _ => Iff.rfl
  have hsaved : ∀ j, t.handler j = .saved ↔ s.handler j = .saved :=
    hgoes.forall (p := fun j y => y = .saved ↔ s.handler j = .saved) (iff_of_false hx.2 hi.2) fun _ _ => Iff.rfl
  refine h.goesOn hgoes hlocked (h.same_pc hpc) h.lock rfl hsuffix (fun j k => ?_) (fun hnot => ?_)
    (fun j rest hj hrest => ?_) (fun hnot => ?_) (fun j hj => ?_) (fun readings hc => ?_)
  · rw [hwriting, hwriting, hsaved]
    exact h.alone j k
  · rw [hreceived]
    exact h.received fun j hj => hnot j ((hwriting j).2 hj)
  · have hji : j ≠ i := by
      rintro rfl
      rw [hgoes.self] at hj
      rw [hj] at hx
      exact hx.1 hrest
    rw [hgoes.req j hji, hreceived]
    exact h.writing j rest ((hgoes.other j hji).symm.trans hj) hrest
  · rw [hlist]
    exact h.list fun j hj => hnot j ((hsaved j).2 hj)
  · rw [hlist]
    exact h.saved j ((hsaved j).1 hj)
  · rw [hlist]
    exact h.pass readings hc

/-- What the statements of a copy have left to do ends as the whole copy does. -/
theorem rest_eq {rest : List (String × TxField)} (hi : s.handler i = .copying rest)
    (hund : Undivided s (.strncpy i)) :
    copyMembers (s.req i) rest s.store.txReceived = copyMembers (s.req i) recvKeys a.store.txReceived := by
  by_cases hrest : rest = recvKeys
  · subst hrest
    rw [h.received fun j hj => ?_]
    by_cases hji : j = i
    · subst hji
      rw [hi] at hj
      exact hj rfl
    · exact (hund j hji).1 hj
  · exact h.writing i rest hi hrest

/-- No section stands still in the middle while a statement of a copy falls. -/
theorem list_of_copying {rest : List (String × TxField)} (hi : s.handler i = .copying rest)
    (hund : Undivided s (.strncpy i)) : s.list = a.store.txInfoList := by
  refine h.list fun j hj => ?_
  by_cases hji : j = i
  · subst hji
    rw [hi] at hj
    cases hj
  · exact (hund j hji).2 hj

private theorem locked_of_copying {rest : List (String × TxField)} (hi : s.handler i = .copying rest)
    (hx : ¬ x.Inside) (r : TxInfo) :
    (({ s with store := { s.store with txReceived := r } } : RestThreads).goto i x).Locked := by
  refine RestThreads.Locked.goto (s := { s with store := _ }) h.locked (iff_of_false hx ?_)
  rw [show ({ s with store := { s.store with txReceived := r } } : RestThreads).handler i = .copying rest from hi]
  exact id

/-- The last statement of a copy, or the one that throws. -/
theorem copied {rest : List (String × TxField)} (hi : s.handler i = .copying rest) (hund : Undivided s (.strncpy i))
    {r : TxInfo} {e : Option JsonException} (hcopy : copyMembers (s.req i) recvKeys a.store.txReceived = (r, e))
    (hx : x = if e.isNone then .copied else .done) :
    Matches (({ s with store := { s.store with txReceived := r } } : RestThreads).goto i x) (a.copy i (s.req i)) := by
  have hcase : x = .copied ∨ x = .done := by
    rw [hx]
    split
    · exact Or.inl rfl
    · exact Or.inr rfl
  have hcopied : a.copy i (s.req i) = ⟨{ a.store with txReceived := r }, Function.update a.pc i x.pc⟩ := by
    have hpc : x.pc = if e.isNone then .copied else .done := by
      rw [hx]
      split <;> rfl
    simp only [Handlers.copy, TxStore.recvdataCopy, Rest.recvdataCopy, hcopy, hpc]
  have hout : ¬ x.Inside ∧ x ≠ .saved ∧ ∀ rest, x ≠ .copying rest := by
    rcases hcase with rfl | rfl <;> exact ⟨id, by simp⟩
  rw [hcopied]
  exact h.settles (RestThreads.goesOn_goto i x rfl (fun _ _ => rfl) rfl rfl)
    (h.locked_of_copying hi hout.1 r) rfl h.lock rfl
    hout.2 hund rfl (h.list_of_copying hi hund) h.pass

/-- A statement of a copy that is not the last. -/
theorem wrote {k : String × TxField} {rest : List (String × TxField)} (hi : s.handler i = .copying (k :: rest))
    (hund : Undivided s (.strncpy i)) {r : TxInfo}
    (hcopy : copyMembers (s.req i) rest r = copyMembers (s.req i) recvKeys a.store.txReceived) (hrest : rest ≠ []) :
    Matches (({ s with store := { s.store with txReceived := r } } : RestThreads).goto i (.copying rest)) a := by
  have hgoes : s.GoesOn i (.copying rest)
      (({ s with store := { s.store with txReceived := r } } : RestThreads).goto i (.copying rest)) :=
    RestThreads.goesOn_goto i _ rfl (fun _ _ => rfl) rfl rfl
  have hlocked := h.locked_of_copying hi (x := .copying rest) id r
  generalize ht : ({ s with store := { s.store with txReceived := r } } : RestThreads).goto i (.copying rest) = t
    at hgoes hlocked
  have hreceived : t.store.txReceived = r := by
    rw [← ht]
    rfl
  have hlist : t.list = s.list := by
    rw [← ht]
    rfl
  have hreq : t.req = s.req := by
    rw [← ht]
    rfl
  have hsuffix : rest <:+ recvKeys := (List.suffix_cons k rest).trans (h.suffix i _ hi).2
  have hwriting : (t.handler i).Writing := by
    rw [hgoes.self]
    rintro rfl
    have hle := (h.suffix i _ hi).2.length_le
    rw [List.length_cons] at hle
    omega
  have honly : ∀ j, (t.handler j).Writing ∨ t.handler j = .saved → j = i :=
    hgoes.forall (p := fun j y => y.Writing ∨ y = .saved → j = i) (fun _ => rfl) fun j hj hor =>
      absurd hor (not_or.2 (hund j hj))
  refine h.goesOn hgoes hlocked (h.same_pc ?_) h.lock rfl ?_ (fun j k hj hk => ?_)
    (fun hnot => absurd hwriting (hnot i)) (fun j rest' hj hne => ?_) (fun _ => ?_)
    (fun j hj => ?_) fun readings hc => ?_
  · rw [hi]
    rfl
  · rintro rest' ⟨⟩
    exact ⟨hrest, hsuffix⟩
  · exact (honly j (Or.inl hj)).trans (honly k hk).symm
  · obtain rfl : j = i := by
      refine honly j (Or.inl ?_)
      rw [hj]
      exact hne
    rw [hgoes.self] at hj
    cases hj
    rw [hreceived, hreq]
    exact hcopy
  · rw [hlist]
    exact h.list_of_copying hi hund
  · obtain rfl := honly j (Or.inr hj)
    rw [hgoes.self] at hj
    cases hj
  · rw [hlist]
    exact h.pass readings hc

theorem strncpy {rest : List (String × TxField)} (hi : s.handler i = .copying rest)
    (hund : Undivided s (.strncpy i)) :
    ∃ b, restSystem.exec a (commit s (.strncpy i)) = .ok b ∧ Matches (s.strncpy i) b := by
  have heq := h.rest_eq hi hund
  obtain ⟨⟨key, f⟩, rest, rfl⟩ := List.exists_cons_of_ne_nil (h.suffix i rest hi).1
  rw [copyMembers] at heq
  simp only [commit, RestThreads.strncpy, hi]
  cases hmember : (s.req i).member key with
  | error e =>
    simp only [hmember] at heq
    exact ⟨_, System.exec_single .., h.copied hi hund heq.symm rfl⟩
  | ok text =>
    simp only [hmember] at heq
    by_cases hrest : rest = []
    · subst hrest
      exact ⟨_, System.exec_single .., h.copied hi hund heq.symm rfl⟩
    · simp only [hrest, if_false]
      exact ⟨a, rfl, h.wrote hi hund heq hrest⟩

/-- While a handler is in the section, no other one is, and the checker is not. -/
theorem inside_only (hi : (s.handler i).Inside) :
    (∀ j, s.handler j = .saved → j = i) ∧ ∀ readings, s.checker ≠ .entry readings := by
  constructor
  · intro j hj
    have hin : s.Inside (some j) := by
      rw [RestThreads.Inside, hj]
      trivial
    exact Option.some.inj (h.locked.unique (some j) (some i) hin hi)
  · intro readings hc
    have hin : s.Inside none := by
      rw [RestThreads.Inside, hc]
      trivial
    cases h.locked.unique none (some i) hin hi

theorem save (hi : s.handler i = .locked) (hund : Undivided s (.save i)) : Matches (s.save i) a := by
  have hin : (s.handler i).Inside := by
    rw [hi]
    trivial
  obtain ⟨honly, hchecker⟩ := h.inside_only hin
  have hreceived := h.received hund
  have hnone : ∀ j, s.handler j ≠ .saved := by
    intro j hj
    rw [honly j hj, hi] at hj
    cases hj
  have hgoes : s.GoesOn i .saved (s.save i) := RestThreads.goesOn_goto i .saved rfl (fun _ _ => rfl) rfl rfl
  have hlocked : (s.save i).Locked :=
    RestThreads.Locked.goto (s := { s with store := _ }) h.locked (iff_of_true trivial hin)
  have hwriting := hgoes.forall (p := fun _ y => ¬ y.Writing) id fun j _ => hund j
  refine h.goesOn hgoes hlocked (h.same_pc ?_) h.lock rfl (by simp) (fun j _ hj => absurd hj (hwriting j))
    (fun _ => hreceived) (fun j rest hj hrest => ?_) (fun hnot => absurd hgoes.self (hnot i)) (fun j _ => ?_)
    fun readings hc => absurd hc (hchecker readings)
  · rw [hi]
    rfl
  · refine absurd ?_ (hwriting j)
    rw [hj]
    exact hrest
  · have hlist := h.list hnone
    simp only [RestThreads.list, RestThreads.save, RestThreads.goto] at hlist ⊢
    rw [hlist, hreceived]

/-- With `tx_info_state_init` the section is what the step `save` of `restSystem` makes of it. -/
theorem renew (hi : s.handler i = .saved) (now : Int) : Matches (s.renew i now) (a.save i now) := by
  have hin : (s.handler i).Inside := by
    rw [hi]
    trivial
  obtain ⟨honly, hchecker⟩ := h.inside_only hin
  have hwriting : ∀ j, ¬ (s.handler j).Writing := by
    intro j hj
    obtain rfl := h.alone j i hj (Or.inr hi)
    rw [hi] at hj
    exact hj
  have hreceived := h.received hwriting
  have hlocked : (s.renew i now).Locked :=
    RestThreads.Locked.goto (s := { s with store := _ }) h.locked (iff_of_true trivial hin)
  refine h.settles (RestThreads.goesOn_goto i .renewed rfl (fun _ _ => rfl) rfl rfl) hlocked rfl rfl rfl (by simp)
    (fun j hj => ⟨hwriting j, fun hsaved => hj (honly j hsaved)⟩) hreceived ?_
    fun readings hc => absurd hc (hchecker readings)
  have hsaved := h.saved i hi
  simp only [RestThreads.list, RestThreads.renew, RestThreads.goto] at hsaved ⊢
  rw [hsaved, hreceived]
  rfl

/-- The checker goes on, and what it leaves is what a pass of `restSystem` leaves. -/
theorem checked {l : List TxInfo} {c : CheckerAt} {lock : Bool}
    (hlocked : ({ s with store := { s.store with txInfoList := l, txInfoListLock := lock }, checker := c } :
      RestThreads).Locked)
    (hnone : ∀ i, s.handler i ≠ .saved)
    (hpass : ∀ readings, c = .entry readings → PassFrom s.store.fdLogOpen l readings) :
    Matches { s with store := { s.store with txInfoList := l, txInfoListLock := lock }, checker := c }
      { a with store := { a.store with txInfoList := l } } :=
  ⟨hlocked, h.pc, h.lock, h.fdLog, h.suffix, h.alone, h.received, h.writing, fun _ => rfl,
    fun i hi => absurd hi (hnone i), hpass⟩

/-- The checker goes on and leaves the list as it is. -/
theorem looked {c : CheckerAt} {lock : Bool}
    (hlocked : ({ s with store := { s.store with txInfoListLock := lock }, checker := c } : RestThreads).Locked)
    (hnone : ∀ i, s.handler i ≠ .saved)
    (hpass : ∀ readings, c = .entry readings → PassFrom s.store.fdLogOpen s.list readings) :
    Matches { s with store := { s.store with txInfoListLock := lock }, checker := c } a := by
  have hsame : ({ a with store := { a.store with txInfoList := s.list } } : Handlers) = a := by rw [h.list hnone]
  rw [← hsame]
  exact h.checked hlocked hnone hpass

theorem round {readings : List Int} (hc : s.checker = .entry readings) (now : Int) :
    (∀ t, s.round now = .ok t → ∃ b, restSystem.exec a (commit s (.round now)) = .ok b ∧ Matches t b) ∧
      ∀ x, s.round now = .error x → ∃ y, restSystem.exec a (commit s (.round now)) = .error y := by
  have hin : s.checker.Inside := by
    rw [hc]
    trivial
  have hnone := h.locked.not_saved (Or.inl hin)
  have hlist := h.list hnone
  have hpass := h.pass readings hc
  have hlocked := fun t ht => h.locked.step (e := .round now) (t := t) ⟨readings, hc⟩ ht
  -- The pass that the round ends.
  have hatomic : ∀ r, checkEntries s.store.fdLogOpen (fun j => (readings ++ [now]).getD j 0) s.list = r →
      restSystem.exec a [.pass fun j => (readings ++ [now]).getD j 0] =
        r.map fun l => { a with store := { a.store with txInfoList := l } } := by
    intro r hr
    rw [System.exec_single]
    simp only [restSystem, Handlers.pass, TxStore.stateCheckerLoop_eq, h.fdLog, ← hlist, hr, ← h.lock]
    cases r <;> rfl
  simp only [statementSystem] at hlocked
  simp only [RestThreads.round, commit, hc] at hlocked ⊢
  cases ht : s.list[readings.length]? with
  | none =>
    simp only [ht, Except.ok.injEq, forall_eq'] at hlocked ⊢
    refine ⟨⟨_, hatomic _ (hpass.end ht now), ?_⟩, fun x hx => by cases hx⟩
    exact h.checked hlocked hnone (by simp)
  | some u =>
    simp only [ht] at hlocked ⊢
    cases htest : testEntry s.store.fdLogOpen now u with
    | error e =>
      simp only [htest] at hlocked ⊢
      exact ⟨fun t heq => absurd heq (by simp), fun x _ => ⟨e, hatomic _ (hpass.error ht htest)⟩⟩
    | ok expired =>
      cases expired with
      | true =>
        simp only [htest, Except.ok.injEq, forall_eq'] at hlocked ⊢
        refine ⟨⟨_, hatomic _ (hpass.erase ht htest), ?_⟩, fun x hx => by cases hx⟩
        exact h.checked hlocked hnone (by simp)
      | false =>
        simp only [htest, Except.ok.injEq, forall_eq'] at hlocked ⊢
        refine ⟨⟨a, rfl, ?_⟩, fun x hx => by cases hx⟩
        refine h.looked hlocked hnone ?_
        rintro readings' ⟨⟩
        exact hpass.next ht htest

/-- What a statement completes may happen. -/
theorem commit_allowed {e : Statement} (he : statementSystem.enabled s e) : restSystem.Allowed a (commit s e) := by
  have hone : ∀ e', restSystem.enabled a e' → restSystem.Allowed a [e'] := fun e' he' => ⟨he', fun _ _ => trivial⟩
  cases e with
  | strncpy i =>
    obtain ⟨rest, hi⟩ := he
    have hidle : restSystem.enabled a (.copy i (s.req i)) := by
      have hpc := h.pc i
      rw [hi] at hpc
      exact hpc
    simp only [commit, hi]
    split
    · split
      · exact hone _ hidle
      · split
        · exact hone _ hidle
        · trivial
    · trivial
  | init i now =>
    have hpc := h.pc i
    rw [show s.handler i = .saved from he] at hpc
    exact hone _ ⟨hpc, h.lock⟩
  | round now =>
    obtain ⟨readings, hc⟩ := he
    simp only [commit, hc]
    split
    · exact hone _ h.lock
    · split
      · trivial
      · exact hone _ h.lock
  | request i body => trivial
  | lock i => trivial
  | save i => trivial
  | unlock i => trivial
  | passLock => trivial
  | passUnlock => trivial

theorem step {e : Statement} (he : statementSystem.enabled s e) (hund : Undivided s e) :
    (∀ t, statementSystem.step s e = .ok t → ∃ b, restSystem.exec a (commit s e) = .ok b ∧ Matches t b) ∧
      ∀ x, statementSystem.step s e = .error x → ∃ y, restSystem.exec a (commit s e) = .error y := by
  cases e with
  | round now =>
    obtain ⟨readings, hc⟩ := he
    exact h.round hc now
  | strncpy i =>
    obtain ⟨rest, hi⟩ := he
    refine ⟨fun t ht => ?_, fun x hx => by cases hx⟩
    cases ht
    exact h.strncpy hi hund
  | request i body =>
    have hi : s.handler i = .idle := he
    refine ⟨fun t ht => ⟨a, rfl, ?_⟩, fun x hx => by cases hx⟩
    have hlocked := h.locked.step he ht
    cases ht
    have hgoes : s.GoesOn i (.copying recvKeys) (s.request i body) :=
      RestThreads.goesOn_goto i _ rfl (fun j hj => Function.update_of_ne hj ..) rfl rfl
    refine h.moved hgoes hlocked ?_ ⟨fun hw => hw rfl, by simp⟩ ?_ ?_ rfl rfl
    · rw [hi]
      rfl
    · rw [hi]
      exact ⟨id, by simp⟩
    · rintro rest ⟨⟩
      exact ⟨by simp [recvKeys], List.suffix_refl _⟩
  | lock i =>
    have hi : s.handler i = .copied := he.1
    refine ⟨fun t ht => ⟨a, rfl, ?_⟩, fun x hx => by cases hx⟩
    have hlocked := h.locked.step he ht
    cases ht
    have hgoes := RestThreads.goesOn_goto (s := s) (t := { s with store := s.store.lockTxInfoList }) i .locked rfl
      (fun _ _ => rfl) rfl rfl
    refine h.moved hgoes hlocked ?_ ⟨id, by simp⟩ ?_ (by simp) rfl rfl
    · rw [hi]
      rfl
    · rw [hi]
      exact ⟨id, by simp⟩
  | save i =>
    refine ⟨fun t ht => ⟨a, rfl, ?_⟩, fun x hx => by cases hx⟩
    cases ht
    exact h.save he hund
  | init i now =>
    refine ⟨fun t ht => ⟨_, System.exec_single .., ?_⟩, fun x hx => by cases hx⟩
    cases ht
    exact h.renew he now
  | unlock i =>
    have hi : s.handler i = .renewed := he
    refine ⟨fun t ht => ⟨a, rfl, ?_⟩, fun x hx => by cases hx⟩
    have hlocked := h.locked.step he ht
    cases ht
    have hgoes := RestThreads.goesOn_goto (s := s) (t := { s with store := s.store.unlockTxInfoList }) i .done rfl
      (fun _ _ => rfl) rfl rfl
    refine h.moved hgoes hlocked ?_ ⟨id, by simp⟩ ?_ (by simp) rfl rfl
    · rw [hi]
      rfl
    · rw [hi]
      exact ⟨id, by simp⟩
  | passLock =>
    refine ⟨fun t ht => ⟨a, rfl, ?_⟩, fun x hx => by cases hx⟩
    have hlocked := h.locked.step he ht
    cases ht
    refine h.looked hlocked (h.locked.not_saved (Or.inr he.2)) ?_
    rintro readings ⟨⟩
    exact passFrom_nil ..
  | passUnlock =>
    refine ⟨fun t ht => ⟨a, rfl, ?_⟩, fun x hx => by cases hx⟩
    have hlocked := h.locked.step he ht
    have hin : s.checker.Inside := by
      rw [show s.checker = .leaving from he]
      trivial
    cases ht
    exact h.looked hlocked (h.locked.not_saved (Or.inl hin)) (by simp)

end Matches

theorem statement_simulation :
    Simulation statementSystem (fun s e => statementSystem.enabled s e ∧ Undivided s e)
    restSystem restSystem.enabled Matches commit where
  along h he := h.commit_allowed he.1
  step h he ht := (h.step he.1 he.2).1 _ ht
  fault h he hx := (h.step he.1 he.2).2 _ hx

/-! ### The statements of a step -/

/-- The statements that `recvdata_copy` makes, up to the one that throws. -/
def statements (body : JsonValue) : List (String × TxField) → Nat
  | [] => 0
  | (key, _) :: ks => match body.member key with
    | .error _ => 1
    | .ok _ => statements body ks + 1

/-- The rounds of a pass over the rest of a list, up to the one that ends it. -/
def rounds (fdLogOpen : Bool) : (Nat → Int) → List TxInfo → List Statement
  | _, [] => [.round 0]
  | now, t :: l => .round (now 0) :: match testEntry fdLogOpen (now 0) t with
    | .ok false => rounds fdLogOpen (fun i => now (i + 1)) l
    | _ => []

/-- The statements of a step of `restSystem`, one after the other. -/
def expand (a : Handlers) : RestEvent → List Statement
  | .copy i body => .request i body :: List.replicate (statements body recvKeys) (.strncpy i)
  | .save i now => [.lock i, .save i, .init i now, .unlock i]
  | .pass now => .passLock :: (rounds a.store.fdLogOpen now a.store.txInfoList ++ [.passUnlock])

def HandlerPc.handlerAt : HandlerPc → HandlerAt
  | idle => .idle
  | copied => .copied
  | done => .done

/-- The threads between the steps of `restSystem`. -/
def resting (a : Handlers) (req : Nat → JsonValue) : RestThreads :=
  ⟨a.store, fun i => (a.pc i).handlerAt, req, .idle⟩

private theorem handlerAt_quiet (pc : HandlerPc) : ¬ pc.handlerAt.Writing ∧ pc.handlerAt ≠ .saved := by
  cases pc <;> exact ⟨id, by simp [HandlerPc.handlerAt]⟩

abbrev Proper (s : RestThreads) (e : Statement) : Prop := statementSystem.enabled s e ∧ Undivided s e

/-- The copy of a handler, with no other copy under way. -/
theorem exec_copy {s : RestThreads} {i : Nat} {ks : List (String × TxField)} (hi : s.handler i = .copying ks)
    (hks : ks ≠ []) (hother : ∀ j, j ≠ i → ¬ (s.handler j).Writing ∧ s.handler j ≠ .saved) {r : TxInfo}
    {e : Option JsonException} (hr : copyMembers (s.req i) ks s.store.txReceived = (r, e)) :
    statementSystem.Along Proper s (List.replicate (statements (s.req i) ks) (.strncpy i)) ∧
      statementSystem.exec s (List.replicate (statements (s.req i) ks) (.strncpy i)) =
        .ok (({ s with store := { s.store with txReceived := r } } : RestThreads).goto i
          (if e.isNone then .copied else .done)) := by
  induction ks generalizing s with
  | nil => exact absurd rfl hks
  | cons k ks ih =>
    obtain ⟨key, f⟩ := k
    have hproper : Proper s (.strncpy i) := ⟨⟨_, hi⟩, hother⟩
    have hstep : statementSystem.step s (.strncpy i) = .ok (s.strncpy i) := rfl
    cases hmember : (s.req i).member key with
    | error x =>
      simp only [copyMembers, hmember, Prod.mk.injEq] at hr
      obtain ⟨rfl, rfl⟩ := hr
      have hstrncpy : s.strncpy i = s.goto i .done := by simp only [RestThreads.strncpy, hi, hmember]
      have hone : statements (s.req i) ((key, f) :: ks) = 1 := by simp only [statements, hmember]
      rw [hone, List.replicate_one, System.exec_single, hstep, hstrncpy]
      exact ⟨⟨hproper, fun _ _ => trivial⟩, rfl⟩
    | ok text =>
      simp only [copyMembers, hmember] at hr
      have hmore : statements (s.req i) ((key, f) :: ks) = statements (s.req i) ks + 1 := by
        simp only [statements, hmember]
      have hstrncpy : s.strncpy i =
          ({ s with store := { s.store with txReceived := s.store.txReceived.setText f text } } : RestThreads).goto i
            (if ks = [] then .copied else .copying ks) := by
        simp only [RestThreads.strncpy, hi, hmember]
      rw [hmore, List.replicate_succ, System.exec_cons_ok hstep, hstrncpy]
      by_cases hend : ks = []
      · subst hend
        simp only [copyMembers, Prod.mk.injEq] at hr
        obtain ⟨rfl, rfl⟩ := hr
        exact ⟨⟨hproper, fun _ _ => trivial⟩, rfl⟩
      · rw [if_neg hend]
        generalize hs' : ({ s with store := { s.store with txReceived := s.store.txReceived.setText f text } } :
          RestThreads).goto i (.copying ks) = s'
        have hi' : s'.handler i = .copying ks := by
          rw [← hs']
          exact RestThreads.goto_self ..
        have hother' : ∀ j, j ≠ i → ¬ (s'.handler j).Writing ∧ s'.handler j ≠ .saved := by
          intro j hj
          rw [← hs', RestThreads.goto_of_ne hj]
          exact hother j hj
        have hreq' : s'.req = s.req := by
          rw [← hs']
          rfl
        have hr' : copyMembers (s'.req i) ks s'.store.txReceived = (r, e) := by
          rw [hreq', ← hs']
          exact hr
        obtain ⟨halong, hexec⟩ := ih hi' hend hother' hr'
        rw [hreq'] at halong hexec
        refine ⟨System.along_cons_ok hproper hstep ?_, ?_⟩
        · rw [hstrncpy, if_neg hend, hs']
          exact halong
        · rw [hexec, ← hs']
          simp only [RestThreads.goto, Function.update_idem]

/-- The rounds of a pass, from an entry on. -/
theorem exec_rounds {s : RestThreads} {readings : List Int} (hc : s.checker = .entry readings) {pre l : List TxInfo}
    (hlist : s.list = pre ++ l) (hpre : pre.length = readings.length) (now : Nat → Int) :
    statementSystem.Along Proper s (rounds s.store.fdLogOpen now l) ∧
      (∀ l', checkEntries s.store.fdLogOpen now l = .ok l' →
        statementSystem.exec s (rounds s.store.fdLogOpen now l) =
          .ok { s with store := { s.store with txInfoList := pre ++ l' }, checker := .leaving }) ∧
      ∀ x, checkEntries s.store.fdLogOpen now l = .error x →
        statementSystem.exec s (rounds s.store.fdLogOpen now l) = .error x := by
  induction l generalizing s readings pre now with
  | nil =>
    have hend : s.list[readings.length]? = none := by
      rw [List.getElem?_eq_none_iff, hlist, List.append_nil, hpre]
    have hround : statementSystem.step s (.round 0) = .ok { s with checker := .leaving } := by
      simp only [statementSystem, RestThreads.round, hc, hend]
    refine ⟨⟨⟨⟨readings, hc⟩, trivial⟩, fun _ _ => trivial⟩, fun l' hl' => ?_, fun x hx => by cases hx⟩
    cases hl'
    rw [rounds, System.exec_single, hround, ← hlist]
  | cons t l ih =>
    have hat : s.list[readings.length]? = some t := by
      rw [hlist, List.getElem?_append_right (by omega), hpre, Nat.sub_self]
      rfl
    have hproper : Proper s (.round (now 0)) := ⟨⟨readings, hc⟩, trivial⟩
    rw [checkEntries_cons]
    cases htest : testEntry s.store.fdLogOpen (now 0) t with
    | error e =>
      have hround : statementSystem.step s (.round (now 0)) = .error e := by
        simp only [statementSystem, RestThreads.round, hc, hat, htest]
      have hrounds : rounds s.store.fdLogOpen now (t :: l) = [.round (now 0)] := by simp only [rounds, htest]
      rw [hrounds, System.exec_single, hround]
      refine ⟨⟨hproper, fun _ _ => trivial⟩, fun l' hl' => absurd hl' (by simp), fun x hx => ?_⟩
      cases hx
      rfl
    | ok expired =>
      cases expired with
      | true =>
        have hround : statementSystem.step s (.round (now 0)) =
            .ok { s with store := { s.store with txInfoList := pre ++ l }, checker := .leaving } := by
          have herase : s.list.eraseIdx readings.length = pre ++ l := by
            rw [hlist, ← hpre, List.eraseIdx_append_of_length_le (Nat.le_refl _), Nat.sub_self]
            rfl
          simp only [statementSystem, RestThreads.round, hc, hat, htest, herase]
        have hrounds : rounds s.store.fdLogOpen now (t :: l) = [.round (now 0)] := by simp only [rounds, htest]
        rw [hrounds, System.exec_single, hround]
        refine ⟨⟨hproper, fun _ _ => trivial⟩, fun l' hl' => ?_, fun x hx => by cases hx⟩
        cases hl'
        rfl
      | false =>
        have hround : statementSystem.step s (.round (now 0)) =
            .ok { s with checker := .entry (readings ++ [now 0]) } := by
          simp only [statementSystem, RestThreads.round, hc, hat, htest]
        have hsplit : s.list = (pre ++ [t]) ++ l := by
          rw [hlist, List.append_assoc]
          rfl
        have hlen : (pre ++ [t]).length = (readings ++ [now 0]).length := by
          rw [List.length_append, List.length_append, hpre]
          rfl
        obtain ⟨halong, hok, herror⟩ := ih (s := { s with checker := .entry (readings ++ [now 0]) }) rfl hsplit hlen
          fun i => now (i + 1)
        have hrounds : rounds s.store.fdLogOpen now (t :: l) =
            .round (now 0) :: rounds s.store.fdLogOpen (fun i => now (i + 1)) l := by
          simp only [rounds, htest]
        rw [hrounds, System.exec_cons_ok hround]
        refine ⟨System.along_cons_ok hproper hround halong, fun l' hl' => ?_, fun x hx => ?_⟩
        · cases hrest : checkEntries s.store.fdLogOpen (fun i => now (i + 1)) l with
          | error e =>
            rw [hrest] at hl'
            cases hl'
          | ok m =>
            rw [hrest] at hl'
            cases hl'
            rw [hok m hrest, List.append_assoc]
            rfl
        · cases hrest : checkEntries s.store.fdLogOpen (fun i => now (i + 1)) l with
          | error e =>
            rw [hrest] at hx
            cases hx
            exact herror e hrest
          | ok m =>
            rw [hrest] at hx
            cases hx

section

variable (a : Handlers) (req : Nat → JsonValue)

private theorem resting_handler (i : Nat) : (resting a req).handler i = (a.pc i).handlerAt := rfl

private theorem resting_update (store : TxStore) (i : Nat) (pc : HandlerPc) :
    resting ⟨store, Function.update a.pc i pc⟩ req = ({ resting a req with store := store }).goto i pc.handlerAt := by
  have hupdate : (fun j => (Function.update a.pc i pc j).handlerAt) =
      Function.update (fun j => (a.pc j).handlerAt) i pc.handlerAt :=
    Function.comp_update HandlerPc.handlerAt a.pc i pc
  rw [resting, hupdate]
  rfl

private theorem exec_expand_copy {i : Nat} (hpc : a.pc i = .idle) (body : JsonValue) :
    statementSystem.Along Proper (resting a req) (expand a (.copy i body)) ∧
      statementSystem.exec (resting a req) (expand a (.copy i body)) =
        .ok (resting (a.copy i body) (Function.update req i body)) := by
  have hstep : statementSystem.step (resting a req) (.request i body) = .ok ((resting a req).request i body) := rfl
  have hidle : (resting a req).handler i = .idle := by
    rw [resting_handler, hpc]
    rfl
  have hi : ((resting a req).request i body).handler i = .copying recvKeys := RestThreads.goto_self ..
  have hother : ∀ j, j ≠ i → ¬ (((resting a req).request i body).handler j).Writing ∧
      ((resting a req).request i body).handler j ≠ .saved := by
    intro j hj
    rw [RestThreads.request, RestThreads.goto_of_ne hj]
    exact handlerAt_quiet (a.pc j)
  have hreq : ((resting a req).request i body).req i = body := Function.update_self ..
  rcases hr : copyMembers body recvKeys a.store.txReceived with ⟨r, e⟩
  obtain ⟨halong, hexec⟩ := exec_copy (e := e) hi (by simp [recvKeys]) hother (by rw [hreq]; exact hr)
  rw [hreq] at halong hexec
  refine ⟨System.along_cons_ok ⟨hidle, trivial⟩ hstep halong, ?_⟩
  rw [expand, System.exec_cons_ok hstep, hexec]
  have hcopied : a.copy i body =
      ⟨{ a.store with txReceived := r }, Function.update a.pc i (if e.isNone then .copied else .done)⟩ := by
    simp only [Handlers.copy, TxStore.recvdataCopy, Rest.recvdataCopy, hr]
  have hat : (if e.isNone then HandlerAt.copied else .done) =
      (if e.isNone then HandlerPc.copied else .done).handlerAt := by
    split <;> rfl
  rw [hcopied, resting_update, hat]
  simp only [RestThreads.request, RestThreads.goto, resting, Function.update_idem]

private theorem exec_expand_save {i : Nat} (hpc : a.pc i = .copied) (hlock : a.store.txInfoListLock = false)
    (now : Int) :
    statementSystem.Along Proper (resting a req) (expand a (.save i now)) ∧
      statementSystem.exec (resting a req) (expand a (.save i now)) = .ok (resting (a.save i now) req) := by
  have hcopied : (resting a req).handler i = .copied := by
    rw [resting_handler, hpc]
    rfl
  have hlocked : ((resting a req).lock i).handler i = .locked := RestThreads.goto_self ..
  have hsaved : (((resting a req).lock i).save i).handler i = .saved := RestThreads.goto_self ..
  have hrenewed : ((((resting a req).lock i).save i).renew i now).handler i = .renewed := RestThreads.goto_self ..
  have hund : Undivided ((resting a req).lock i) (.save i) := by
    intro j
    by_cases hj : j = i
    · subst hj
      rw [hlocked]
      exact id
    · rw [RestThreads.lock, RestThreads.goto_of_ne hj]
      exact (handlerAt_quiet (a.pc j)).1
  refine ⟨?_, ?_⟩
  · refine System.along_cons_ok ⟨⟨hcopied, hlock⟩, trivial⟩ rfl ?_
    refine System.along_cons_ok ⟨hlocked, hund⟩ rfl ?_
    refine System.along_cons_ok ⟨hsaved, trivial⟩ rfl ?_
    exact System.along_cons_ok ⟨hrenewed, trivial⟩ rfl trivial
  · have hexec : statementSystem.exec (resting a req) (expand a (.save i now)) =
        .ok (((((resting a req).lock i).save i).renew i now).unlock i) := rfl
    rw [hexec, Handlers.save, resting_update]
    simp only [RestThreads.unlock, RestThreads.renew, RestThreads.save, RestThreads.lock, RestThreads.goto, resting,
      Function.update_idem]
    rfl

private theorem exec_expand_pass (hlock : a.store.txInfoListLock = false) (now : Nat → Int) :
    statementSystem.Along Proper (resting a req) (expand a (.pass now)) ∧
      (∀ b, restSystem.step a (.pass now) = .ok b →
        statementSystem.exec (resting a req) (expand a (.pass now)) = .ok (resting b req)) ∧
      ∀ x, restSystem.step a (.pass now) = .error x →
        statementSystem.exec (resting a req) (expand a (.pass now)) = .error x := by
  have hstep : statementSystem.step (resting a req) .passLock =
      .ok { resting a req with store := a.store.lockTxInfoList, checker := .entry [] } := rfl
  have hlist : a.store.txInfoList = [] ++ a.store.txInfoList := rfl
  obtain ⟨halong, hok, herror⟩ :=
    exec_rounds (s := { resting a req with store := a.store.lockTxInfoList, checker := .entry [] }) rfl hlist rfl now
  have hpass : restSystem.step a (.pass now) = (checkEntries a.store.fdLogOpen now a.store.txInfoList).map fun l =>
      { a with store := { a.store with txInfoList := l, txInfoListLock := false } } := by
    simp only [restSystem, Handlers.pass, TxStore.stateCheckerLoop_eq]
    cases checkEntries a.store.fdLogOpen now a.store.txInfoList <;> rfl
  rw [hpass, expand, System.exec_cons_ok hstep]
  cases hcheck : checkEntries a.store.fdLogOpen now a.store.txInfoList with
  | error e =>
    have hrounds := herror e hcheck
    refine ⟨System.along_cons_ok ⟨⟨rfl, hlock⟩, trivial⟩ hstep ?_, fun b hb => absurd hb (by simp [Except.map]),
      fun x hx => ?_⟩
    · refine System.along_append.2 ⟨halong, fun u hu => ?_⟩
      exact absurd (hrounds.symm.trans hu) (by simp)
    · cases hx
      exact System.exec_append_error hrounds _
  | ok l =>
    have hrounds := hok l hcheck
    refine ⟨System.along_cons_ok ⟨⟨rfl, hlock⟩, trivial⟩ hstep ?_, fun b hb => ?_,
      fun x hx => absurd hx (by simp [Except.map])⟩
    · refine System.along_append.2 ⟨halong, fun u hu => ?_⟩
      obtain rfl := Except.ok.inj (hrounds.symm.trans hu)
      exact ⟨⟨rfl, trivial⟩, fun _ _ => trivial⟩
    · cases hb
      exact System.exec_append hrounds _

end

/-- The steps of `restSystem`, each as its statements. -/
theorem step_simulation : Simulation restSystem restSystem.enabled statementSystem Proper
    (fun a s => a.store.txInfoListLock = false ∧ ∃ req, s = resting a req) expand where
  along := by
    rintro a s e ⟨hlock, req, rfl⟩ he
    cases e with
    | copy i body => exact (exec_expand_copy a req he body).1
    | save i now => exact (exec_expand_save a req he.1 hlock now).1
    | pass now => exact (exec_expand_pass a req hlock now).1
  step := by
    rintro a s e b ⟨hlock, req, rfl⟩ he hb
    cases e with
    | copy i body =>
      cases hb
      exact ⟨_, (exec_expand_copy a req he body).2, hlock, _, rfl⟩
    | save i now =>
      cases hb
      exact ⟨_, (exec_expand_save a req he.1 hlock now).2, rfl, _, rfl⟩
    | pass now =>
      obtain ⟨l, -, hl⟩ := Handlers.pass_ok hb
      refine ⟨_, (exec_expand_pass a req hlock now).2.1 b hb, ?_, _, rfl⟩
      rw [hl]
  fault := by
    rintro a s e x ⟨hlock, req, rfl⟩ he hx
    cases e with
    | copy i body => cases hx
    | save i now => cases hx
    | pass now => exact ⟨x, (exec_expand_pass a req hlock now).2.2 x hx⟩

/-! ### Runs -/

attribute [ext] TxStore

/-- An undivided run is the run of the copies, sections and passes that it completes: `restSystem` allows them, its
list is that of the statements when no section is between `if_there_is_not_data_tx_info_save` and
`tx_info_state_init`, and its record when no copy is under way, and it fails when they do. -/
theorem commits_run {es : List Statement} (h : UndividedRun es) :
    restSystem.Allowed .init (statementSystem.commits commit .init es) ∧
      (∀ s, statementSystem.exec .init es = .ok s →
        ∃ a, restSystem.exec .init (statementSystem.commits commit .init es) = .ok a ∧
          (∀ i, a.pc i = (s.handler i).pc) ∧
          ((∀ i, s.handler i ≠ .saved) → a.store.txInfoList = s.list) ∧
          ((∀ i, ¬ (s.handler i).Writing) → a.store.txReceived = s.store.txReceived)) ∧
      ∀ x, statementSystem.exec .init es = .error x →
        ∃ y, restSystem.exec .init (statementSystem.commits commit .init es) = .error y := by
  obtain ⟨hallowed, hok, herror⟩ := statement_simulation.commits Matches.init h
  refine ⟨hallowed, fun s hs => ?_, herror⟩
  obtain ⟨a, ha, hmatches⟩ := hok s hs
  exact ⟨a, ha, hmatches.pc, fun hnone => (hmatches.list hnone).symm, fun hnone => (hmatches.received hnone).symm⟩

/-- A second request is copied before the section of the first, and the pass comes between. -/
def overtakingRun : List RestEvent :=
  [.copy 0 (requestBody "10.0.0.1" "1"), .copy 1 (requestBody "10.0.0.2" "2"), .save 0 100, .pass fun _ => 111,
    .save 1 112]

theorem commits_run_overtaking : ∃ es s a, UndividedRun es ∧ statementSystem.exec .init es = .ok s ∧
    restSystem.exec .init (statementSystem.commits commit .init es) = .ok a ∧ a.store.txInfoList = s.list := by
  have hallowed : restSystem.Allowed .init overtakingRun := by decide +kernel
  obtain ⟨b, hb, -⟩ := System.exec_test (M := restSystem) .init overtakingRun (fun _ => true)
    (by decide +kernel)
  obtain ⟨hproper, hok, -⟩ := step_simulation.commits (a := .init) ⟨rfl, fun _ => .null, rfl⟩ hallowed
  obtain ⟨s, hs, -, req, rfl⟩ := hok b hb
  obtain ⟨a, ha, -, hlist, -⟩ := (commits_run hproper).2.1 _ hs
  exact ⟨_, _, a, hproper, hs, ha, hlist fun i => (handlerAt_quiet (b.pc i)).2⟩

/-- No copy and no section is under way. -/
def RestThreads.Settled (s : RestThreads) : Prop :=
  s.store.txInfoListLock = false ∧ ∀ i, ¬ (s.handler i).Writing

/-- The states of the store that undivided runs reach, with the lock free and no copy under way, are those of
`restSystem`. -/
theorem undivided_reachable_iff (store : TxStore) :
    (∃ es s, UndividedRun es ∧ statementSystem.exec .init es = .ok s ∧ s.Settled ∧ s.store = store) ↔
      ∃ es a, restSystem.Allowed .init es ∧ restSystem.exec .init es = .ok a ∧ a.store = store := by
  constructor
  · rintro ⟨es, s, hes, hs, ⟨hfree, hquiet⟩, rfl⟩
    obtain ⟨hallowed, hok, -⟩ := statement_simulation.commits Matches.init hes
    obtain ⟨a, ha, hmatches⟩ := hok s hs
    refine ⟨_, a, hallowed, ha, ?_⟩
    have hlist := hmatches.list (hmatches.locked.not_saved (Or.inr hfree))
    have hreceived := hmatches.received hquiet
    have hlock : a.store.txInfoListLock = s.store.txInfoListLock := by rw [hmatches.lock, hfree]
    have hlog := hmatches.fdLog
    exact TxStore.ext hreceived.symm hlist.symm hlock hlog
  · rintro ⟨es, a, hes, ha, rfl⟩
    obtain ⟨hproper, hok, -⟩ := step_simulation.commits (a := .init) ⟨rfl, fun _ => .null, rfl⟩ hes
    obtain ⟨s, hs, hlock, req, rfl⟩ := hok a ha
    exact ⟨_, _, hproper, hs, ⟨hlock, fun i => (handlerAt_quiet (a.pc i)).1⟩, rfl⟩

end Cloudein.Rest
