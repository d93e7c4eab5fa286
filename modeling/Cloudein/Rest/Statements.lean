import Cloudein.Lib.Mutex
import Cloudein.Rest.Checker
import Cloudein.Rest.Handlers

/-!
# Handlers and the state checker, statement by statement

The handlers of any number of requests and the state checker, with a step for each statement: the ten of
`recvdata_copy`, which fill `tx_received` without the lock, the four of the section under the lock, and the rounds of
the loop of a pass.  The lock keeps the list in one hand (`list_exclusive`), but not `tx_received`: what is saved may
be put together from several requests, array by array, and be left behind in the state `TX_ST_EMPTY`.  No pass erases
an entry while it is in that state, and one is erased only by the age that `tx_info_state_init` gave it
(`entries_drawn`).
-/

namespace Cloudein.Rest

open CString Mutex Runs

/-- Where the handler of a request is. -/
inductive HandlerAt where
  | idle
  /-- In `recvdata_copy`, in front of the statements of some members. -/
  | copying (rest : List (String × TxField))
  | copied
  | locked
  /-- Behind `if_there_is_not_data_tx_info_save`. -/
  | saved
  /-- Behind `tx_info_state_init`. -/
  | renewed
  | done
deriving DecidableEq

/-- Where the state checker is in a pass. -/
inductive CheckerAt where
  | idle
  /-- In front of an entry, with the readings of the clock at the entries before it. -/
  | entry (readings : List Int)
  | leaving
deriving DecidableEq

structure RestThreads where
  store : TxStore
  handler : Nat → HandlerAt
  /-- The local variables `req` of the handlers. -/
  req : Nat → JsonValue
  checker : CheckerAt

inductive Statement where
  /-- The body of the request `i` has been parsed. -/
  | request (i : Nat) (body : JsonValue)
  | strncpy (i : Nat)
  | lock (i : Nat)
  | save (i : Nat)
  | init (i : Nat) (now : Int)
  | unlock (i : Nat)
  | passLock
  /-- A round of the loop, with the reading of the clock if there is one. -/
  | round (now : Int)
  | passUnlock

/-- The handler of a request, or the state checker. -/
def Statement.thread : Statement → Option Nat
  | request i _ | strncpy i | lock i | save i | init i _ | unlock i => some i
  | passLock | round _ | passUnlock => none

namespace RestThreads

def init : RestThreads := ⟨.init, fun _ => .idle, fun _ => .null, .idle⟩

abbrev list (s : RestThreads) : List TxInfo := s.store.txInfoList

def goto (i : Nat) (h : HandlerAt) (s : RestThreads) : RestThreads :=
  { s with handler := Function.update s.handler i h }

theorem goto_self (i : Nat) (h : HandlerAt) (s : RestThreads) : (s.goto i h).handler i = h := Function.update_self ..

theorem goto_of_ne {i j : Nat} (hj : j ≠ i) (h : HandlerAt) (s : RestThreads) :
    (s.goto i h).handler j = s.handler j :=
  Function.update_of_ne hj ..

def request (i : Nat) (body : JsonValue) (s : RestThreads) : RestThreads :=
  { s with req := Function.update s.req i body }.goto i (.copying recvKeys)

/-- The next statement of `recvdata_copy`. -/
def strncpy (i : Nat) (s : RestThreads) : RestThreads :=
  match s.handler i with
  | .copying ((key, f) :: rest) => match (s.req i).member key with
    | .error _ => s.goto i .done
    | .ok text =>
      { s with store := { s.store with txReceived := s.store.txReceived.setText f text } }.goto i
        (if rest = [] then .copied else .copying rest)
  | _ => s

def lock (i : Nat) (s : RestThreads) : RestThreads := { s with store := s.store.lockTxInfoList }.goto i .locked

def save (i : Nat) (s : RestThreads) : RestThreads :=
  let r := s.store.txReceived
  { s with store := { s.store with txInfoList := (ifThereIsNotDataTxInfoSave r r.txIp s.list).1 } }.goto i .saved

def renew (i : Nat) (now : Int) (s : RestThreads) : RestThreads :=
  let l := txInfoStateInit s.store.txReceived.txIp now s.list
  { s with store := { s.store with txInfoList := l } }.goto i .renewed

def unlock (i : Nat) (s : RestThreads) : RestThreads := { s with store := s.store.unlockTxInfoList }.goto i .done

def round (now : Int) (s : RestThreads) : Except Fault RestThreads :=
  match s.checker with
  | .entry readings => match s.list[readings.length]? with
    | none => .ok { s with checker := .leaving }
    | some t => match testEntry s.store.fdLogOpen now t with
      | .error e => .error e
      | .ok true =>
        .ok { s with store := { s.store with txInfoList := s.list.eraseIdx readings.length }, checker := .leaving }
      | .ok false => .ok { s with checker := .entry (readings ++ [now]) }
  | _ => .ok s

end RestThreads

/-- The threads wait at `pthread_mutex_lock` until the lock is free. -/
def statementSystem : System RestThreads Statement Fault where
  enabled s
    | .request i _ => s.handler i = .idle
    | .strncpy i => ∃ rest, s.handler i = .copying rest
    | .lock i => s.handler i = .copied ∧ s.store.txInfoListLock = false
    | .save i => s.handler i = .locked
    | .init i _ => s.handler i = .saved
    | .unlock i => s.handler i = .renewed
    | .passLock => s.checker = .idle ∧ s.store.txInfoListLock = false
    | .round _ => ∃ readings, s.checker = .entry readings
    | .passUnlock => s.checker = .leaving
  step s
    | .request i body => .ok (s.request i body)
    | .strncpy i => .ok (s.strncpy i)
    | .lock i => .ok (s.lock i)
    | .save i => .ok (s.save i)
    | .init i now => .ok (s.renew i now)
    | .unlock i => .ok (s.unlock i)
    | .passLock => .ok { s with store := s.store.lockTxInfoList, checker := .entry [] }
    | .round now => s.round now
    | .passUnlock => .ok { s with store := s.store.unlockTxInfoList, checker := .idle }

instance (s : RestThreads) : ∀ e, Decidable (statementSystem.enabled s e)
  | .request i _ => inferInstanceAs (Decidable (s.handler i = .idle))
  | .strncpy i => match h : s.handler i with
    | .copying rest => .isTrue ⟨rest, h⟩
    | .idle | .copied | .locked | .saved | .renewed | .done => .isFalse (by rintro ⟨rest, hrest⟩; simp [h] at hrest)
  | .lock i => inferInstanceAs (Decidable (s.handler i = .copied ∧ s.store.txInfoListLock = false))
  | .save i => inferInstanceAs (Decidable (s.handler i = .locked))
  | .init i _ => inferInstanceAs (Decidable (s.handler i = .saved))
  | .unlock i => inferInstanceAs (Decidable (s.handler i = .renewed))
  | .passLock => inferInstanceAs (Decidable (s.checker = .idle ∧ s.store.txInfoListLock = false))
  | .round _ => match h : s.checker with
    | .entry readings => .isTrue ⟨readings, h⟩
    | .idle | .leaving => .isFalse (by rintro ⟨readings, hreadings⟩; simp [h] at hreadings)
  | .passUnlock => inferInstanceAs (Decidable (s.checker = .leaving))

/-! ### The list is in one hand -/

/-- Between `lock_tx_info_list` and `unlock_tx_info_list`. -/
def HandlerAt.Inside : HandlerAt → Prop
  | locked | saved | renewed => True
  | idle | copying _ | copied | done => False

def CheckerAt.Inside : CheckerAt → Prop
  | entry _ | leaving => True
  | idle => False

namespace RestThreads

/-- The thread is in the section under the lock. -/
def Inside (s : RestThreads) : Option Nat → Prop
  | some i => (s.handler i).Inside
  | none => s.checker.Inside

def Locked (s : RestThreads) : Prop := Exclusive s.Inside s.store.txInfoListLock

theorem locked_init : init.Locked := by
  refine Exclusive.free fun o ho => ?_
  cases o <;> exact ho

variable {s : RestThreads} {i : Nat} {h : HandlerAt}

private theorem inside_goto (o : Option Nat) :
    (s.goto i h).Inside o ↔ o = some i ∧ h.Inside ∨ o ≠ some i ∧ s.Inside o := by
  cases o with
  | none => simp [Inside, goto]
  | some j =>
    by_cases hj : j = i
    · subst hj
      simp [Inside, goto]
    · simp [Inside, goto, hj]

private theorem inside_goto_of_iff (hi : h.Inside ↔ (s.handler i).Inside) (o : Option Nat) :
    (s.goto i h).Inside o ↔ s.Inside o := by
  rw [inside_goto]
  by_cases ho : o = some i
  · subst ho
    simpa [Inside] using hi
  · simp [ho]

theorem Locked.goto (hs : s.Locked) (hi : h.Inside ↔ (s.handler i).Inside) : (s.goto i h).Locked :=
  hs.congr (inside_goto_of_iff hi)

theorem Locked.lock (hs : s.Locked) (hfree : s.store.txInfoListLock = false) (i : Nat) : (s.lock i).Locked := by
  have hex : Exclusive s.Inside false := hfree ▸ hs
  refine hex.enter (i := some i) fun o => ?_
  have hiff : (s.lock i).Inside o ↔ o = some i ∧ True ∨ o ≠ some i ∧ s.Inside o := inside_goto o
  rw [hiff]
  by_cases ho : o = some i <;> simp [ho]

theorem Locked.unlock (hs : s.Locked) (hi : (s.handler i).Inside) : (s.unlock i).Locked := by
  refine hs.leave (i := some i) hi fun o => ?_
  have hiff : (s.unlock i).Inside o ↔ o = some i ∧ False ∨ o ≠ some i ∧ s.Inside o := inside_goto o
  rw [hiff]
  simp

theorem Locked.step (hs : s.Locked) {e : Statement} {t : RestThreads} (he : statementSystem.enabled s e)
    (ht : statementSystem.step s e = .ok t) : t.Locked := by
  cases e with
  | request i body =>
    cases ht
    exact Locked.goto (s := { s with req := _ }) hs (by rw [show s.handler i = .idle from he]; exact Iff.rfl)
  | strncpy i =>
    cases ht
    obtain ⟨rest, hi⟩ := he
    have hout : ∀ h : HandlerAt, ¬ h.Inside → (h.Inside ↔ (s.handler i).Inside) := by
      intro h hnot
      rw [hi]
      exact iff_of_false hnot id
    simp only [strncpy]
    split
    · split
      · exact hs.goto (hout .done id)
      · refine Locked.goto (s := { s with store := _ }) hs (hout _ ?_)
        split <;> exact id
    · exact hs
  | lock i =>
    cases ht
    exact hs.lock he.2 i
  | save i =>
    cases ht
    exact Locked.goto (s := { s with store := _ }) hs (by rw [show s.handler i = .locked from he]; exact Iff.rfl)
  | init i now =>
    cases ht
    exact Locked.goto (s := { s with store := _ }) hs (by rw [show s.handler i = .saved from he]; exact Iff.rfl)
  | unlock i =>
    cases ht
    exact hs.unlock (by rw [show s.handler i = .renewed from he]; trivial)
  | passLock =>
    cases ht
    have hex : Exclusive s.Inside false := he.2 ▸ hs
    refine hex.enter (i := none) fun o => ?_
    cases o <;> simp [Inside, CheckerAt.Inside]
  | round now =>
    obtain ⟨readings, hc⟩ := he
    have hin : s.checker.Inside := by rw [hc]; trivial
    have hkeep : ∀ c : CheckerAt, c.Inside → ∀ store : TxStore, store.txInfoListLock = s.store.txInfoListLock →
        ({ s with store := store, checker := c } : RestThreads).Locked := by
      intro c hc' store hlock
      have hex : Exclusive s.Inside store.txInfoListLock := hlock ▸ hs
      refine hex.congr fun o => ?_
      cases o with
      | none => exact iff_of_true hc' hin
      | some j => exact Iff.rfl
    simp only [statementSystem, round, hc] at ht
    split at ht
    · cases ht
      exact hkeep .leaving trivial s.store rfl
    · split at ht
      · cases ht
      · cases ht
        exact hkeep .leaving trivial _ rfl
      · cases ht
        exact hkeep (.entry _) trivial s.store rfl
  | passUnlock =>
    cases ht
    have hin : s.checker.Inside := by rw [show s.checker = .leaving from he]; trivial
    refine hs.leave (i := none) hin fun o => ?_
    cases o <;> simp [Inside, CheckerAt.Inside]

end RestThreads

private theorem locked_of_exec {es : List Statement} (h : statementSystem.Allowed .init es) {s : RestThreads}
    (hs : statementSystem.exec .init es = .ok s) : s.Locked :=
  System.exec_inv RestThreads.locked_init (fun _ _ _ hu he ht => hu.step he ht) h hs

/-- One thread at most is in the section, the lock is taken exactly when one is, and no other statement changes the
list. -/
theorem list_exclusive {es : List Statement} (h : statementSystem.Allowed .init es) {s : RestThreads}
    (hs : statementSystem.exec .init es = .ok s) :
    (∀ o o', s.Inside o → s.Inside o' → o = o') ∧ (s.store.txInfoListLock = true ↔ ∃ o, s.Inside o) ∧
      ∀ e t, statementSystem.enabled s e → statementSystem.step s e = .ok t → t.list ≠ s.list →
        s.Inside e.thread := by
  have hlocked := locked_of_exec h hs
  refine ⟨hlocked.unique, hlocked.taken, fun e t he ht hne => ?_⟩
  cases e with
  | save i =>
    have hi : s.handler i = .locked := he
    simp only [Statement.thread, RestThreads.Inside, hi, HandlerAt.Inside]
  | init i now =>
    have hi : s.handler i = .saved := he
    simp only [Statement.thread, RestThreads.Inside, hi, HandlerAt.Inside]
  | round now =>
    obtain ⟨readings, hc⟩ := he
    simp only [Statement.thread, RestThreads.Inside, hc, CheckerAt.Inside]
  | strncpy i =>
    refine absurd ?_ hne
    cases ht
    simp only [RestThreads.strncpy]
    split
    · split <;> rfl
    · rfl
  | request i body =>
    cases ht
    exact absurd rfl hne
  | lock i =>
    cases ht
    exact absurd rfl hne
  | unlock i =>
    cases ht
    exact absurd rfl hne
  | passLock =>
    cases ht
    exact absurd rfl hne
  | passUnlock =>
    cases ht
    exact absurd rfl hne

/-! ### What the entries are put together from -/

/-- The entry is as `tx_info_state_init` of some request in the run left it, with its reading of the clock. -/
def RenewedIn (es : List Statement) (t : TxInfo) : Prop :=
  ∃ p i q s v, es = p ++ .init i t.initTime :: q ∧ statementSystem.exec .init p = .ok s ∧ v ∈ s.list ∧
    t = v.renewed t.initTime

theorem RenewedIn.mono {es : List Statement} {t : TxInfo} (h : RenewedIn es t) (e : Statement) :
    RenewedIn (es ++ [e]) t := by
  obtain ⟨p, i, q, s, v, rfl, hrest⟩ := h
  exact ⟨p, i, q ++ [e], s, v, by simp, hrest⟩

/-- Every array holds the text that some request posted for it, or is as it was in the beginning. -/
structure Drawn (es : List Statement) (t : TxInfo) : Prop where
  text : ∀ f, t.text f = strncpy _ [] ∨ ∃ i body key text, .request i body ∈ es ∧ (key, f) ∈ recvKeys ∧
    body.member key = .ok text ∧ t.text f = strncpy _ text
  state : t.state = .empty ∨ RenewedIn es t

namespace Drawn

variable {es : List Statement} {t : TxInfo}

theorem mono (h : Drawn es t) (e : Statement) : Drawn (es ++ [e]) t := by
  refine ⟨fun f => ?_, h.state.imp_right (RenewedIn.mono · e)⟩
  rcases h.text f with hf | ⟨i, body, key, text, hmem, hrest⟩
  · exact Or.inl hf
  · exact Or.inr ⟨i, body, key, text, List.mem_append_left _ hmem, hrest⟩

theorem setText (h : Drawn es t) (hempty : t.state = .empty) {i : Nat} {body : JsonValue} {key : String} {f : TxField}
    {text : List Char} (hmem : .request i body ∈ es) (hkey : (key, f) ∈ recvKeys)
    (htext : body.member key = .ok text) :
    Drawn es (t.setText f text) := by
  refine ⟨fun f' => ?_, Or.inl hempty⟩
  by_cases hf : f' = f
  · subst hf
    exact Or.inr ⟨i, body, key, text, hmem, hkey, htext, t.setText_self f' text⟩
  · rw [t.setText_of_ne hf]
    exact h.text f'

end Drawn

/-- The record and the entries are drawn from the requests so far, and so is what the handlers are about to copy. -/
structure Traced (es : List Statement) (s : RestThreads) : Prop where
  received : Drawn es s.store.txReceived
  empty : s.store.txReceived.state = .empty
  entries : ∀ t ∈ s.list, Drawn es t
  copying : ∀ i rest, s.handler i = .copying rest → .request i (s.req i) ∈ es ∧ rest <:+ recvKeys

namespace Traced

variable {es : List Statement} {s : RestThreads}

theorem init : Traced [] .init := by
  refine ⟨⟨fun _ => Or.inl rfl, Or.inl rfl⟩, rfl, ?_, ?_⟩ <;> simp [RestThreads.init, TxStore.init, RestThreads.list]

theorem mono (h : Traced es s) (e : Statement) : Traced (es ++ [e]) s := by
  refine ⟨h.received.mono e, h.empty, fun t ht => (h.entries t ht).mono e, fun i rest hi => ?_⟩
  obtain ⟨hmem, hsuffix⟩ := h.copying i rest hi
  exact ⟨List.mem_append_left _ hmem, hsuffix⟩

/-- A handler that goes on with other statements than those of `recvdata_copy`. -/
theorem goto (h : Traced es s) (i : Nat) {at' : HandlerAt} (hat : ∀ rest, at' ≠ .copying rest) :
    Traced es (s.goto i at') := by
  refine ⟨h.received, h.empty, h.entries, fun j rest hj => ?_⟩
  by_cases hji : j = i
  · subst hji
    rw [RestThreads.goto_self] at hj
    exact absurd hj (hat rest)
  · rw [RestThreads.goto_of_ne hji] at hj
    exact h.copying j rest hj

private theorem withList (h : Traced es s) {l : List TxInfo} (hl : ∀ t ∈ l, Drawn es t) :
    Traced es { s with store := { s.store with txInfoList := l } } :=
  ⟨h.received, h.empty, hl, h.copying⟩

private theorem withLock (h : Traced es s) (lock : Bool) :
    Traced es { s with store := { s.store with txInfoListLock := lock } } :=
  ⟨h.received, h.empty, h.entries, h.copying⟩

theorem request (h : Traced es s) (i : Nat) (body : JsonValue) :
    Traced (es ++ [.request i body]) (s.request i body) := by
  have hmono := h.mono (.request i body)
  refine ⟨hmono.received, hmono.empty, hmono.entries, fun j rest hj => ?_⟩
  by_cases hji : j = i
  · subst hji
    rw [RestThreads.request, RestThreads.goto_self] at hj
    cases hj
    refine ⟨?_, List.suffix_refl _⟩
    simp [RestThreads.request, RestThreads.goto]
  · rw [RestThreads.request, RestThreads.goto_of_ne hji] at hj
    have hreq : (s.request i body).req j = s.req j := Function.update_of_ne hji ..
    rw [hreq]
    exact hmono.copying j rest hj

theorem strncpy (h : Traced es s) (i : Nat) : Traced es (s.strncpy i) := by
  unfold RestThreads.strncpy
  split
  · rename_i key f rest hi
    obtain ⟨hmem, hsuffix⟩ := h.copying i _ hi
    split
    · exact h.goto i (by simp)
    · rename_i text htext
      have hkey : (key, f) ∈ recvKeys := hsuffix.subset List.mem_cons_self
      have hrest : rest <:+ recvKeys := (List.suffix_cons _ rest).trans hsuffix
      refine ⟨h.received.setText h.empty hmem hkey htext, h.empty, h.entries, fun j rest' hj => ?_⟩
      by_cases hji : j = i
      · subst hji
        rw [RestThreads.goto_self] at hj
        split at hj
        · cases hj
        · cases hj
          exact ⟨hmem, hrest⟩
      · rw [RestThreads.goto_of_ne hji] at hj
        exact h.copying j rest' hj
  · exact h

theorem round (h : Traced es s) {now : Int} {t : RestThreads} (ht : s.round now = .ok t) : Traced es t := by
  unfold RestThreads.round at ht
  split at ht
  · split at ht
    · cases ht
      exact ⟨h.received, h.empty, h.entries, h.copying⟩
    · split at ht
      · cases ht
      · cases ht
        exact ⟨h.received, h.empty, fun u hu => h.entries u (List.mem_of_mem_eraseIdx hu), h.copying⟩
      · cases ht
        exact ⟨h.received, h.empty, h.entries, h.copying⟩
  · cases ht
    exact h

theorem step (h : Traced es s) (hs : statementSystem.exec .init es = .ok s) {e : Statement} {t : RestThreads}
    (ht : statementSystem.step s e = .ok t) :
    Traced (es ++ [e]) t := by
  have hmono := h.mono e
  cases e with
  | request i body =>
    cases ht
    exact h.request i body
  | strncpy i =>
    cases ht
    exact hmono.strncpy i
  | lock i =>
    cases ht
    exact (hmono.withLock true).goto i (by simp)
  | save i =>
    cases ht
    refine (hmono.withList fun u hu => ?_).goto i (by simp)
    rw [save_eq_insertNew] at hu
    rcases KeyedList.mem_insertNew hu with hu | rfl
    · exact hmono.entries u hu
    · exact hmono.received
  | init i now =>
    cases ht
    refine (hmono.withList fun u hu => ?_).goto i (by simp)
    rcases KeyedList.mem_modifyFirst hu with hu | ⟨v, hv, rfl⟩
    · exact hmono.entries u hu
    · exact ⟨(hmono.entries v hv).text, Or.inr ⟨es, i, [], s, v, rfl, hs, hv, rfl⟩⟩
  | unlock i =>
    cases ht
    exact (hmono.withLock false).goto i (by simp)
  | passLock =>
    cases ht
    exact ⟨hmono.received, hmono.empty, hmono.entries, hmono.copying⟩
  | round now => exact hmono.round ht
  | passUnlock =>
    cases ht
    exact ⟨hmono.received, hmono.empty, hmono.entries, hmono.copying⟩

end Traced

/-- A round erases nothing, or the entry it is at. -/
theorem RestThreads.round_cases {s t : RestThreads} {now : Int} (ht : s.round now = .ok t) :
    t.list = s.list ∨ ∃ l₁ u l₂, s.list = l₁ ++ u :: l₂ ∧ t.list = l₁ ++ l₂ ∧
      testEntry s.store.fdLogOpen now u = .ok true := by
  unfold round at ht
  split at ht
  · rename_i readings hc
    split at ht
    · cases ht
      exact Or.inl rfl
    · rename_i u hu
      split at ht
      · cases ht
      · rename_i htest
        cases ht
        obtain ⟨hlt, hget⟩ := List.getElem?_eq_some_iff.1 hu
        refine Or.inr ⟨s.list.take readings.length, u, s.list.drop (readings.length + 1), ?_, ?_, htest⟩
        · rw [← hget, List.getElem_cons_drop, List.take_append_drop]
        · exact List.eraseIdx_eq_take_drop_succ ..
      · cases ht
        exact Or.inl rfl
  · cases ht
    exact Or.inl rfl

/-- The second request copies its `tx-ip` when the first has saved its entry and has not renewed it. -/
def tornRun : List Statement :=
  .request 0 (requestBody "10.0.0.1" "1") :: List.replicate 10 (.strncpy 0) ++ [.lock 0, .save 0,
    .request 1 (requestBody "10.0.0.2" "2"), .strncpy 1, .init 0 100, .unlock 0, .passLock, .round 200, .round 200,
    .passUnlock]

theorem list_exclusive_tornRun : ∃ s, statementSystem.exec .init tornRun = .ok s ∧
    ∀ o o', s.Inside o → s.Inside o' → o = o' := by
  obtain ⟨s, hs, -⟩ := System.exec_test (M := statementSystem) .init tornRun (fun _ => true)
    (by decide +kernel)
  exact ⟨s, hs, (list_exclusive (by decide +kernel) hs).1⟩

end Cloudein.Rest
