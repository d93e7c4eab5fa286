import Cloudein.Lib.KeyedList
import Cloudein.Rest.TxInfo

/-!
# The list of transmitters

`tx_info_list` is shared by the handlers of `set-tx-configuration` and the state checker, under `tx_info_list_lock`.
A handler saves the record `tx_received` when no entry has its `tx_ip`, and sets the state and the time of the entry
that has it.  A pass of the checker goes through the entries, tests each against the timeout of its state and ends
after it erased one.  `diff_times_sec` prints a warning to `fd_log` when the clock is behind the time of an entry.
-/

namespace Cloudein.Rest

open KeyedList

/-- The entry with the state and the time that `tx_info_state_init` gives it. -/
def TxInfo.renewed (now : Int) (t : TxInfo) : TxInfo := { t with state := .init, initTime := now }

@[simp] theorem TxInfo.renewed_txIp (now : Int) (t : TxInfo) : (t.renewed now).txIp = t.txIp := rfl

/-- `if_there_is_not_data_tx_info_save`, with the list and the value it returns. -/
def ifThereIsNotDataTxInfoSave (txReceived : TxInfo) (txIp : List Char) (l : List TxInfo) : List TxInfo × Int :=
  if l.any fun tmp => tmp.txIp = txIp then (l, 0) else (l ++ [txReceived], 1)

/-- `tx_info_state_init`, which leaves the list alone when no entry has the `tx_ip`. -/
def txInfoStateInit (txIp : List Char) (now : Int) (l : List TxInfo) : List TxInfo :=
  modifyFirst TxInfo.txIp txIp (TxInfo.renewed now) l

def saveAndInit (txReceived : TxInfo) (now : Int) (l : List TxInfo) : List TxInfo :=
  txInfoStateInit txReceived.txIp now (ifThereIsNotDataTxInfoSave txReceived txReceived.txIp l).1

/-! ### The state checker -/

def txInfoReadyTimeoutSec : Int := 60
def txInfoKeepAliveTimeoutSec : Int := 15

/-- The time after which an entry is erased.  For `TX_ST_INIT` the source tests 10, with the comparison against
`TX_INFO_INIT_TIMEOUT_SEC` commented out. -/
def TxState.timeoutSec : TxState → Option Int
  | .init => some 10
  | .ready => some txInfoReadyTimeoutSec
  | .connected => some txInfoKeepAliveTimeoutSec
  | _ => none

inductive Fault where
  | nullStream
deriving DecidableEq, Repr

def diffTimesSec (fdLogOpen : Bool) (tNew tOld : Int) : Except Fault Int :=
  if tNew < tOld then
    if fdLogOpen then .ok (tNew - tOld) else .error .nullStream
  else .ok (tNew - tOld)

/-- The loop of `state_checker_loop`; `now i` is the reading of the clock at the entry `i`, if it is read there. -/
def checkEntries (fdLogOpen : Bool) : (Nat → Int) → List TxInfo → Except Fault (List TxInfo)
  | _, [] => .ok []
  | now, t :: l =>
    match t.state.timeoutSec with
    | none => (checkEntries fdLogOpen (fun i => now (i + 1)) l).map (t :: ·)
    | some limit => match diffTimesSec fdLogOpen (now 0) t.initTime with
      | .error e => .error e
      | .ok diff =>
        if diff > limit then .ok l else (checkEntries fdLogOpen (fun i => now (i + 1)) l).map (t :: ·)

/-! ### The state the threads share -/

structure TxStore where
  txReceived : TxInfo
  txInfoList : List TxInfo
  txInfoListLock : Bool
  fdLogOpen : Bool

namespace TxStore

/-- The globals of the program, all in static storage; `fd_log` is null and nothing assigns it. -/
def init : TxStore := ⟨.zero, [], false, false⟩

def lockTxInfoList (s : TxStore) : TxStore := { s with txInfoListLock := true }

def unlockTxInfoList (s : TxStore) : TxStore := { s with txInfoListLock := false }

def recvdataCopy (obj : JsonValue) (s : TxStore) : TxStore × Option JsonException :=
  let r := Rest.recvdataCopy obj s.txReceived
  ({ s with txReceived := r.1 }, r.2)

def saveSection (now : Int) (s : TxStore) : TxStore :=
  let s := s.lockTxInfoList
  { s with txInfoList := saveAndInit s.txReceived now s.txInfoList }.unlockTxInfoList

def stateCheckerLoop (now : Nat → Int) (s : TxStore) : Except Fault TxStore :=
  let s := s.lockTxInfoList
  match checkEntries s.fdLogOpen now s.txInfoList with
  | .error e => .error e
  | .ok l => .ok { s with txInfoList := l }.unlockTxInfoList

end TxStore

/-! ### What a copy does to the store -/

namespace TxStore

/-- A copy that returns puts the configuration posted into the record, and touches nothing else. -/
theorem recvdataCopy_ok {body : JsonValue} {g : TxField → List Char} (h : posted body = .ok g) (s : TxStore) :
    ∃ r : TxInfo, r.Holds g ∧ s.recvdataCopy body = ({ s with txReceived := r }, none) := by
  obtain ⟨r, hr, hholds⟩ := Rest.recvdataCopy_ok h s.txReceived
  exact ⟨r, hholds, by simp only [recvdataCopy, hr]⟩

theorem recvdataCopy_error {body : JsonValue} {e : JsonException} (h : posted body = .error e) (s : TxStore) :
    ∃ r : TxInfo, s.recvdataCopy body = ({ s with txReceived := r }, some e) := by
  obtain ⟨r, hr⟩ := Rest.recvdataCopy_error h s.txReceived
  exact ⟨r, by simp only [recvdataCopy, hr]⟩

end TxStore

/-! ### What the save section does -/

theorem save_eq_insertNew (r : TxInfo) (l : List TxInfo) :
    (ifThereIsNotDataTxInfoSave r r.txIp l).1 = insertNew TxInfo.txIp r l := by
  unfold ifThereIsNotDataTxInfoSave insertNew
  split <;> rfl

private theorem saveAndInit_eq (r : TxInfo) (now : Int) (l : List TxInfo) :
    saveAndInit r now l = modifyFirst TxInfo.txIp r.txIp (TxInfo.renewed now) (insertNew TxInfo.txIp r l) := by
  rw [saveAndInit, save_eq_insertNew, txInfoStateInit]

/-- The entry of the record's `tx_ip`, the record itself when there was none, is renewed. -/
theorem lookup_saveAndInit (r : TxInfo) (now : Int) (l : List TxInfo) :
    lookup TxInfo.txIp (saveAndInit r now l) =
      Function.update (lookup TxInfo.txIp l) r.txIp (some (((lookup TxInfo.txIp l r.txIp).getD r).renewed now)) := by
  rw [saveAndInit_eq, lookup_modifyFirst (fun t => t.renewed_txIp now), lookup_insertNew, Function.update_self,
    Function.update_idem]
  rfl

theorem distinct_saveAndInit {l : List TxInfo} (h : Distinct TxInfo.txIp l) (r : TxInfo) (now : Int) :
    Distinct TxInfo.txIp (saveAndInit r now l) := by
  rw [saveAndInit_eq]
  exact (h.insertNew r).modifyFirst _ fun t => t.renewed_txIp now

/-- The save section puts no other arrays into the list than those of the record. -/
theorem text_of_saveAndInit {r t : TxInfo} {now : Int} {l : List TxInfo} (h : t ∈ saveAndInit r now l) :
    ∃ u, (u ∈ l ∨ u = r) ∧ t.text = u.text := by
  rw [saveAndInit_eq] at h
  rcases mem_modifyFirst h with ht | ⟨u, hu, rfl⟩
  · exact ⟨t, mem_insertNew ht, rfl⟩
  · exact ⟨u, mem_insertNew hu, rfl⟩

/-! ### What a pass does -/

def Expired (now : Int) (t : TxInfo) : Prop := ∃ limit, t.state.timeoutSec = some limit ∧ limit < now - t.initTime

/-- A pass that completes erases nothing, or one expired entry. -/
theorem checkEntries_cases {o : Bool} {now : Nat → Int} {l l' : List TxInfo} (h : checkEntries o now l = .ok l') :
    l' = l ∨ ∃ l₁ t l₂, l = l₁ ++ t :: l₂ ∧ l' = l₁ ++ l₂ ∧ Expired (now l₁.length) t := by
  induction l generalizing now l' with
  | nil =>
    obtain rfl : [] = l' := by simpa [checkEntries] using h
    exact Or.inl rfl
  | cons t l ih =>
    -- An entry that is not erased stays in front of what the rest of the pass leaves.
    have hkeep : (checkEntries o (fun i => now (i + 1)) l).map (t :: ·) = .ok l' →
        l' = t :: l ∨ ∃ l₁ u l₂, t :: l = l₁ ++ u :: l₂ ∧ l' = l₁ ++ l₂ ∧ Expired (now l₁.length) u := by
      intro hmap
      cases hrest : checkEntries o (fun i => now (i + 1)) l with
      | error e =>
        rw [hrest] at hmap
        cases hmap
      | ok m =>
        rw [hrest] at hmap
        obtain rfl : t :: m = l' := by simpa [Except.map] using hmap
        rcases ih hrest with rfl | ⟨l₁, u, l₂, rfl, rfl, hexp⟩
        · exact Or.inl rfl
        · exact Or.inr ⟨t :: l₁, u, l₂, rfl, rfl, hexp⟩
    unfold checkEntries at h
    split at h
    · exact hkeep h
    · rename_i limit hlimit
      split at h
      · cases h
      · rename_i diff hdiff
        split at h
        · rename_i hlt
          obtain rfl : l = l' := by simpa using h
          have hsub : diff = now 0 - t.initTime := by
            unfold diffTimesSec at hdiff
            split at hdiff
            · split at hdiff
              · simpa using hdiff.symm
              · cases hdiff
            · simpa using hdiff.symm
          exact Or.inr ⟨[], t, l, rfl, rfl, limit, hlimit, by rw [List.length_nil]; omega⟩
        · exact hkeep h

/-- A pass changes the list as `checkEntries` says and releases the lock. -/
theorem TxStore.stateCheckerLoop_eq (now : Nat → Int) (s : TxStore) :
    s.stateCheckerLoop now = (checkEntries s.fdLogOpen now s.txInfoList).map fun l =>
      { s with txInfoList := l, txInfoListLock := false } := by
  simp only [stateCheckerLoop, lockTxInfoList, unlockTxInfoList]
  cases checkEntries s.fdLogOpen now s.txInfoList <;> rfl

theorem TxStore.map_stateCheckerLoop {α : Type} {now : Nat → Int} {s : TxStore} {f : TxStore → α} {t : α}
    (h : (s.stateCheckerLoop now).map f = .ok t) :
    ∃ l, checkEntries s.fdLogOpen now s.txInfoList = .ok l ∧
      t = f { s with txInfoList := l, txInfoListLock := false } := by
  rw [stateCheckerLoop_eq] at h
  cases hl : checkEntries s.fdLogOpen now s.txInfoList with
  | error e =>
    rw [hl] at h
    cases h
  | ok l =>
    rw [hl] at h
    exact ⟨l, rfl, (Except.ok.inj h).symm⟩

theorem checkEntries_sublist {o : Bool} {now : Nat → Int} {l l' : List TxInfo} (h : checkEntries o now l = .ok l') :
    l'.Sublist l := by
  rcases checkEntries_cases h with rfl | ⟨l₁, t, l₂, rfl, rfl, -⟩
  · exact List.Sublist.refl _
  · exact (List.sublist_cons_self t l₂).append_left l₁

/-- No entry that the pass tests has a time ahead of the clock: an entry is tested when its state has a timeout and no
entry before it has expired. -/
def ClockNotBehind (now : Nat → Int) (l : List TxInfo) : Prop :=
  ∀ i t, l[i]? = some t → t.state.timeoutSec ≠ none → (∀ j u, j < i → l[j]? = some u → ¬ Expired (now j) u) →
    t.initTime ≤ now i

private theorem clockNotBehind_cons {now : Nat → Int} {t : TxInfo} {l : List TxInfo} :
    ClockNotBehind now (t :: l) ↔
      (t.state.timeoutSec ≠ none → t.initTime ≤ now 0) ∧
        (¬ Expired (now 0) t → ClockNotBehind (fun i => now (i + 1)) l) := by
  constructor
  · intro h
    refine ⟨fun ht => h 0 t rfl ht fun j u hj => absurd hj (Nat.not_lt_zero j), fun hexp i u hu htimeout hj => ?_⟩
    refine h (i + 1) u hu htimeout fun j v hji hv => ?_
    cases j with
    | zero =>
      obtain rfl : t = v := by simpa using hv
      exact hexp
    | succ j => exact hj j v (by omega) hv
  · rintro ⟨h0, hrest⟩ i u hu htimeout hj
    cases i with
    | zero =>
      obtain rfl : t = u := by simpa using hu
      exact h0 htimeout
    | succ i =>
      have hexp : ¬ Expired (now 0) t := hj 0 t (by omega) rfl
      exact hrest hexp i u hu htimeout fun j v hji hv => hj (j + 1) v (by omega) hv

/-- Without a log stream a pass completes exactly when the clock is not behind an entry it tests. -/
theorem checkEntries_ok_iff {now : Nat → Int} {l : List TxInfo} :
    (∃ l', checkEntries false now l = .ok l') ↔ ClockNotBehind now l := by
  induction l generalizing now with
  | nil => exact iff_of_true ⟨[], rfl⟩ (by simp [ClockNotBehind])
  | cons t l ih =>
    have hmap : (∃ l', (checkEntries false (fun i => now (i + 1)) l).map (t :: ·) = .ok l') ↔
        ClockNotBehind (fun i => now (i + 1)) l := by
      rw [← ih]
      cases checkEntries false (fun i => now (i + 1)) l <;> simp [Except.map]
    rw [clockNotBehind_cons]
    cases hlimit : t.state.timeoutSec with
    | none =>
      have hexp : ¬ Expired (now 0) t := by
        rintro ⟨limit, hsome, -⟩
        rw [hlimit] at hsome
        cases hsome
      simp only [checkEntries, hlimit, hmap, hexp]
      simp
    | some limit =>
      have hexp : Expired (now 0) t ↔ limit < now 0 - t.initTime := by simp [Expired, hlimit]
      by_cases hbehind : now 0 < t.initTime
      · have hnot : ¬ t.initTime ≤ now 0 := by omega
        simp [checkEntries, hlimit, diffTimesSec, hbehind, hnot]
      · have hle : t.initTime ≤ now 0 := by omega
        by_cases hgt : limit < now 0 - t.initTime
        · simp [checkEntries, hlimit, diffTimesSec, hbehind, hgt, hle, hexp]
        · simp only [checkEntries, hlimit, diffTimesSec, hbehind, if_false, gt_iff_lt, hgt, hmap, hexp]
          simp [hle]

end Cloudein.Rest
