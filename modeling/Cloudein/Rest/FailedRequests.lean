import Cloudein.Rest.TxStore

/-!
# Failed requests leave no trace

Requests one after another: `recvdata_copy` and, when it returns, the section under the lock.  A copy that throws
leaves `tx_received` overwritten up to the member that failed.  No request sets the array `zone_id`, the time or the
state of `tx_received`, and a copy that returns overwrites all the rest, with the padding of `strncpy` behind a
shorter string.  So what a request saves depends on its own body alone (`recvdataCopy_configured`), and the list is
the one of the requests whose copy returned.
-/

namespace Cloudein.Rest

open CString

/-- The steps of `configuration_handle` on the store, with the body and the reading of the clock. -/
def TxStore.handle (s : TxStore) (p : JsonValue × Int) : TxStore :=
  match s.recvdataCopy p.1 with
  | (s, some _) => s
  | (s, none) => s.saveSection p.2

def TxStore.handleAll (ps : List (JsonValue × Int)) (s : TxStore) : TxStore := ps.foldl TxStore.handle s

/-- `recvdata_copy` of the body returns, from the record as it is in the beginning. -/
def Returns (body : JsonValue) : Prop := (recvdataCopy body .zero).2 = none

instance (body : JsonValue) : Decidable (Returns body) :=
  inferInstanceAs (Decidable ((recvdataCopy body .zero).2 = none))

/-! ### What a copy leaves in the record -/

/-- The fields that no request sets are as in the beginning. -/
structure TxInfo.Untouched (t : TxInfo) : Prop where
  zoneId : t.text .zoneId = strncpy _ []
  initTime : t.initTime = 0
  state : t.state = .empty

/-- The record with the bytes of one configuration and of no other. -/
def configured (g : TxField → List Char) : TxInfo :=
  ⟨fun f => if f = .zoneId then strncpy _ [] else strncpy _ (g f), 0, .empty⟩

theorem TxInfo.Untouched.copyMembers {t : TxInfo} (h : t.Untouched) (obj : JsonValue) {ks : List (String × TxField)}
    (hks : TxField.zoneId ∉ ks.map Prod.snd) : (copyMembers obj ks t).1.Untouched := by
  induction ks generalizing t with
  | nil => exact h
  | cons k ks ih =>
    obtain ⟨key, f⟩ := k
    obtain ⟨hf, hks⟩ := not_or.1 (fun hmem => hks (List.mem_cons.2 hmem))
    unfold Rest.copyMembers
    split
    · exact h
    · rename_i s hs
      refine ih ⟨?_, h.initTime, h.state⟩ hks
      rw [TxInfo.setText_of_ne t hf]
      exact h.zoneId

theorem TxInfo.Untouched.recvdataCopy {t : TxInfo} (h : t.Untouched) (obj : JsonValue) :
    (Rest.recvdataCopy obj t).1.Untouched :=
  h.copyMembers obj (by decide)

/-- A copy that returns leaves the bytes of its own request, whatever was copied before. -/
theorem recvdataCopy_configured {obj : JsonValue} {g : TxField → List Char} (hg : posted obj = .ok g) {t : TxInfo}
    (h : t.Untouched) : recvdataCopy obj t = (configured g, none) := by
  obtain ⟨t', ht', hholds⟩ := recvdataCopy_ok hg t
  have huntouched : t'.Untouched := by
    have hcopy := h.recvdataCopy obj
    rwa [ht'] at hcopy
  have htext : t'.text = (configured g).text := by
    funext f
    by_cases hf : f = .zoneId
    · subst hf
      exact huntouched.zoneId
    · simp only [configured, if_neg hf]
      exact hholds f hf
  have hrecord : t' = configured g := by
    rw [configured, ← huntouched.initTime, ← huntouched.state]
    exact congrArg (TxInfo.mk · _ _) htext
  rw [ht', hrecord]

private theorem recvdataCopy_returns {body : JsonValue} {t : TxInfo} :
    (recvdataCopy body t).2 = none ↔ ∃ g, posted body = .ok g := by
  cases h : posted body with
  | error e =>
    obtain ⟨t', ht'⟩ := recvdataCopy_error h t
    simp [ht']
  | ok g =>
    obtain ⟨t', ht', -⟩ := recvdataCopy_ok h t
    simp [ht']

private theorem returns_iff {body : JsonValue} : Returns body ↔ ∃ g, posted body = .ok g := recvdataCopy_returns

/-! ### What a request does to the store -/

/-- Between two requests the lock is free and the record has nothing in the fields that no request sets. -/
structure TxStore.Clean (s : TxStore) : Prop where
  lock : s.txInfoListLock = false
  received : s.txReceived.Untouched

private theorem TxStore.clean_init : TxStore.init.Clean := ⟨rfl, rfl, rfl, rfl⟩

theorem TxStore.Clean.handle {s : TxStore} (h : s.Clean) (p : JsonValue × Int) : (s.handle p).Clean := by
  have hreceived := h.received.recvdataCopy p.1
  rcases hcopy : Rest.recvdataCopy p.1 s.txReceived with ⟨t, thrown⟩
  rw [hcopy] at hreceived
  simp only [TxStore.handle, TxStore.recvdataCopy, hcopy]
  cases thrown with
  | none => exact ⟨rfl, hreceived⟩
  | some e => exact ⟨h.lock, hreceived⟩

theorem TxStore.Clean.handleAll {s : TxStore} (h : s.Clean) (ps : List (JsonValue × Int)) :
    (handleAll ps s).Clean := by
  induction ps generalizing s with
  | nil => exact h
  | cons p ps ih => exact ih (h.handle p)

/-- The list after a request depends on the list before, the body and the clock, and not on the record. -/
theorem TxStore.Clean.handle_list {s : TxStore} (h : s.Clean) {body : JsonValue} {g : TxField → List Char}
    (hg : posted body = .ok g) (now : Int) :
    (s.handle (body, now)).txInfoList = saveAndInit (configured g) now s.txInfoList := by
  simp only [TxStore.handle, TxStore.recvdataCopy, recvdataCopy_configured hg h.received]
  rfl

private theorem TxStore.handle_list_of_throws {s : TxStore} {body : JsonValue} {e : JsonException}
    (h : posted body = .error e) (now : Int) : (s.handle (body, now)).txInfoList = s.txInfoList := by
  obtain ⟨r, hcopy⟩ := TxStore.recvdataCopy_error h s
  simp only [TxStore.handle, hcopy]

/-- Two runs from stores with the same list, one of them without the requests whose copy throws, end with the same
list. -/
theorem TxStore.handleAll_filter {s s' : TxStore} (h : s.Clean) (h' : s'.Clean) (hlist : s.txInfoList = s'.txInfoList)
    (ps : List (JsonValue × Int)) :
    (handleAll ps s).txInfoList = (handleAll (ps.filter fun p => Returns p.1) s').txInfoList := by
  induction ps generalizing s s' with
  | nil => exact hlist
  | cons p ps ih =>
    obtain ⟨body, now⟩ := p
    -- After a failed request the two records differ, so the induction asks for equal lists only.
    cases hg : posted body with
    | error e =>
      have hthrows : ¬ Returns body := by simp [returns_iff, hg]
      rw [List.filter_cons_of_neg (by simpa using hthrows)]
      exact ih (h.handle _) h' ((handle_list_of_throws hg now).trans hlist)
    | ok g =>
      have hreturns : Returns body := returns_iff.2 ⟨g, hg⟩
      rw [List.filter_cons_of_pos (by simpa using hreturns)]
      refine ih (h.handle _) (h'.handle _) ?_
      rw [h.handle_list hg, h'.handle_list hg, hlist]

/-- After any requests the list is the one of those whose copy returned, and the lock is free; whether a copy returns
does not depend on the record, and an entry that the next request creates has the bytes of its own configuration in
every array. -/
theorem failedRequests_noTrace (ps : List (JsonValue × Int)) :
    (∀ body t, (recvdataCopy body t).2 = none ↔ Returns body) ∧
      (TxStore.handleAll ps .init).txInfoList =
        (TxStore.handleAll (ps.filter fun p => Returns p.1) .init).txInfoList ∧
      (TxStore.handleAll ps .init).txInfoListLock = false ∧
      ∀ body now, ∀ t ∈ (TxStore.handleAll (ps ++ [(body, now)]) .init).txInfoList,
        (∃ u ∈ (TxStore.handleAll ps .init).txInfoList, t.text = u.text) ∨
          ∃ g, posted body = .ok g ∧ t.text = (configured g).text := by
  have hclean := TxStore.clean_init.handleAll ps
  refine ⟨fun body t => recvdataCopy_returns.trans returns_iff.symm,
    TxStore.handleAll_filter TxStore.clean_init TxStore.clean_init rfl ps, hclean.lock, fun body now t ht => ?_⟩
  have hnext : TxStore.handleAll (ps ++ [(body, now)]) .init = (TxStore.handleAll ps .init).handle (body, now) := by
    simp [TxStore.handleAll]
  rw [hnext] at ht
  cases hg : posted body with
  | error e =>
    rw [TxStore.handle_list_of_throws hg] at ht
    exact Or.inl ⟨t, ht, rfl⟩
  | ok g =>
    rw [hclean.handle_list hg] at ht
    obtain ⟨u, hu | rfl, htext⟩ := text_of_saveAndInit ht
    · exact Or.inl ⟨u, hu, htext⟩
    · exact Or.inr ⟨g, rfl, htext⟩

end Cloudein.Rest
