import Cloudein.Rest.Configuration

/-!
# Copies that stay strings

`configuration_handle` copies the remote address into `rm_ip` and ten members of the body into `tx_received`, each by
`strncpy` with the size of the array as the bound.  So the array has no NUL when the string is as long as the array or
longer, and `strcmp` and the stream operators read on into the arrays behind it.  The handlers of different requests
run in any order here: the first statements of a handler, its `recvdata_copy` and its section under the lock are a
step each, and passes of the state checker come in between.
-/

namespace Cloudein.Rest

open CString KeyedList Runs

/-- Where the handler of a request stands, with the parsed body when it comes to `recvdata_copy`. -/
inductive ServingPc where
  | idle
  | latched (body : JsonValue)
  | copied
  | done

structure Serving where
  manager : Manager
  pc : Nat → ServingPc

inductive ServingEvent where
  /-- The handler of a request begins and takes the address of the resource manager, if it is not set. -/
  | latch (i : Nat) (r : ConfigurationRequest)
  | copy (i : Nat)
  | save (i : Nat) (now : Int)
  | pass (now : Nat → Int)

namespace Serving

def init : Serving := ⟨.init, fun _ => .idle⟩

def setPc (s : Serving) (i : Nat) (c : ServingPc) : Serving := { s with pc := Function.update s.pc i c }

def setStore (s : Serving) (store : TxStore) : Serving := { s with manager := { s.manager with store := store } }

/-- A handler is done when `std::stoi` throws or the body does not parse. -/
def latch (i : Nat) (r : ConfigurationRequest) (s : Serving) : Serving :=
  let m := s.manager.latchAddress r
  { s with manager := m.1 }.setPc i (match m.2, r.body with
    | none, some body => .latched body
    | _, _ => .done)

def copy (i : Nat) (s : Serving) : Serving :=
  match s.pc i with
  | .latched body =>
    let r := s.manager.store.recvdataCopy body
    (s.setStore r.1).setPc i (if r.2.isNone then .copied else .done)
  | _ => s

def save (i : Nat) (now : Int) (s : Serving) : Serving := (s.setStore (s.manager.store.saveSection now)).setPc i .done

def pass (now : Nat → Int) (s : Serving) : Except Fault Serving :=
  (s.manager.store.stateCheckerLoop now).map s.setStore

end Serving

def servingSystem : System Serving ServingEvent Fault where
  enabled s
    | .latch i _ => s.pc i = .idle
    | .copy i => ∃ body, s.pc i = .latched body
    | .save i _ => s.pc i = .copied ∧ s.manager.store.txInfoListLock = false
    | .pass _ => s.manager.store.txInfoListLock = false
  step s
    | .latch i r => .ok (s.latch i r)
    | .copy i => .ok (s.copy i)
    | .save i now => .ok (s.save i now)
    | .pass now => s.pass now

/-! ### The property and the condition -/

/-- The members that `recvdata_copy` copies, those before the first that is missing or not a string. -/
def copiedMembers (obj : JsonValue) : List (String × TxField) → List (TxField × List Char)
  | [] => []
  | (key, f) :: ks => match obj.member key with
    | .error _ => []
    | .ok s => (f, s) :: copiedMembers obj ks

/-- `tx_ip` holds a string, and what is read at it depends on this array alone. -/
def TxInfo.OwnTxIp (t : TxInfo) : Prop :=
  HoldsString (t.text .txIp) ∧ ∀ u : TxInfo, u.text .txIp = t.text .txIp → u.txIp = cstr (t.text .txIp).val

/-- The guard of the first statements of `configuration_handle`. -/
def Manager.Unset (m : Manager) : Prop := cstr m.rmIp.val = [] ∧ m.rmPort = 0

/-- The arrays that the event copies into hold strings, and so does `tx_ip` wherever the section reads it: in the
record received and in the entries of the list before and after. -/
def StaysStrings (s : Serving) : ServingEvent → Prop
  | .latch _ r => s.manager.Unset → HoldsString (s.manager.latchAddress r).1.rmIp
  | .copy i => ∀ body, s.pc i = .latched body → ∀ p ∈ copiedMembers body recvKeys,
      HoldsString ((s.manager.store.recvdataCopy body).1.txReceived.text p.1)
  | .save _ now => s.manager.store.txReceived.OwnTxIp ∧ (∀ t ∈ s.manager.store.txInfoList, t.OwnTxIp) ∧
      ∀ t ∈ (s.manager.store.saveSection now).txInfoList, t.OwnTxIp
  | .pass _ => True

/-- The strings that the event copies are shorter than the arrays. -/
def CopiesFit (s : Serving) : ServingEvent → Prop
  | .latch _ r => s.manager.Unset → (cstr r.remoteAddress).length < 32
  | .copy i => ∀ body, s.pc i = .latched body → ∀ p ∈ copiedMembers body recvKeys,
      (cstr p.2).length < maxTokenStringLength
  | _ => True

/-! ### What a copy writes -/

private theorem TxInfo.ownTxIp {t : TxInfo} (h : HoldsString (t.text .txIp)) : t.OwnTxIp := by
  refine ⟨h, fun u hu => ?_⟩
  rw [TxInfo.txIp, TxField.all, List.flatMap_cons, hu, h.cstr_append]

private theorem copiedMembers_field {obj : JsonValue} {ks : List (String × TxField)} {f : TxField}
    (h : f ∈ (copiedMembers obj ks).map Prod.fst) : f ∈ ks.map Prod.snd := by
  induction ks with
  | nil => simp [copiedMembers] at h
  | cons k ks ih =>
    obtain ⟨key, f'⟩ := k
    unfold copiedMembers at h
    split at h
    · simp at h
    · rcases List.mem_cons.1 h with rfl | h
      · exact List.mem_cons_self
      · exact List.mem_cons_of_mem _ (ih h)

/-- The members copied are in their arrays, and the other arrays are as they were. -/
theorem copyMembers_text (obj : JsonValue) {ks : List (String × TxField)} (hks : (ks.map Prod.snd).Nodup)
    (t : TxInfo) :
    (∀ p ∈ copiedMembers obj ks, (copyMembers obj ks t).1.text p.1 = strncpy _ p.2) ∧
      ∀ f, f ∉ (copiedMembers obj ks).map Prod.fst → (copyMembers obj ks t).1.text f = t.text f := by
  induction ks generalizing t with
  | nil => exact ⟨by simp [copiedMembers], fun f _ => rfl⟩
  | cons k ks ih =>
    obtain ⟨key, f⟩ := k
    obtain ⟨hf, hks⟩ := List.nodup_cons.1 hks
    unfold copiedMembers copyMembers
    cases hmember : obj.member key with
    | error e => exact ⟨by simp, fun f _ => rfl⟩
    | ok s =>
      obtain ⟨hcopied, hother⟩ := ih hks (t.setText f s)
      -- No later member goes into the same array.
      have hlater : f ∉ (copiedMembers obj ks).map Prod.fst := fun h => hf (copiedMembers_field h)
      refine ⟨fun p hp => ?_, fun f' hf' => ?_⟩
      · rcases List.mem_cons.1 hp with rfl | hp
        · rw [hother f hlater]
          exact TxInfo.setText_self t f s
        · exact hcopied p hp
      · obtain ⟨hne, hf'⟩ := not_or.1 (fun h => hf' (List.mem_cons.2 h))
        rw [hother f' hf', TxInfo.setText_of_ne t hne]

private theorem copy_holdsString_iff (obj : JsonValue) (t : TxInfo) :
    (∀ p ∈ copiedMembers obj recvKeys, HoldsString ((recvdataCopy obj t).1.text p.1)) ↔
      ∀ p ∈ copiedMembers obj recvKeys, (cstr p.2).length < maxTokenStringLength := by
  have hcopied := (copyMembers_text obj (by decide : (recvKeys.map Prod.snd).Nodup) t).1
  refine forall₂_congr fun p hp => ?_
  rw [recvdataCopy, hcopied p hp, holdsString_strncpy]

/-- When the members copied fit, every array of the record holds a string if it did before. -/
theorem copy_strings {obj : JsonValue}
    (h : ∀ p ∈ copiedMembers obj recvKeys, (cstr p.2).length < maxTokenStringLength) {t : TxInfo}
    (ht : ∀ f, HoldsString (t.text f)) (f : TxField) : HoldsString ((recvdataCopy obj t).1.text f) := by
  by_cases hf : f ∈ (copiedMembers obj recvKeys).map Prod.fst
  · obtain ⟨p, hp, rfl⟩ := List.mem_map.1 hf
    exact (copy_holdsString_iff obj t).2 h p hp
  · rw [recvdataCopy, (copyMembers_text obj (by decide) t).2 f hf]
    exact ht f

/-! ### Runs -/

/-- Every array of the record received and the `tx_ip` of every entry hold strings. -/
structure Serving.Strings (s : Serving) : Prop where
  received : ∀ f, HoldsString (s.manager.store.txReceived.text f)
  entries : ∀ t ∈ s.manager.store.txInfoList, HoldsString (t.text .txIp)

namespace Serving

private theorem latch_store (i : Nat) (r : ConfigurationRequest) (s : Serving) :
    (s.latch i r).manager.store = s.manager.store := by
  show (s.manager.latchAddress r).1.store = _
  unfold Manager.latchAddress
  split
  · dsimp only
    split <;> rfl
  · rfl

private theorem latch_rmIp {r : ConfigurationRequest} {m : Manager} (h : m.Unset) :
    (m.latchAddress r).1.rmIp = strncpy 32 r.remoteAddress := by
  unfold Manager.Unset at h
  unfold Manager.latchAddress
  rw [if_pos h]
  dsimp only
  split <;> rfl

private theorem copy_of_latched {i : Nat} {body : JsonValue} {s : Serving} (h : s.pc i = .latched body) :
    (s.copy i).manager.store = (s.manager.store.recvdataCopy body).1 := by
  unfold copy
  rw [h]
  rfl

private theorem pass_sublist {now : Nat → Int} {s t : Serving} (h : s.pass now = .ok t) :
    t.manager.store.txReceived = s.manager.store.txReceived ∧
      t.manager.store.txInfoList.Sublist s.manager.store.txInfoList := by
  obtain ⟨l, hl, rfl⟩ := TxStore.map_stateCheckerLoop h
  exact ⟨rfl, checkEntries_sublist hl⟩

private theorem strings_init : init.Strings := by
  refine ⟨fun f => ?_, fun t ht => absurd ht List.not_mem_nil⟩
  exact holdsString_strncpy.2 (by decide)

namespace Strings

variable {s : Serving}

theorem saved (h : s.Strings) (now : Int) :
    ∀ t ∈ (s.manager.store.saveSection now).txInfoList, HoldsString (t.text .txIp) := by
  intro t ht
  obtain ⟨u, hu, htext⟩ := text_of_saveAndInit ht
  rw [htext]
  rcases hu with hu | rfl
  · exact h.entries u hu
  · exact h.received .txIp

private theorem stays_iff (h : s.Strings) (e : ServingEvent) : StaysStrings s e ↔ CopiesFit s e := by
  cases e with
  | latch i r =>
    refine imp_congr_right fun hunset => ?_
    rw [latch_rmIp hunset, holdsString_strncpy]
  | copy i =>
    refine forall₂_congr fun body hbody => ?_
    exact copy_holdsString_iff body s.manager.store.txReceived
  | save i now =>
    refine iff_of_true ⟨TxInfo.ownTxIp (h.received .txIp), fun t ht => ?_, fun t ht => ?_⟩ trivial
    · exact TxInfo.ownTxIp (h.entries t ht)
    · exact TxInfo.ownTxIp (h.saved now t ht)
  | pass now => exact Iff.rfl

theorem step (h : s.Strings) {e : ServingEvent} (he : servingSystem.enabled s e) (hfit : CopiesFit s e) {t : Serving}
    (ht : servingSystem.step s e = .ok t) : t.Strings := by
  cases e with
  | latch i r =>
    cases ht
    constructor
    · rw [latch_store]
      exact h.received
    · rw [latch_store]
      exact h.entries
  | copy i =>
    cases ht
    obtain ⟨body, hbody⟩ := he
    constructor
    · rw [copy_of_latched hbody]
      exact copy_strings (hfit body hbody) h.received
    · rw [copy_of_latched hbody]
      exact h.entries
  | save i now =>
    cases ht
    exact ⟨h.received, h.saved now⟩
  | pass now =>
    obtain ⟨hreceived, hsub⟩ := pass_sublist ht
    refine ⟨?_, fun u hu => h.entries u (hsub.mem hu)⟩
    rw [hreceived]
    exact h.received

end Strings

end Serving

/-- In every run of the server the copies stay strings exactly when the strings copied are shorter than the arrays. -/
theorem staysStrings_iff {es : List ServingEvent} (h : servingSystem.Allowed .init es) :
    servingSystem.Along StaysStrings .init es ↔ servingSystem.Along CopiesFit .init es :=
  System.along_congr Serving.strings_init (fun _ e hu _ => hu.stays_iff e)
    (fun _ _ _ hu he hfit ht => hu.step he hfit ht) h

/-- A request with a `tx-ip` of 64 characters. -/
def wideRequest : ConfigurationRequest :=
  ⟨"10.0.0.9".toList, "8080".toList, some (requestBody (String.ofList (List.replicate 64 '1')) "80"), 100⟩

/-- Its copy leaves no NUL in `tx_ip`. -/
theorem wideTxIp_unterminated :
    ¬ ∀ es, servingSystem.Allowed .init es → servingSystem.Along StaysStrings .init es := by
  intro h
  have hal : servingSystem.Allowed .init [.latch 0 wideRequest, .copy 0] := by
    refine System.along_cons_ok rfl rfl ?_
    exact ⟨⟨_, rfl⟩, fun _ _ => trivial⟩
  have hstays := (h _ hal).at (p := [ServingEvent.latch 0 wideRequest]) rfl
  exact absurd (hstays _ rfl (.txIp, List.replicate 64 '1') (by decide)) (by decide)

def shortRequest : ConfigurationRequest :=
  ⟨"10.0.0.9".toList, "8080".toList, some (requestBody "10.0.0.1" "1"), 100⟩

theorem staysStrings_shortRequest :
    servingSystem.Along StaysStrings .init [.latch 0 shortRequest, .copy 0, .save 0 100] ↔
      servingSystem.Along CopiesFit .init [.latch 0 shortRequest, .copy 0, .save 0 100] := by
  refine staysStrings_iff ?_
  refine System.along_cons_ok rfl rfl ?_
  refine System.along_cons_ok ⟨_, rfl⟩ rfl ?_
  exact ⟨⟨rfl, rfl⟩, fun _ _ => trivial⟩

end Cloudein.Rest
