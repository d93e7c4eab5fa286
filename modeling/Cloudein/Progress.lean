import Cloudein.EndToEnd

/-!
# No call is stuck

From every state that clients and server reach, whatever came before, a client can have all its calls completed
without another call or a step of another client: an object of the server waits for each method it has, its reply goes
to the wire, and the client is told; a call of another method ends without one (`calls_complete`).
-/

namespace Cloudein

open Protobuf Runs Server

def NetworkEvent.isCall {κ : Type} : NetworkEvent κ → Bool
  | call .. => true
  | arrive .. | transmit .. | written .. | complete .. => false

namespace Network

variable {κ : Type} {s t : Network κ}

/-- A request that is not under way any more was accepted. -/
def Delivered (s : Network κ) : Prop := ∀ k n, s.transitAt k n = some false → (k, n) ∈ s.accepted

theorem delivered_start (addr : ServerApi → Addr) : (start addr : Network κ).Delivered := by
  intro k n hfalse
  cases hfalse

theorem Delivered.congr (h : s.Delivered) (htransit : ∀ k n, t.transitAt k n = s.transitAt k n)
    (haccepted : t.accepted = s.accepted) : t.Delivered := by
  intro k n hfalse
  rw [haccepted]
  exact h k n ((htransit k n).symm.trans hfalse)

variable [DecidableEq κ]

theorem Delivered.step (h : s.Delivered) (hinv : s.Inv) {e : NetworkEvent κ} (he : networkSystem.enabled s e)
    (ht : networkSystem.step s e = .ok t) : t.Delivered := by
  cases e with
  | call k api info now a =>
    obtain ⟨c, hcall, -⟩ := hinv.clients.call he api info now
    obtain rfl := Except.ok.inj (hcall.symm.trans ht)
    intro k' n hfalse
    by_cases hkn : (k', n) = (k, (s.client k).nextSerial)
    · obtain ⟨rfl, rfl⟩ := Prod.mk.inj hkn
      rw [transitAt, called, setWire_self] at hfalse
      cases hfalse
    · rw [transitAt, called, setWire_of_ne hkn] at hfalse
      exact h k' n hfalse
  | arrive k n api a peer fresh =>
    obtain ⟨⟨w, hw, htransit, hmethod⟩, hreg⟩ := he
    obtain ⟨u, -, harrive, -⟩ := hinv.servers.arrive hw (hinv.clients.made hw) htransit hmethod hreg
    obtain rfl := Except.ok.inj (harrive.symm.trans ht)
    intro k' n' hfalse
    by_cases hkn : (k', n') = (k, n)
    · rw [hkn]
      exact List.mem_append_right _ List.mem_cons_self
    · rw [transitAt, arrived, setWire_of_ne hkn] at hfalse
      exact List.mem_append_left _ (h k' n' hfalse)
  | transmit a =>
    obtain ⟨api, k, n, w, hw, htransmit, -⟩ := hinv.servers.transmit he
    obtain rfl := Except.ok.inj ((congrArg Except.ok htransmit).symm.trans ht)
    refine h.congr (fun k' n' => ?_) rfl
    exact setWire_congr hw rfl { w with reply := some (callClass api).message.text } Wire.inTransit rfl k' n'
  | written a ok fresh =>
    simp only [networkSystem, Network.written] at ht
    split at ht
    · cases ht
    · cases ht
      exact h
  | complete k a ok =>
    obtain ⟨call, c, w, -, hw, -, -, hcomplete, -⟩ := hinv.clients.complete he.1 ok
    obtain rfl := Except.ok.inj (hcomplete.symm.trans ht)
    refine h.congr (fun k' n' => ?_) rfl
    exact setWire_congr hw rfl { w with ended := true } Wire.inTransit rfl k' n'

/-- No client makes a call. -/
abbrev answering : System (Network κ) (NetworkEvent κ) NetworkFault :=
  networkSystem.restrict fun e => e.isCall = false

/-! ### The part of the server -/

/-- gRPC and the server lead from `s` to `t` by at most `m` events. -/
structure Serves (m : Nat) (s t : Network κ) : Prop where
  reaches : answering.Reaches m s t
  inv : t.Inv
  delivered : t.Delivered
  client : t.client = s.client
  completed : t.completed = s.completed

namespace Serves

theorem refl (hinv : s.Inv) (h : s.Delivered) (m : Nat) : Serves m s s := ⟨System.reaches_refl m s, hinv, h, rfl, rfl⟩

private theorem single (hinv : s.Inv) (h : s.Delivered) {e : NetworkEvent κ} (he : networkSystem.enabled s e)
    (hcall : e.isCall = false) (ht : networkSystem.step s e = .ok t) (hclient : t.client = s.client)
    (hcompleted : t.completed = s.completed) : Serves 1 s t :=
  ⟨System.reaches_single (M := answering) ⟨hcall, he⟩ ht, hinv.next he ht, h.step hinv he ht, hclient, hcompleted⟩

theorem trans {m n : Nat} {u : Network κ} (h : Serves m s t) (h' : Serves n t u) : Serves (m + n) s u :=
  ⟨h.reaches.trans h'.reaches, h'.inv, h'.delivered, h'.client.trans h.client, h'.completed.trans h.completed⟩

end Serves

variable (hinv : s.Inv) (h : s.Delivered)

include hinv h

/-- A request of a method of the server finds an object that waits for it. -/
theorem accept {k : κ} {n : Nat} {r : Rpc} (hr : s.rpcAt k n = some r) {api : ServerApi}
    (hmethod : r.method = api.method) :
    ∃ t, Serves 1 s t ∧ (k, n) ∈ t.accepted := by
  obtain ⟨w, hw, rfl⟩ := Option.map_eq_some_iff.1 hr
  cases htransit : w.inTransit with
  | false =>
    refine ⟨s, .refl hinv h 1, h k n ?_⟩
    rw [transitAt, hw, Option.map_some, htransit]
  | true =>
    obtain ⟨a, hmem, -⟩ := hinv.servers.inv.accepting api
    obtain ⟨fresh, hfresh⟩ := hinv.servers.exists_fresh
    have he : networkSystem.enabled s (.arrive k n api a [] fresh) := ⟨⟨w, hw, htransit, hmethod⟩, hmem, hfresh⟩
    obtain ⟨u, -, harrive, -⟩ := hinv.servers.arrive hw (hinv.clients.made hw) htransit hmethod he.2
    refine ⟨s.arrived k n w u, .single hinv h he rfl harrive rfl rfl, ?_⟩
    exact List.mem_append_right _ List.mem_cons_self

/-- The reply to a call that was accepted goes to the wire. -/
theorem reply {k : κ} {n : Nat} (hmem : (k, n) ∈ s.accepted) :
    ∃ t, Serves 1 s t ∧ ∃ text, t.replyAt k n = some (some text) := by
  obtain ⟨i, hi⟩ := List.getElem?_of_mem hmem
  obtain ⟨-, -, r, -, hr, -⟩ := hinv.servers.accepted i k n hi
  obtain ⟨w, hw, rfl⟩ := Option.map_eq_some_iff.1 hr
  cases hreply : w.reply with
  | some text =>
    refine ⟨s, .refl hinv h 1, text, ?_⟩
    rw [replyAt, hw, Option.map_some, hreply]
  | none =>
    have hnone : s.replyAt k n = some none := by rw [replyAt, hw, Option.map_some, hreply]
    obtain ⟨a, api, peer, ha⟩ := hinv.servers.waiting i k n hi hnone
    have he : networkSystem.enabled s (.transmit a) := (hinv.servers.inv.agrees.finish a).2 ⟨api, _, ha⟩
    have htransmit : s.transmit a = s.setWire k n { w with reply := some (callClass api).message.text } := by
      simp only [Network.transmit, callAt_of_heap ha hi, hw]
    have hstep : networkSystem.step s (.transmit a) = .ok _ := congrArg Except.ok htransmit
    refine ⟨_, .single hinv h he rfl hstep rfl rfl, (callClass api).message.text, ?_⟩
    rw [replyAt, setWire_self]
    rfl

/-! ### The part of the client -/

/-- What a client sees of the end of one of its calls, and what it leaves of the others. -/
structure Completes (k : κ) (s t : Network κ) (c : Completion κ) : Prop where
  inv : t.Inv
  delivered : t.Delivered
  other : ∀ k', k' ≠ k → t.client k' = s.client k'
  completed : t.completed = s.completed ++ [c]
  client : c.client = k

omit hinv h in
theorem Serves.completes {m : Nat} {k : κ} {u : Network κ} {c : Completion κ} (h : Serves m s t)
    (h' : Completes k t u c) : Completes k s u c :=
  ⟨h'.inv, h'.delivered, fun k' hk => by rw [h'.other k' hk, h.client], by rw [h'.completed, h.completed], h'.client⟩

theorem completes {k : κ} {a : Addr} {ok : Bool} (he : networkSystem.enabled s (.complete k a ok))
    {call : AsyncClientCall}
    (hcall : (s.client k).heap a = some call) :
    ∃ t c, answering.Reaches 1 s t ∧ Completes k s t c ∧ c.api = call.api ∧ (ok = true → c.reply ≠ none) ∧
      (t.client k).outstanding = (s.client k).outstanding.erase a := by
  obtain ⟨call', c, w, hcall', hw, -, hout, hcomplete, -⟩ := hinv.clients.complete he.1 ok
  obtain rfl := Option.some.inj (hcall.symm.trans hcall')
  refine ⟨_, _, System.reaches_single (M := answering) ⟨rfl, he⟩ hcomplete, ⟨hinv.next he hcomplete,
    h.step hinv he hcomplete, fun k' hk => Function.update_of_ne hk .., rfl, rfl⟩, rfl, fun hok => ?_, ?_⟩
  · obtain ⟨call', w', text, hcall', hw', htext, hparse⟩ := he.2 hok
    obtain rfl := Option.some.inj (hcall.symm.trans hcall')
    obtain rfl := Option.some.inj (hw.symm.trans hw')
    rw [if_pos hok, htext]
    exact hparse
  · rw [← hout]
    exact congrArg Client.outstanding (Function.update_self ..)

/-- A client can have any of its calls completed; with the reply of the server, when it has the method. -/
theorem answer {k : κ} {a : Addr} (ha : a ∈ (s.client k).outstanding) :
    ∃ t c, answering.Reaches 3 s t ∧ Completes k s t c ∧
      (∀ api : ServerApi, api.method = c.api → c.reply ≠ none) ∧
      (t.client k).outstanding = (s.client k).outstanding.erase a := by
  obtain ⟨call, hcall, -⟩ := (hinv.clients.orderly k).sync.delivered ha
  by_cases hserved : ∃ api : ServerApi, api.method = call.api
  · obtain ⟨api, hapi⟩ := hserved
    obtain ⟨-, r, hr, hmethod⟩ := hinv.clients.live k a call hcall
    obtain ⟨t, ht, hmem⟩ := accept hinv h hr (hmethod.trans hapi.symm)
    obtain ⟨u, hu, text, htext⟩ := reply ht.inv ht.delivered hmem
    obtain ⟨w, hw, hreply⟩ := Option.map_eq_some_iff.1 htext
    have hserves := ht.trans hu
    have hcall' : (u.client k).heap a = some call := by rw [hserves.client, hcall]
    -- The text is that of the class of the method, which the client can read.
    obtain ⟨i, api', hi, hapi', rfl⟩ := hu.inv.servers.replied k call.serial text htext
    have hmethod' : api'.method = call.api := by
      obtain ⟨-, r', hr', hlive⟩ := hu.inv.clients.live k a call hcall'
      obtain ⟨-, api'', r'', hapi'', hr'', haccepted, -⟩ := hu.inv.servers.accepted i k call.serial hi
      obtain rfl := Option.some.inj (hapi'.symm.trans hapi'')
      obtain rfl := Option.some.inj (hr'.symm.trans hr'')
      exact haccepted.symm.trans hlive
    have hparse : parseReply call.api (callClass api').message.text ≠ none := by
      rw [← hmethod', parseReply_text]
      simp
    have he : networkSystem.enabled u (.complete k a true) := by
      refine ⟨by rw [hserves.client]; exact ha, fun _ => ⟨call, w, _, hcall', hw, hreply, hparse⟩⟩
    obtain ⟨v, c, hreaches, hcompletes, -, hreplied, hout⟩ := completes hu.inv hu.delivered he hcall'
    refine ⟨v, c, hserves.reaches.trans hreaches, hserves.completes hcompletes, fun _ _ => hreplied rfl, ?_⟩
    rw [hout, hserves.client]
  · have he : networkSystem.enabled s (.complete k a false) := ⟨ha, by simp⟩
    obtain ⟨t, c, hreaches, hcompletes, hapi, -, hout⟩ := completes hinv h he hcall
    refine ⟨t, c, hreaches.mono (by omega), hcompletes, fun api hmethod => ?_, hout⟩
    exact absurd ⟨api, hmethod.trans hapi⟩ hserved

/-- All of them, one after the other. -/
theorem drain (k : κ) :
    ∃ t cs, answering.Reaches (3 * (s.client k).outstanding.length) s t ∧ t.Inv ∧
      (t.client k).outstanding = [] ∧ (∀ k', k' ≠ k → t.client k' = s.client k') ∧ t.completed = s.completed ++ cs ∧
      cs.length = (s.client k).outstanding.length ∧
      ∀ c ∈ cs, c.client = k ∧ ∀ api : ServerApi, api.method = c.api → c.reply ≠ none := by
  induction hn : (s.client k).outstanding.length generalizing s with
  | zero =>
    have hnil := List.length_eq_zero_iff.1 hn
    exact ⟨s, [], System.reaches_refl _ s, hinv, hnil, fun _ _ => rfl, (List.append_nil _).symm, rfl, by simp⟩
  | succ n ih =>
    obtain ⟨a, ha⟩ := List.exists_mem_of_length_pos (show 0 < (s.client k).outstanding.length by omega)
    obtain ⟨t, c, hreaches, hc, hreply, hout⟩ := answer hinv h ha
    have hlength : (t.client k).outstanding.length = n := by
      rw [hout, List.length_erase_of_mem ha, hn]
      rfl
    obtain ⟨u, cs, hreaches', hinv', hnil, hother, hcompleted, hcs, hall⟩ := ih hc.inv hc.delivered hlength
    refine ⟨u, c :: cs, (hreaches.trans hreaches').mono (by omega), hinv', hnil, fun k' hk => ?_, ?_, ?_, ?_⟩
    · rw [hother k' hk, hc.other k' hk]
    · rw [hcompleted, hc.completed, List.append_assoc]
      rfl
    · rw [List.length_cons, hcs]
    · exact List.forall_mem_cons.2 ⟨⟨hc.client, hreply⟩, hall⟩

omit hinv h

end Network

end Cloudein
