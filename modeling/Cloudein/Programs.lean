import Cloudein.Progress
import Cloudein.Session.Menu

/-!
# Client programs

Any number of clients run the loop of `main` of the API client, each at its own console, against the session server: a
round of the loop makes the call that the number asks for, while the calls that were made before go on.  When the loop
of a client has ended and its calls have, it has been told the end of one call for each number from 1 to 10 that it
was given, of the API of that number (`menu_answered`); and it can come there, whatever the others do, exactly when
its input stops the loop (`menu_finishes_iff`).  The server of `set_ST_gRPC`, for which `main` waits behind the loop,
is not part of these runs.
-/

namespace Cloudein

open Iostream Protobuf Runs Server

structure Programs (κ : Type) where
  network : Network κ
  menu : κ → Menu
  /-- The loop of `main` goes on. -/
  running : κ → Bool

inductive ProgramEvent (κ : Type) where
  /-- A round of the loop of the client `k`, with the address of its call if it makes one. -/
  | round (k : κ) (a : Addr)
  | network (e : NetworkEvent κ)

inductive ProgramFault where
  | menu (e : MenuFault)
  | network (e : NetworkFault)

namespace Programs

variable {κ : Type} [DecidableEq κ] (clock : κ → Nat → Int)

def start (addr : ServerApi → Addr) (input : κ → List Char) : Programs κ :=
  ⟨.start addr, fun k => menuStart (input k), fun _ => true⟩

/-- A round of `menuLoop`; the request of context 0 is a call of the client. -/
def round (k : κ) (a : Addr) (s : Programs κ) : Except ProgramFault (Programs κ) :=
  let r := extractInt (s.menu k).cin (s.menu k).num
  let m := { s.menu k with cin := r.1, num := r.2 }
  match m.num with
  | none => .error (.menu .uninitialized)
  | some n =>
    if n = 0 then .ok { s with menu := Function.update s.menu k m, running := Function.update s.running k false }
    else match menuApi n with
      | none => .ok { s with menu := Function.update s.menu k m }
      | some api =>
        let now := clock k m.sessions.sent.length
        match (m.sessions.setState 0 api).request 0 now with
        | .error e => .error (.menu (.context e))
        | .ok t => match s.network.call k api m.sessions.info now a with
          | .error e => .error (.network e)
          | .ok net => .ok { s with network := net, menu := Function.update s.menu k { m with sessions := t } }

end Programs

/-- The calls of the clients are those of their loops. -/
def programSystem {κ : Type} [DecidableEq κ] (clock : κ → Nat → Int) :
    System (Programs κ) (ProgramEvent κ) ProgramFault where
  enabled s
    | .round k a => s.running k = true ∧ (s.network.client k).heap a = none
    | .network e => e.isCall = false ∧ networkSystem.enabled s.network e
  step s
    | .round k a => s.round clock k a
    | .network e => match networkSystem.step s.network e with
      | .error e => .error (.network e)
      | .ok net => .ok { s with network := net }

instance {κ : Type} [DecidableEq κ] (clock : κ → Nat → Int) (s : Programs κ) :
    ∀ e, Decidable ((programSystem clock).enabled s e)
  | .round k a => inferInstanceAs (Decidable (s.running k = true ∧ (s.network.client k).heap a = none))
  | .network e => inferInstanceAs (Decidable (e.isCall = false ∧ networkSystem.enabled s.network e))

/-! ### The loop -/

private theorem menuLoop_mono {clock : Nat → Int} {fuel : Nat} {m : Menu} {r : Except MenuFault Menu}
    (h : menuLoop clock fuel m = some r) : menuLoop clock (fuel + 1) m = some r := by
  induction fuel generalizing m with
  | zero => cases h
  | succ fuel ih =>
    rw [menuLoop] at h ⊢
    dsimp only at h ⊢
    split at h
    · exact h
    · split at h
      · rename_i hn
        rw [if_pos hn]
        exact h
      · rename_i hn
        rw [if_neg hn]
        split at h
        · exact ih h
        · split at h
          · exact h
          · exact ih h

namespace Network

variable {κ : Type} [DecidableEq κ] {s t : Network κ}

/-- Only a call makes a request. -/
theorem sent_of_not_call (hinv : s.Inv) {e : NetworkEvent κ} (he : networkSystem.enabled s e)
    (ht : networkSystem.step s e = .ok t) (hcall : e.isCall = false) (k : κ) :
    (t.client k).sent = (s.client k).sent := by
  have hrpc : ∀ n, t.rpcAt k n = s.rpcAt k n := by
    intro n'
    cases e with
    | call => cases hcall
    | arrive k' n api a peer fresh =>
      obtain ⟨⟨w, hw, htransit, hmethod⟩, hreg⟩ := he
      obtain ⟨u, -, harrive, -⟩ := hinv.servers.arrive hw (hinv.clients.made hw) htransit hmethod hreg
      obtain rfl := Except.ok.inj (harrive.symm.trans ht)
      exact setWire_congr hw rfl { w with inTransit := false } Wire.rpc rfl k n'
    | transmit a =>
      obtain ⟨api, k', n, w, hw, htransmit, -⟩ := hinv.servers.transmit he
      obtain rfl := Except.ok.inj ((congrArg Except.ok htransmit).symm.trans ht)
      exact setWire_congr hw rfl { w with reply := some (callClass api).message.text } Wire.rpc rfl k n'
    | written a ok fresh =>
      simp only [networkSystem, Network.written] at ht
      split at ht
      · cases ht
      · cases ht
        rfl
    | complete k' a ok =>
      obtain ⟨call, c, w, -, hw, -, -, hcomplete, -⟩ := hinv.clients.complete he.1 ok
      obtain rfl := Except.ok.inj (hcomplete.symm.trans ht)
      exact setWire_congr hw rfl { w with ended := true } Wire.rpc rfl k n'
  refine List.ext_getElem? fun n => ?_
  rw [← (hinv.next he ht).clients.sent, ← hinv.clients.sent, hrpc]

private theorem call_client {k : κ} {api : Api} {info : SessionInfo} {now : Int} {a : Addr}
    (h : s.call k api info now a = .ok t) :
    (t.client k).sent = (s.client k).sent ++ [(doFn api).rpc info (now + 5000)] ∧
      ∀ k', k' ≠ k → t.client k' = s.client k' := by
  unfold Network.call at h
  split at h
  · cases h
  · rename_i c hc
    cases h
    rw [Client.doCall_eq, Except.ok.injEq] at hc
    refine ⟨?_, fun k' hk => Function.update_of_ne hk ..⟩
    have hclient : Function.update s.client k c k = c := Function.update_self ..
    exact (congrArg Client.sent hclient).trans (congrArg Client.sent hc).symm

end Network

namespace Programs

variable {κ : Type} [DecidableEq κ] {clock : κ → Nat → Int} {s t : Programs κ}

/-- A round ends the loop, or `menuLoop` goes on after it, with one more request if it makes a call. -/
theorem round_cases {k : κ} {a : Addr} (hready : (s.menu k).sessions.Ready) (hrunning : s.running k = true)
    (h : s.round clock k a = .ok t) :
    ∃ m more, t.menu = Function.update s.menu k m ∧ t.running = Function.update s.running k more ∧ m.sessions.Ready ∧
      (∀ fuel, menuLoop (clock k) (fuel + 1) (s.menu k) =
        if more then menuLoop (clock k) fuel m else some (.ok m)) ∧
      (m.sessions.sent = (s.menu k).sessions.sent ∧ t.network = s.network ∨
        ∃ api now, m.sessions.sent = (s.menu k).sessions.sent ++ [(0, (doFn api).rpc menuInfo (now + 5000))] ∧
          s.network.call k api menuInfo now a = .ok t.network) := by
  have hgoes : s.running = Function.update s.running k true := by rw [← hrunning, Function.update_eq_self]
  unfold round at h
  cases hread : extractInt (s.menu k).cin (s.menu k).num with
  | mk cin num =>
    rw [hread] at h
    cases num with
    | none => cases h
    | some n =>
      dsimp only at h
      split at h
      · rename_i hn
        cases h
        refine ⟨_, false, rfl, rfl, hready, fun fuel => ?_, Or.inl ⟨rfl, rfl⟩⟩
        simp [menuLoop, hread, hn]
      · rename_i hn
        split at h
        · rename_i hapi
          cases h
          refine ⟨_, true, rfl, hgoes, hready, fun fuel => ?_, Or.inl ⟨rfl, rfl⟩⟩
          simp [menuLoop, hread, hn, hapi]
        · rename_i api hapi
          obtain ⟨u, hu, hready', hsent⟩ := hready.request api (clock k (s.menu k).sessions.sent.length)
          rw [hu, hready.1] at h
          dsimp only at h
          split at h
          · cases h
          · rename_i net hnet
            cases h
            refine ⟨_, true, rfl, hgoes, hready', fun fuel => ?_, Or.inr ⟨api, _, hsent, hnet⟩⟩
            simp [menuLoop, hread, hn, hapi, hu]

/-- The loop of a client has come to where `menuLoop` comes on its input, and has ended when that has. -/
structure AtConsole (clock : Nat → Int) (input : List Char) (m : Menu) (more : Bool) : Prop where
  ready : m.sessions.Ready
  loop : ∃ n, ∀ fuel, clientMain clock (fuel + n) input = if more then menuLoop clock fuel m else some (.ok m)

theorem AtConsole.round {clock : Nat → Int} {input : List Char} {m m' : Menu} {more : Bool}
    (h : AtConsole clock input m true) (hready : m'.sessions.Ready)
    (hloop : ∀ fuel, menuLoop clock (fuel + 1) m = if more then menuLoop clock fuel m' else some (.ok m')) :
    AtConsole clock input m' more := by
  obtain ⟨n, hn⟩ := h.loop
  refine ⟨hready, 1 + n, fun fuel => ?_⟩
  rw [← hloop, ← Nat.add_assoc, hn, if_pos rfl]

theorem AtConsole.stops {clock : Nat → Int} {input : List Char} {m : Menu} (h : AtConsole clock input m false) :
    (integers input).2.stops = true := by
  obtain ⟨n, hn⟩ := h.loop
  by_contra hgoes
  exact menuLoop_endless clock (ready_start input) (readable_start input) (by simp [menuStart]) (Nat.lt_succ_self _)
    (Bool.not_eq_true _ ▸ hgoes) (0 + n) m (hn 0)

/-- An input that stops the loop does so after the requests of its numbers, whatever more fuel there is. -/
theorem clientMain_stops (clock : Nat → Int) {input : List Char} (h : (integers input).2.stops = true) :
    ∃ fuel m, m.sessions.sent = menuRequests clock 0 ((integers input).1.filterMap menuApi) ∧
      ∀ n, clientMain clock (fuel + n) input = some (.ok m) := by
  obtain ⟨fuel, m, hm, hsent⟩ :=
    menuLoop_stops clock (ready_start input) (readable_start input) (Nat.lt_succ_self _) h
  refine ⟨fuel, m, hsent, fun n => ?_⟩
  induction n with
  | zero => exact hm
  | succ n ih => exact menuLoop_mono ih

theorem AtConsole.sent {clock : Nat → Int} {input : List Char} {m : Menu} (h : AtConsole clock input m false) :
    m.sessions.sent = menuRequests clock 0 ((integers input).1.filterMap menuApi) := by
  obtain ⟨n, hn⟩ := h.loop
  obtain ⟨fuel, m', hsent, hm'⟩ := clientMain_stops clock h.stops
  have hsame : some (Except.ok m) = some (Except.ok m') := (hn fuel).symm.trans (hm' n)
  obtain rfl : m = m' := by simpa using hsame
  exact hsent

/-- The network is one that clients and server reach, and a client has made the requests of its loop. -/
structure Inv (clock : κ → Nat → Int) (input : κ → List Char) (s : Programs κ) : Prop where
  network : s.network.Inv
  delivered : s.network.Delivered
  sent : ∀ k, (s.network.client k).sent = (s.menu k).sessions.sent.map Prod.snd
  console : ∀ k, AtConsole (clock k) (input k) (s.menu k) (s.running k)

omit [DecidableEq κ] in
theorem inv_start {addr : ServerApi → Addr} (hinj : Function.Injective addr) (input : κ → List Char) :
    Inv clock input (start addr input) :=
  ⟨Network.inv_start hinj, Network.delivered_start addr, fun _ => rfl,
    fun k => ⟨ready_start (input k), 0, fun _ => rfl⟩⟩

namespace Inv

variable {input : κ → List Char} (h : Inv clock input s)

include h

theorem round {k : κ} {a : Addr} (hrunning : s.running k = true) (hfree : (s.network.client k).heap a = none)
    (ht : s.round clock k a = .ok t) : Inv clock input t := by
  have hconsole := h.console k
  rw [hrunning] at hconsole
  obtain ⟨m, more, hmenu, hmore, hready, hloop, hsent⟩ := round_cases hconsole.ready hrunning ht
  have hnetwork : (t.network.Inv ∧ t.network.Delivered) ∧ (t.network.client k).sent = m.sessions.sent.map Prod.snd ∧
      ∀ k', k' ≠ k → t.network.client k' = s.network.client k' := by
    rcases hsent with ⟨hsent, hnet⟩ | ⟨api, now, hsent, hnet⟩
    · rw [hnet, hsent]
      exact ⟨⟨h.network, h.delivered⟩, h.sent k, fun _ _ => rfl⟩
    · obtain ⟨hcalled, hothers⟩ := Network.call_client hnet
      have he : networkSystem.enabled s.network (.call k api menuInfo now a) := hfree
      refine ⟨⟨h.network.next he hnet, h.delivered.step h.network he hnet⟩, ?_, hothers⟩
      rw [hsent, List.map_append, hcalled, h.sent]
      rfl
  obtain ⟨⟨hinv, hdelivered⟩, hself, hothers⟩ := hnetwork
  refine ⟨hinv, hdelivered, fun k' => ?_, fun k' => ?_⟩
  · by_cases hk : k' = k
    · rw [hk, hmenu, Function.update_self]
      exact hself
    · rw [hmenu, Function.update_of_ne hk, hothers k' hk, h.sent]
  · by_cases hk : k' = k
    · rw [hk, hmenu, hmore, Function.update_self, Function.update_self]
      exact hconsole.round hready hloop
    · rw [hmenu, hmore, Function.update_of_ne hk, Function.update_of_ne hk]
      exact h.console k'

theorem step {e : ProgramEvent κ} (he : (programSystem clock).enabled s e)
    (ht : (programSystem clock).step s e = .ok t) : Inv clock input t := by
  cases e with
  | round k a => exact h.round he.1 he.2 ht
  | network e =>
    obtain ⟨hcall, he⟩ := he
    simp only [programSystem] at ht
    split at ht
    · cases ht
    · rename_i net hnet
      cases ht
      refine ⟨h.network.next he hnet, h.delivered.step h.network he hnet, fun k => ?_, h.console⟩
      rw [Network.sent_of_not_call h.network he hnet hcall, h.sent]

/-- A round before the last one succeeds. -/
theorem round_ok {k : κ} {a : Addr} (hfree : (s.network.client k).heap a = none) {fuel : Nat} {m : Menu}
    (hloop : menuLoop (clock k) (fuel + 1) (s.menu k) = some (.ok m)) : ∃ t, s.round clock k a = .ok t := by
  unfold Programs.round
  cases hread : extractInt (s.menu k).cin (s.menu k).num with
  | mk cin num =>
    cases num with
    | none => simp [menuLoop, hread] at hloop
    | some n =>
      dsimp only
      split
      · exact ⟨_, rfl⟩
      · split
        · exact ⟨_, rfl⟩
        · rename_i api hapi
          obtain ⟨u, hu, -⟩ := (h.console k).ready.request api (clock k (s.menu k).sessions.sent.length)
          obtain ⟨c, hc, -⟩ := h.network.clients.call hfree api (s.menu k).sessions.info
            (clock k (s.menu k).sessions.sent.length)
          rw [hu]
          dsimp only
          rw [hc]
          exact ⟨_, rfl⟩

omit [DecidableEq κ] in
private theorem exists_free (k : κ) : ∃ a, (s.network.client k).heap a = none := by
  obtain ⟨a, ha⟩ := Infinite.exists_notMem_finset (s.network.client k).outstanding.toFinset
  refine ⟨a, ?_⟩
  by_contra hne
  exact ha (List.mem_toFinset.2 (((h.network.clients.orderly k).sync.live a).2 hne))

/-- The rounds that `menuLoop` still makes can be made. -/
theorem can_end {k : κ} (hrunning : s.running k = true) {fuel : Nat} {m : Menu}
    (hloop : menuLoop (clock k) fuel (s.menu k) = some (.ok m)) :
    ∃ t, (programSystem clock).Reaches fuel s t ∧ Inv clock input t ∧ t.running k = false ∧
      ∀ k', k' ≠ k → t.menu k' = s.menu k' ∧ t.network.client k' = s.network.client k' := by
  induction fuel generalizing s with
  | zero => cases hloop
  | succ fuel ih =>
    obtain ⟨a, hfree⟩ := h.exists_free k
    obtain ⟨t, ht⟩ := h.round_ok hfree hloop
    have hinv := h.round hrunning hfree ht
    have hreaches : (programSystem clock).Reaches 1 s t :=
      System.reaches_single (M := programSystem clock) (a := .round k a) ⟨hrunning, hfree⟩ ht
    obtain ⟨m', more, hmenu, hmore, -, hnext, hsent⟩ := round_cases (h.console k).ready hrunning ht
    have hothers : ∀ k', k' ≠ k → t.menu k' = s.menu k' ∧ t.network.client k' = s.network.client k' := by
      intro k' hk
      refine ⟨by rw [hmenu, Function.update_of_ne hk], ?_⟩
      rcases hsent with ⟨-, hnet⟩ | ⟨api, now, -, hnet⟩
      · rw [hnet]
      · exact (Network.call_client hnet).2 k' hk
    cases more with
    | false => exact ⟨t, hreaches.mono (by omega), hinv, by rw [hmore, Function.update_self], hothers⟩
    | true =>
      have hself : t.menu k = m' := by rw [hmenu, Function.update_self]
      have hrunning' : t.running k = true := by rw [hmore, Function.update_self]
      rw [hnext, if_pos rfl, ← hself] at hloop
      obtain ⟨u, hreaches', hinv', hended, hothers'⟩ := ih hinv hrunning' hloop
      refine ⟨u, (hreaches.trans hreaches').mono (by omega), hinv', hended, fun k' hk => ?_⟩
      exact ⟨(hothers' k' hk).1.trans (hothers k' hk).1, (hothers' k' hk).2.trans (hothers k' hk).2⟩

/-- The calls of a client can be completed. -/
theorem can_drain (k : κ) :
    ∃ n t, (programSystem clock).Reaches n s t ∧ t.menu = s.menu ∧ t.running = s.running ∧
      (t.network.client k).outstanding = [] ∧ ∀ k', k' ≠ k → t.network.client k' = s.network.client k' := by
  obtain ⟨net, -, hreaches, -, hidle, hothers, -⟩ := Network.drain h.network h.delivered k
  have hlift := System.Reaches.lift (N := programSystem clock) (g := fun net => { s with network := net })
    (f := ProgramEvent.network) (fun _ _ he => he) (fun u e v hv => ?_) hreaches
  · exact ⟨_, _, hlift, rfl, rfl, hidle, hothers⟩
  · have hv : networkSystem.step u e = .ok v := hv
    simp only [programSystem, hv]

end Inv

omit [DecidableEq κ] in
private theorem menuRequests_getElem? (clock : Nat → Int) (k : Nat) (apis : List Api) (n : Nat) :
    (menuRequests clock k apis)[n]? =
      apis[n]?.map fun api => (0, (doFn api).rpc menuInfo (clock (k + n) + 5000)) := by
  induction apis generalizing k n with
  | nil => simp [menuRequests]
  | cons api apis ih =>
    cases n with
    | zero => simp [menuRequests]
    | succ n =>
      have hnext : k + 1 + n = k + (n + 1) := by omega
      simp [menuRequests, ih, hnext]

namespace Inv

variable {input : κ → List Char} (h : Inv clock input s) {k : κ} (hended : s.running k = false)

include h hended

omit [DecidableEq κ] in
/-- The call of a number is the request that the number asks for. -/
theorem rpcAt {n : Nat} {r : Rpc} (hr : s.network.rpcAt k n = some r) :
    ∃ api, ((integers (input k)).1.filterMap menuApi)[n]? = some api ∧
      r = (doFn api).rpc menuInfo (clock k n + 5000) := by
  have hconsole := h.console k
  rw [hended] at hconsole
  rw [h.network.clients.sent, h.sent, hconsole.sent, List.getElem?_map, menuRequests_getElem?, Option.map_map] at hr
  obtain ⟨api, hapi, rfl⟩ := Option.map_eq_some_iff.1 hr
  exact ⟨api, hapi, by rw [Function.comp_apply, Nat.zero_add]⟩

omit [DecidableEq κ] in
/-- The call that a client was told the end of is that of its number. -/
theorem asked {c : Completion κ} (hc : c ∈ s.network.completed) (hck : c.client = k) :
    ((integers (input k)).1.filterMap menuApi)[c.serial]? = some c.api := by
  subst hck
  obtain ⟨-, r, hr, hmethod⟩ := h.network.clients.entered c hc
  obtain ⟨api, hapi, rfl⟩ := h.rpcAt hended hr
  rw [hapi, ← hmethod]
  exact congrArg some (doFn_api api).symm

private theorem completed_perm (hidle : (s.network.client k).outstanding = []) :
    ((s.network.completed.filter fun c => c.client = k).map fun c => (c.api, c.serial)).Perm
      ((integers (input k)).1.filterMap menuApi).zipIdx := by
  have hclients := h.network.clients
  have hkey : ((s.network.completed.filter fun c => c.client = k).map fun c => c.key) =
      ((s.network.completed.filter fun c => c.client = k).map fun c => (c.api, c.serial)).map fun p => (k, p.2) := by
    rw [List.map_map]
    refine List.map_congr_left fun c hc => ?_
    have hck : c.client = k := of_decide_eq_true (List.mem_filter.1 hc).2
    exact congrArg (·, c.serial) hck
  have hnodup : ((s.network.completed.filter fun c => c.client = k).map fun c => (c.api, c.serial)).Nodup := by
    refine List.Nodup.of_map (fun p => (k, p.2)) ?_
    rw [← hkey]
    exact (List.filter_sublist.map Completion.key).nodup hclients.nodup
  refine (List.perm_ext_iff_of_nodup hnodup ?_).2 fun p => ?_
  · exact List.Nodup.of_map Prod.snd (by rw [List.zipIdx_map_snd]; exact List.nodup_range' ..)
  · obtain ⟨api, n⟩ := p
    rw [List.mem_zipIdx_iff_getElem?]
    constructor
    · intro hp
      obtain ⟨c, hc, hp⟩ := List.mem_map.1 hp
      obtain ⟨hc, hck⟩ := List.mem_filter.1 hc
      obtain ⟨rfl, rfl⟩ := Prod.mk.inj hp
      exact h.asked hended hc (of_decide_eq_true hck)
    · intro hp
      have hconsole := h.console k
      rw [hended] at hconsole
      have hn : n < (s.network.client k).sent.length := by
        rw [h.sent, hconsole.sent, List.length_map, menuRequests_length]
        exact (List.getElem?_eq_some_iff.1 hp).1
      obtain ⟨c, hc, hkey⟩ := List.mem_map.1 (hclients.completed_of_idle hidle hn)
      obtain ⟨hck, rfl⟩ := Prod.mk.inj hkey
      have hapi := Option.some.inj ((h.asked hended hc hck).symm.trans hp)
      exact List.mem_map.2 ⟨c, List.mem_filter.2 ⟨hc, decide_eq_true hck⟩, by rw [hapi]⟩

end Inv

/-- When the loop of a client has ended and none of its calls goes on, the calls that it was told the end of are, up
to their order, those that its numbers ask for; when the server has answered one, it has read the session info of
`main`, and the client prints the reply of the server in the case of the API. -/
theorem menu_answered {addr : ServerApi → Addr} (hinj : Function.Injective addr) {input : κ → List Char}
    {es : List (ProgramEvent κ)} (h : (programSystem clock).Allowed (start addr input) es)
    (hs : (programSystem clock).exec (start addr input) es = .ok s) {k : κ} (hended : s.running k = false)
    (hidle : (s.network.client k).outstanding = []) :
    ((s.network.completed.filter fun c => c.client = k).map fun c => (c.api, c.serial)).Perm
        ((integers (input k)).1.filterMap menuApi).zipIdx ∧
      ∀ c ∈ s.network.completed, c.client = k → ∀ r, c.reply = some r → c.entered = some c.api ∧
        ∃ (i : Nat) (api : ServerApi), s.network.accepted[i]? = some (k, c.serial) ∧ api.method = c.api ∧
          s.network.requests[i]? = some ((doFn c.api).rpc menuInfo 0).request ∧ r = (callClass api).message := by
  have hinv : Inv clock input s := System.exec_inv (inv_start hinj input) (fun _ _ _ hu he ht => hu.step he ht) h hs
  refine ⟨hinv.completed_perm hended hidle, ?_⟩
  rintro c hc rfl r hr
  obtain ⟨hclients, hservers, hshown⟩ := hinv.network
  obtain ⟨hentered, -⟩ := hclients.entered c hc
  obtain ⟨i, api, hi, hapi, hmethod, hmessage⟩ := hshown c hc r hr
  obtain ⟨-, api', rpc, hapi', hrpc, hmethod', hrequest⟩ := hservers.accepted i c.client c.serial hi
  obtain ⟨asked, hcall, rfl⟩ := hinv.rpcAt hended hrpc
  obtain rfl : c.api = asked := Option.some.inj ((hinv.asked hended hc rfl).symm.trans hcall)
  refine ⟨?_, i, api, hi, hmethod, hrequest, hmessage⟩
  rw [hentered, ← hmethod, Network.completionCase_method]

/-- One client asks for two methods of the server and is answered once; the other asks for one that the server does
not have, and leaves with a word. -/
def consoles : Bool → List Char
  | false => "2 4\n0\n".toList
  | true => "9 stop".toList

def twoConsoles : List (ProgramEvent Bool) :=
  [.round false 16, .round true 16, .network (.arrive false 0 .prepare 32 "unix:".toList 80), .round false 32,
    .round true 32, .round false 48, .network (.complete true 16 false), .network (.transmit 32),
    .network (.complete false 16 true), .network (.complete false 32 false)]

theorem menu_answered_twoConsoles : ∃ s : Programs Bool,
    (programSystem fun _ n => n).exec (start firstAddr consoles) twoConsoles = .ok s ∧
      ((s.network.completed.filter fun c => c.client = false).map fun c => (c.api, c.serial)).Perm
        [(.prepare, 0), (.release, 1)] ∧
      ∃ c ∈ s.network.completed, c.client = false ∧ c.entered = some c.api ∧ c.reply ≠ none := by
  obtain ⟨s, hs, htest⟩ := System.exec_test (M := programSystem fun _ n => n) (start firstAddr consoles) twoConsoles
    (fun s => s.running false = false ∧ (s.network.client false).outstanding = [] ∧
      (s.network.completed.any fun c => c.client = false ∧ c.reply.isSome) = true) (by decide +kernel)
  obtain ⟨hended, hidle, hany⟩ := of_decide_eq_true htest
  obtain ⟨hperm, hreply⟩ := menu_answered firstAddr_injective (by decide +kernel) hs hended hidle
  obtain ⟨c, hc, hck⟩ := List.any_eq_true.1 hany
  obtain ⟨hck, hsome⟩ := of_decide_eq_true hck
  obtain ⟨r, hr⟩ := Option.isSome_iff_exists.1 hsome
  exact ⟨s, hs, hperm, c, hc, hck, (hreply c hc hck r hr).1, by rw [hr]; simp⟩

/-- From every state that a run reaches, the loop of a client can come to its end, with all its calls completed and
without a step of another client, exactly when its input stops the loop. -/
theorem menu_finishes_iff {addr : ServerApi → Addr} (hinj : Function.Injective addr) {input : κ → List Char}
    {es : List (ProgramEvent κ)} (h : (programSystem clock).Allowed (start addr input) es)
    (hs : (programSystem clock).exec (start addr input) es = .ok s) (k : κ) :
    (∃ n t, (programSystem clock).Reaches n s t ∧ t.running k = false ∧ (t.network.client k).outstanding = [] ∧
        ∀ k', k' ≠ k → t.menu k' = s.menu k' ∧ t.network.client k' = s.network.client k') ↔
      (integers (input k)).2.stops = true := by
  have hinv : Inv clock input s := System.exec_inv (inv_start hinj input) (fun _ _ _ hu he ht => hu.step he ht) h hs
  constructor
  · rintro ⟨n, t, ⟨es', -, hal, ht⟩, hended, -⟩
    have hinv' : Inv clock input t := System.exec_inv hinv (fun _ _ _ hu he ht => hu.step he ht) hal ht
    have hconsole := hinv'.console k
    rw [hended] at hconsole
    exact hconsole.stops
  · intro hstops
    have hend : ∃ n t, (programSystem clock).Reaches n s t ∧ Inv clock input t ∧ t.running k = false ∧
        ∀ k', k' ≠ k → t.menu k' = s.menu k' ∧ t.network.client k' = s.network.client k' := by
      cases hrunning : s.running k with
      | false => exact ⟨0, s, System.reaches_refl 0 s, hinv, hrunning, fun _ _ => ⟨rfl, rfl⟩⟩
      | true =>
        obtain ⟨n, hn⟩ := (hinv.console k).loop
        obtain ⟨fuel, m, -, hm⟩ := clientMain_stops (clock k) hstops
        rw [hrunning] at hn
        obtain ⟨t, ht⟩ := hinv.can_end hrunning ((hn fuel).symm.trans (hm n))
        exact ⟨fuel, t, ht⟩
    obtain ⟨n, t, hreaches, hinv', hended, hothers⟩ := hend
    obtain ⟨n', u, hreaches', hmenu, hrunning, hidle, hothers'⟩ := hinv'.can_drain k
    refine ⟨n + n', u, hreaches.trans hreaches', by rw [hrunning, hended], hidle, fun k' hk => ?_⟩
    exact ⟨by rw [hmenu, (hothers k' hk).1], (hothers' k' hk).trans (hothers k' hk).2⟩

/-- The input of one client ends without a zero. -/
def oneEndless : Bool → List Char
  | false => "2 4\n0\n".toList
  | true => "1\n".toList

theorem menu_finishes_oneEndless : ∃ s : Programs Bool,
    (programSystem fun _ n => n).exec (start firstAddr oneEndless) [.round true 16, .round false 16] = .ok s ∧
      (∃ n t, (programSystem fun _ n => n).Reaches n s t ∧ t.running false = false ∧
        (t.network.client false).outstanding = [] ∧
          ∀ k', k' ≠ false → t.menu k' = s.menu k' ∧ t.network.client k' = s.network.client k') ∧
      ¬ ∃ n t, (programSystem fun _ n => n).Reaches n s t ∧ t.running true = false ∧
        (t.network.client true).outstanding = [] ∧
          ∀ k', k' ≠ true → t.menu k' = s.menu k' ∧ t.network.client k' = s.network.client k' := by
  obtain ⟨s, hs, -⟩ := System.exec_test (M := programSystem fun _ n => n) (start firstAddr oneEndless)
    [.round true 16, .round false 16] (fun _ => true) (by decide +kernel)
  have hiff := menu_finishes_iff firstAddr_injective (by decide +kernel) hs
  refine ⟨s, hs, (hiff false).2 (by decide), fun h => ?_⟩
  exact absurd ((hiff true).1 h) (by decide)

end Programs

end Cloudein
