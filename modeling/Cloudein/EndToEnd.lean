import Cloudein.Network

/-!
# What a completed call shows

The clients and the server agree through the network: `ClientSide` relates the calls of the clients to what gRPC holds
of them, `ServerSide` the objects of the server to the calls it accepted, and `Network.Inv` adds what the completed
calls show.  So a call that a client completes with the status OK was accepted once, with the request of the client,
and what the client prints is the reply of the server to it; and nothing brings a side down but the assertion of the
server, when it is told that a reply does not go to the wire.
-/

namespace Cloudein

open Protobuf Runs Server PairList

/-! ### Texts -/

/-- The server reads the request that a `Do*` function wrote. -/
theorem parse_request (api : Api) (info : SessionInfo) (deadline : Int) :
    Pb.requestCodec.parseFromString (Pb.requestCodec.serialize ((doFn api).rpc info deadline).request) =
      some ((doFn api).rpc info deadline).request := by
  have hregion : ∀ r : CloudeinRegion, (utf8Bytes (toString r.val)).length ≤ maxSize := by
    intro r
    cases r <;> decide
  have hname : (utf8Bytes (doFn api).txName).length ≤ maxSize := by
    cases api <;> decide
  exact Pb.requestSpec.parseFromString_serialize ⟨⟨hregion info.region, hname⟩, MessageCodec.unknown_nil _ _⟩
    ⟨utf8Bytes_valid _, utf8Bytes_valid _⟩

/-- A client reads the reply that the server wrote, with the response class of the method. -/
theorem parseReply_text (api : ServerApi) :
    parseReply api.method (callClass api).message.text = some (callClass api).message := by
  have hother : ∀ k : CallClass, (utf8Bytes k.reply.region).length ≤ maxSize →
      Pb.responseCodec.parseFromString (Pb.responseCodec.serialize ⟨⟨utf8Bytes k.reply.region⟩, []⟩) =
        some ⟨⟨utf8Bytes k.reply.region⟩, []⟩ := by
    intro k hsize
    exact Pb.responseSpec.parseFromString_serialize ⟨hsize, MessageCodec.unknown_nil _ _⟩ (utf8Bytes_valid _)
  cases api with
  | allocate =>
    have hsize : (utf8Bytes allocateData.reply.region).length ≤ maxSize := by decide
    have hparse := Pb.allocateResponseSpec.parseFromString_serialize
      (m := ⟨⟨utf8Bytes allocateData.reply.region, 50001, 50002, 50003, 50004, 50005⟩, []⟩)
      ⟨hsize, MessageCodec.unknown_nil _ _⟩ (utf8Bytes_valid _)
    exact congrArg (Option.map Reply.allocate) hparse
  | prepare => exact congrArg (Option.map Reply.other) (hother prepareData (by decide))
  | connect => exact congrArg (Option.map Reply.other) (hother connectData (by decide))
  | release => exact congrArg (Option.map Reply.other) (hother releaseData (by decide))

/-- Between two events: the list, the heap and the queue agree, the ledger balances, and the requests of the `Do*`
functions are numbered by the allocations. -/
structure Client.Orderly (c : Client) : Prop where
  sync : c.Sync
  ledger : c.Ledger
  length : c.sent.length = c.nextSerial
  made : ∀ r ∈ c.sent, ∃ api info deadline, r = (doFn api).rpc info deadline

private theorem Client.orderly_init : init.Orderly :=
  ⟨sync_init, ledger_init, rfl, by simp [init]⟩

namespace Network

variable {κ : Type} {s : Network κ}

/-! ### What gRPC holds of a call -/

def rpcAt (s : Network κ) (k : κ) (n : Nat) : Option Rpc := (s.wire k n).map Wire.rpc

def endedAt (s : Network κ) (k : κ) (n : Nat) : Option Bool := (s.wire k n).map Wire.ended

def transitAt (s : Network κ) (k : κ) (n : Nat) : Option Bool := (s.wire k n).map Wire.inTransit

/-- The reply that went to the wire, within the call. -/
def replyAt (s : Network κ) (k : κ) (n : Nat) : Option (Option (List UInt8)) := (s.wire k n).map Wire.reply

/-! ### The clients -/

/-- Every client has its calls in order, and gRPC holds what it sent; a call is over when it was completed. -/
structure ClientSide (s : Network κ) : Prop where
  orderly : ∀ k, (s.client k).Orderly
  sent : ∀ k n, s.rpcAt k n = (s.client k).sent[n]?
  live : ∀ k a call, (s.client k).heap a = some call →
    s.endedAt k call.serial = some false ∧ ∃ r, s.rpcAt k call.serial = some r ∧ r.method = call.api
  unfinished : ∀ k n, s.endedAt k n = some false → ∃ a call, (s.client k).heap a = some call ∧ call.serial = n
  finished : ∀ k n, s.endedAt k n = some true ↔ (k, n) ∈ s.completed.map Completion.key
  nodup : (s.completed.map Completion.key).Nodup
  entered : ∀ c ∈ s.completed, c.entered = some (completionCase (doFn c.api).tag) ∧
    ∃ r, s.rpcAt c.client c.serial = some r ∧ r.method = c.api

namespace ClientSide

theorem start (addr : ServerApi → Addr) : (start addr : Network κ).ClientSide := by
  refine ⟨fun _ => Client.orderly_init, fun _ _ => rfl, ?_, ?_, ?_, ?_, ?_⟩
  all_goals simp [Network.start, Client.init, endedAt]

theorem congr {s' : Network κ} (h : s.ClientSide) (hclient : s'.client = s.client)
    (hcompleted : s'.completed = s.completed) (hrpc : ∀ k n, s'.rpcAt k n = s.rpcAt k n)
    (hended : ∀ k n, s'.endedAt k n = s.endedAt k n) : s'.ClientSide := by
  obtain ⟨h1, h2, h3, h4, h5, h6, h7⟩ := h
  constructor <;> simp only [hclient, hcompleted, hrpc, hended] <;> assumption

private theorem rpcAt_none_iff (h : s.ClientSide) (k : κ) (n : Nat) :
    s.rpcAt k n = none ↔ (s.client k).nextSerial ≤ n := by
  rw [h.sent, List.getElem?_eq_none_iff, (h.orderly k).length]

private theorem serial_lt (h : s.ClientSide) {k : κ} {a : Addr} {call : AsyncClientCall}
    (ha : (s.client k).heap a = some call) : call.serial < (s.client k).nextSerial :=
  ((h.orderly k).ledger.fresh a call ha).1

theorem made (h : s.ClientSide) {k : κ} {n : Nat} {w : Wire} (hw : s.wire k n = some w) :
    ∃ api info deadline, w.rpc = (doFn api).rpc info deadline := by
  refine (h.orderly k).made _ (List.mem_of_getElem? (i := n) ?_)
  rw [← h.sent, rpcAt, hw, Option.map_some]

/-- A client that waits for nothing has completed every call it made. -/
theorem completed_of_idle (h : s.ClientSide) {k : κ} (hidle : (s.client k).outstanding = []) {n : Nat}
    (hn : n < (s.client k).sent.length) : (k, n) ∈ s.completed.map Completion.key := by
  refine (h.finished k n).1 ?_
  have hr : s.rpcAt k n ≠ none := by
    rw [Ne, h.rpcAt_none_iff, ← (h.orderly k).length]
    omega
  obtain ⟨r, hr⟩ := Option.ne_none_iff_exists'.1 hr
  obtain ⟨w, hw, -⟩ := Option.map_eq_some_iff.1 hr
  cases hended : w.ended with
  | true => rw [endedAt, hw, Option.map_some, hended]
  | false =>
    have hended' : s.endedAt k n = some false := by rw [endedAt, hw, Option.map_some, hended]
    obtain ⟨a, call, ha, -⟩ := h.unfinished k n hended'
    have hmem : a ∈ (s.client k).outstanding := by
      rw [(h.orderly k).sync.live, ha]
      simp
    rw [hidle] at hmem
    cases hmem

end ClientSide

/-! ### The server -/

/-- The server accepted each call once, with the request that was sent, and a reply that went to the wire is that of
the class of the call; a call whose reply did not has an object that waits for it. -/
structure ServerSide (s : Network κ) : Prop where
  inv : s.server.Inv
  length : s.accepted.length = s.server.calls.length ∧ s.requests.length = s.server.calls.length
  nodup : s.accepted.Nodup
  accepted : ∀ (i : Nat) k n, s.accepted[i]? = some (k, n) → s.transitAt k n = some false ∧
    ∃ (api : ServerApi) (r : Rpc), s.server.calls[i]? = some api ∧ s.rpcAt k n = some r ∧ r.method = api.method ∧
      s.requests[i]? = some r.request
  replied : ∀ k n text, s.replyAt k n = some (some text) → ∃ (i : Nat) (api : ServerApi),
    s.accepted[i]? = some (k, n) ∧ s.server.calls[i]? = some api ∧ text = (callClass api).message.text
  context : ∀ a d, s.server.heap a = some d → d.status = .process ∧ d.ctx = none ∨
    d.status = .finish ∧ ∃ ctx, d.ctx = some ctx ∧ s.server.calls[ctx.call]? = some d.api
  waiting : ∀ (i : Nat) k n, s.accepted[i]? = some (k, n) → s.replyAt k n = some none →
    ∃ a api peer, s.server.heap a = some ⟨api, .finish, some ⟨i, peer⟩⟩

theorem callAt_of_heap {a : Addr} {api : ServerApi} {status : CallStatus} {ctx : ServerContext} {id : κ × Nat}
    (h : s.server.heap a = some ⟨api, status, some ctx⟩) (hid : s.accepted[ctx.call]? = some id) :
    s.callAt a = some (api, id) := by
  simp only [callAt, h, hid, Option.map_some]

namespace ServerSide

theorem start {addr : ServerApi → Addr} (hinj : Function.Injective addr) : (start addr : Network κ).ServerSide := by
  refine ⟨ServerImpl.inv_start hinj, ⟨rfl, rfl⟩, List.nodup_nil, ?_, ?_, fun a d hd => Or.inl ?_, ?_⟩
  · simp [Network.start]
  · simp [Network.start, replyAt]
  · simp only [Network.start, ServerImpl.start, ServerImpl.register_eq, Function.update_apply, ServerImpl.init] at hd
    split_ifs at hd <;> cases hd <;> exact ⟨rfl, rfl⟩
  · simp [Network.start]

/-- Calls that were there keep their wires, and no reply is new. -/
theorem congr {s' : Network κ} (h : s.ServerSide) (hserver : s'.server = s.server)
    (haccepted : s'.accepted = s.accepted) (hrequests : s'.requests = s.requests)
    (hold : ∀ k n r, s.rpcAt k n = some r →
      s'.transitAt k n = s.transitAt k n ∧ s'.rpcAt k n = s.rpcAt k n ∧ s'.replyAt k n = s.replyAt k n)
    (hnew : ∀ k n text, s'.replyAt k n = some (some text) → s.replyAt k n = some (some text)) : s'.ServerSide := by
  refine ⟨hserver ▸ h.inv, by rw [haccepted, hrequests, hserver]; exact h.length, haccepted ▸ h.nodup,
    fun i k n hi => ?_, fun k n text htext => ?_, ?_, fun i k n hi hreply => ?_⟩
  · rw [haccepted] at hi
    obtain ⟨htransit, api, r, hapi, hr, hmethod, hrequest⟩ := h.accepted i k n hi
    obtain ⟨htransit', hrpc', -⟩ := hold k n r hr
    rw [htransit', hrpc', hserver, hrequests]
    exact ⟨htransit, api, r, hapi, hr, hmethod, hrequest⟩
  · rw [haccepted, hserver]
    exact h.replied k n text (hnew k n text htext)
  · rw [hserver]
    exact h.context
  · rw [haccepted] at hi
    obtain ⟨-, api, r, -, hr, -⟩ := h.accepted i k n hi
    rw [(hold k n r hr).2.2] at hreply
    rw [hserver]
    exact h.waiting i k n hi hreply

/-- `new` has an address left: the live ones are in the list. -/
theorem exists_fresh (h : s.ServerSide) : ∃ fresh, s.server.heap fresh = none := by
  obtain ⟨fresh, hfresh⟩ := Infinite.exists_notMem_finset (s.server.listTagIdx.map Prod.snd).toFinset
  refine ⟨fresh, ?_⟩
  by_contra hne
  obtain ⟨d, hd⟩ := Option.ne_none_iff_exists'.1 hne
  have hin := (h.inv.loopInv.listed fresh d hd).1
  exact hfresh (List.mem_toFinset.2 (List.mem_map_of_mem hin))

/-- An object that waits for its reply was created for a call that the server accepted. -/
theorem callAt (h : s.ServerSide) {a : Addr} (hmem : .finish a ∈ s.server.pending) :
    ∃ api i peer k n w, s.server.heap a = some ⟨api, .finish, some ⟨i, peer⟩⟩ ∧ s.server.calls[i]? = some api ∧
      s.accepted[i]? = some (k, n) ∧ s.callAt a = some (api, k, n) ∧ s.wire k n = some w := by
  obtain ⟨api, ctx, ha⟩ := (h.inv.agrees.finish a).1 hmem
  rcases h.context a _ ha with ⟨hp, -⟩ | ⟨-, ⟨i, peer⟩, rfl, hcall⟩
  · cases hp
  · obtain ⟨hlt, -⟩ := List.getElem?_eq_some_iff.1 hcall
    rw [← h.length.1] at hlt
    have hi : s.accepted[i]? = some s.accepted[i] := List.getElem?_eq_getElem hlt
    obtain ⟨-, -, r, -, hr, -⟩ := h.accepted i s.accepted[i].1 s.accepted[i].2 hi
    obtain ⟨w, hw, -⟩ := Option.map_eq_some_iff.1 hr
    exact ⟨api, i, peer, s.accepted[i].1, s.accepted[i].2, w, ha, hcall, hi, callAt_of_heap ha hi, hw⟩

theorem written (h : s.ServerSide) {a : Addr} {fresh : Addr}
    (he : serverSystem.enabled s.server (.finished a true fresh)) {api : ServerApi} {k : κ} {n : Nat} {w : Wire}
    (hcallAt : s.callAt a = some (api, k, n)) (hw : s.wire k n = some w) (hreply : w.reply ≠ none) :
    ∃ t, t.calls = s.server.calls ∧ s.written a true fresh = .ok { s with server := t } ∧
      ({ s with server := t } : Network κ).ServerSide := by
  obtain ⟨api', i, peer, -, -, -, ha, -⟩ := h.callAt he.1
  obtain ⟨t, ht, hinv⟩ := h.inv.step (e := .finished a true fresh) he rfl
  have htr : t = s.server.removed a := by
    rw [ServerImpl.finished_ok h.inv.agrees ha fresh, Except.ok.injEq] at ht
    exact ht.symm
  have hcalls : t.calls = s.server.calls := by rw [htr, ServerImpl.removed]
  have hheap : t.heap = Function.update s.server.heap a none := by rw [htr, ServerImpl.removed]
  refine ⟨t, hcalls, by simp only [Network.written, ht], hinv, ?_, h.nodup, fun j k' n' hj => ?_,
    fun k' n' text htext => ?_, fun b d hd => ?_, fun j k'' n'' hj hnone => ?_⟩
  · rw [hcalls]
    exact h.length
  · rw [hcalls]
    exact h.accepted j k' n' hj
  · rw [hcalls]
    exact h.replied k' n' text htext
  · rw [hcalls]
    refine h.context b d ?_
    by_cases hba : b = a
    · subst hba
      rw [hheap, Function.update_self] at hd
      cases hd
    · rw [hheap, Function.update_of_ne hba] at hd
      exact hd
  · -- The object that is gone had its reply on the wire.
    obtain ⟨b, api'', peer'', hb⟩ := h.waiting j k'' n'' hj hnone
    refine ⟨b, api'', peer'', ?_⟩
    have hba : b ≠ a := by
      rintro rfl
      have hcallAt'' := callAt_of_heap hb hj
      rw [hcallAt, Option.some.injEq] at hcallAt''
      obtain ⟨-, rfl, rfl⟩ : api = api'' ∧ k = k'' ∧ n = n'' := by simpa using hcallAt''
      rw [replyAt, hw, Option.map_some, Option.some.injEq] at hnone
      exact hreply hnone
    rw [hheap, Function.update_of_ne hba]
    exact hb

end ServerSide

/-! ### What the completed calls show -/

/-- The response that a client printed is the reply of the server to the call. -/
def Shown (s : Network κ) (c : Completion κ) : Prop :=
  ∀ r, c.reply = some r → ∃ (i : Nat) (api : ServerApi), s.accepted[i]? = some c.key ∧
    s.server.calls[i]? = some api ∧ api.method = c.api ∧ r = (callClass api).message

structure Inv (s : Network κ) : Prop where
  clients : s.ClientSide
  servers : s.ServerSide
  shown : ∀ c ∈ s.completed, s.Shown c

theorem inv_start {addr : ServerApi → Addr} (hinj : Function.Injective addr) : (start addr : Network κ).Inv :=
  ⟨.start addr, .start hinj, by simp [Network.start]⟩

/-- What was shown stays so when the server accepts more calls. -/
theorem Shown.mono {s' : Network κ} {c : Completion κ} (h : s.Shown c) {l : List (κ × Nat)} {l' : List ServerApi}
    (haccepted : s'.accepted = s.accepted ++ l) (hcalls : s'.server.calls = s.server.calls ++ l') : s'.Shown c := by
  intro r hr
  obtain ⟨i, api, hi, hapi, hmethod, hmessage⟩ := h r hr
  refine ⟨i, api, ?_, ?_, hmethod, hmessage⟩
  · rw [haccepted, List.getElem?_append_left (List.getElem?_eq_some_iff.1 hi).1, hi]
  · rw [hcalls, List.getElem?_append_left (List.getElem?_eq_some_iff.1 hapi).1, hapi]

variable [DecidableEq κ]

theorem setWire_self (k : κ) (n : Nat) (w : Wire) (s : Network κ) : (s.setWire k n w).wire k n = some w := by
  simp [setWire]

theorem setWire_of_ne {k k' : κ} {n n' : Nat} (h : (k', n') ≠ (k, n)) (w : Wire) (s : Network κ) :
    (s.setWire k n w).wire k' n' = s.wire k' n' := by
  by_cases hk : k' = k
  · subst hk
    have hn : n' ≠ n := fun hn => h (by rw [hn])
    simp [setWire, hn]
  · simp [setWire, hk]

/-- A field of the wires that is the same in the one that is set is the same everywhere. -/
theorem setWire_congr {s₀ : Network κ} {k : κ} {n : Nat} {w : Wire} (hw : s.wire k n = some w)
    (hs : s₀.wire = s.wire) (w' : Wire) {β : Type} (f : Wire → β) (h : f w' = f w) (k' : κ) (n' : Nat) :
    ((s₀.setWire k n w').wire k' n').map f = (s.wire k' n').map f := by
  by_cases hkn : (k', n') = (k, n)
  · obtain ⟨rfl, rfl⟩ := Prod.mk.inj hkn
    rw [setWire_self, hw, Option.map_some, Option.map_some, h]
  · rw [setWire_of_ne hkn, hs]

/-- The state after a call of a `Do*` function, with the client it leaves. -/
def called (k : κ) (c : Client) (r : Rpc) (s : Network κ) : Network κ :=
  { s with client := Function.update s.client k c }.setWire k (s.client k).nextSerial ⟨r, true, none, false⟩

theorem ClientSide.call (h : s.ClientSide) {k : κ} {a : Addr} (ha : (s.client k).heap a = none) (api : Api)
    (info : SessionInfo) (now : Int) :
    ∃ c, s.call k api info now a = .ok (s.called k c ((doFn api).rpc info (now + 5000))) ∧
      (s.called k c ((doFn api).rpc info (now + 5000))).ClientSide := by
  obtain ⟨hsync, hledger, hlength, hmade⟩ := h.orderly k
  obtain ⟨c, hc, hsync'⟩ := hsync.call ha api info now
  refine ⟨c, by simp only [Network.call, hc, called], ?_⟩
  rw [Client.doCall_eq, Except.ok.injEq] at hc
  generalize hrpc : (doFn api).rpc info (now + 5000) = rpc at hc
  have hmethod : rpc.method = (doFn api).api := by
    rw [← hrpc]
    rfl
  have hheap : Function.update (s.client k).heap a (some ⟨(doFn api).api, now + 5000, (s.client k).nextSerial⟩) =
      c.heap :=
    congrArg Client.heap hc
  have hsent : (s.client k).sent ++ [rpc] = c.sent := congrArg Client.sent hc
  have hnext : (s.client k).nextSerial + 1 = c.nextSerial := congrArg Client.nextSerial hc
  have horderly : c.Orderly := by
    refine ⟨hsync', (hledger.newCall (doFn api) now ha).congr hheap.symm hnext.symm (congrArg Client.deleted hc).symm,
      ?_, fun r hr => ?_⟩
    · rw [← hsent, ← hnext, List.length_append, hlength, List.length_singleton]
    · rw [← hsent] at hr
      rcases List.mem_append.1 hr with hr | hr
      · exact hmade r hr
      · exact ⟨api, info, now + 5000, (List.mem_singleton.1 hr).trans hrpc.symm⟩
  have hself : (s.called k c rpc).wire k (s.client k).nextSerial = some ⟨rpc, true, none, false⟩ := setWire_self ..
  have hwire : ∀ k' n, (k', n) ≠ (k, (s.client k).nextSerial) → (s.called k c rpc).wire k' n = s.wire k' n :=
    fun k' n hne => setWire_of_ne hne _ _
  have hclientk : (s.called k c rpc).client k = c := Function.update_self ..
  have hclient : ∀ k', k' ≠ k → (s.called k c rpc).client k' = s.client k' :=
    fun k' hk => Function.update_of_ne hk ..
  have hne : ∀ k' a call, (s.client k').heap a = some call → (k', call.serial) ≠ (k, (s.client k).nextSerial) := by
    intro k' a call hcall heq
    have hlt := h.serial_lt hcall
    obtain ⟨rfl, hserial⟩ := Prod.mk.inj heq
    omega
  have hrpcs : ∀ k' n, (s.called k c rpc).rpcAt k' n = ((s.called k c rpc).client k').sent[n]? := by
    intro k' n
    have hold := h.sent k' n
    by_cases hk : k' = k
    · subst hk
      rw [hclientk, ← hsent]
      by_cases hn : n = (s.client k').nextSerial
      · subst hn
        rw [rpcAt, hself, List.getElem?_append_right (by omega), hlength, Nat.sub_self]
        rfl
      · rw [rpcAt, hwire k' n (fun heq => hn (congrArg Prod.snd heq)), ← rpcAt, hold, List.getElem?_append]
        split
        · rfl
        · rw [List.getElem?_eq_none (by omega), List.getElem?_eq_none (by rw [List.length_singleton]; omega)]
    · rw [hclient k' hk, rpcAt, hwire k' n (fun heq => hk (congrArg Prod.fst heq)), ← rpcAt, hold]
  refine ⟨?_, hrpcs, ?_, ?_, ?_, h.nodup, ?_⟩
  · exact (Function.forall_update_iff _ fun _ => Client.Orderly).2 ⟨horderly, fun k' _ => h.orderly k'⟩
  · intro k' b call hb
    have hold : ∀ call, (s.client k').heap b = some call →
        (s.called k c rpc).endedAt k' call.serial = some false ∧
          ∃ r, (s.called k c rpc).rpcAt k' call.serial = some r ∧ r.method = call.api := by
      intro call hcall
      rw [endedAt, rpcAt, hwire k' _ (hne k' b call hcall)]
      exact h.live k' b call hcall
    by_cases hk : k' = k
    · subst hk
      rw [hclientk, ← hheap] at hb
      by_cases hba : b = a
      · subst hba
        obtain rfl : _ = call := by simpa using hb
        rw [endedAt, rpcAt, hself]
        exact ⟨rfl, rpc, rfl, hmethod.trans (doFn_api api)⟩
      · exact hold call (by simpa [hba] using hb)
    · rw [hclient k' hk] at hb
      exact hold call hb
  · intro k' n hended
    by_cases hkn : (k', n) = (k, (s.client k).nextSerial)
    · obtain ⟨rfl, rfl⟩ := Prod.mk.inj hkn
      refine ⟨a, ⟨(doFn api).api, now + 5000, (s.client k').nextSerial⟩, ?_, rfl⟩
      rw [hclientk, ← hheap, Function.update_self]
    · rw [endedAt, hwire k' n hkn] at hended
      obtain ⟨b, call, hb, hserial⟩ := h.unfinished k' n hended
      refine ⟨b, call, ?_, hserial⟩
      by_cases hk : k' = k
      · subst hk
        have hba : b ≠ a := by
          rintro rfl
          rw [ha] at hb
          cases hb
        rw [hclientk, ← hheap, Function.update_of_ne hba, hb]
      · rw [hclient k' hk, hb]
  · intro k' n
    by_cases hkn : (k', n) = (k, (s.client k).nextSerial)
    · obtain ⟨rfl, rfl⟩ := Prod.mk.inj hkn
      have hnone := (h.rpcAt_none_iff k' (s.client k').nextSerial).2 (Nat.le_refl _)
      have hended : s.endedAt k' (s.client k').nextSerial = none := by
        rw [endedAt, Option.map_eq_none_iff]
        exact Option.map_eq_none_iff.1 hnone
      have hold := h.finished k' (s.client k').nextSerial
      rw [hended] at hold
      rw [endedAt, hself]
      constructor
      · intro hfalse
        cases hfalse
      · intro hmem
        cases hold.2 hmem
    · rw [endedAt, hwire k' n hkn]
      exact h.finished k' n
  · intro d hd
    obtain ⟨hentered, r, hr, hrm⟩ := h.entered d hd
    refine ⟨hentered, r, ?_, hrm⟩
    have hkn : (d.client, d.serial) ≠ (k, (s.client k).nextSerial) := by
      intro heq
      obtain ⟨hk, hn⟩ := Prod.mk.inj heq
      have hnone := (h.rpcAt_none_iff k (s.client k).nextSerial).2 (Nat.le_refl _)
      rw [hk, hn, hnone] at hr
      cases hr
    rw [rpcAt, hwire _ _ hkn]
    exact hr

/-- The state after a client is told the end of a call, with the client and the wire it leaves. -/
def ended (k : κ) (c : Client) (d : Completion κ) (w : Wire) (s : Network κ) : Network κ :=
  { s with client := Function.update s.client k c, completed := s.completed ++ [d] }.setWire k d.serial
    { w with ended := true }

theorem ClientSide.complete (h : s.ClientSide) {k : κ} {a : Addr} (ha : a ∈ (s.client k).outstanding) (ok : Bool) :
    ∃ call c w, (s.client k).heap a = some call ∧ s.wire k call.serial = some w ∧ w.rpc.method = call.api ∧
      c.outstanding = (s.client k).outstanding.erase a ∧
      let d : Completion κ := ⟨k, call.serial, call.api, some (completionCase (doFn call.api).tag),
        if ok then w.reply.bind (parseReply call.api) else none⟩
      s.complete k a ok = .ok (s.ended k c d w) ∧ (s.ended k c d w).ClientSide := by
  obtain ⟨hsync, hledger, hlength, hmade⟩ := h.orderly k
  obtain ⟨call, hcall, hfind⟩ := hsync.delivered ha
  obtain ⟨c, hc, hsync'⟩ := hsync.deliver ha
  obtain ⟨hended, r, hr, hmethod⟩ := h.live k a call hcall
  obtain ⟨w, hw, rfl⟩ := Option.map_eq_some_iff.1 hr
  have hlive : w.ended = false := by
    rw [endedAt, hw] at hended
    exact Option.some.inj hended
  have heq := hc
  rw [Client.onNext_ok hfind hcall, Except.ok.injEq] at heq
  refine ⟨call, c, w, hcall, hw, hmethod, by rw [← heq], ?_⟩
  have hheap : c.heap = Function.update (s.client k).heap a none := by rw [← heq]
  have hsent : c.sent = (s.client k).sent := by rw [← heq]
  have hnext : c.nextSerial = (s.client k).nextSerial := by rw [← heq]
  have hdeleted : c.deleted =
      (s.client k).deleted ++ [⟨call.serial, call.api, some (completionCase (doFn call.api).tag)⟩] := by rw [← heq]
  have horderly : c.Orderly := by
    refine ⟨hsync', (hledger.freed hcall _).congr hheap hnext hdeleted, ?_, ?_⟩
    · rw [hsent, hnext, hlength]
    · rw [hsent]
      exact hmade
  intro d
  refine ⟨?_, ?_⟩
  · simp only [Network.complete, hcall, hc, hw, hdeleted, List.getLast?_concat, Option.bind_some]
    rfl
  have hself : (s.ended k c d w).wire k call.serial = some { w with ended := true } := setWire_self ..
  have hwire : ∀ k' n, (k', n) ≠ (k, call.serial) → (s.ended k c d w).wire k' n = s.wire k' n :=
    fun k' n hne => setWire_of_ne hne _ _
  have hrpcs : ∀ k' n, (s.ended k c d w).rpcAt k' n = s.rpcAt k' n := by
    intro k' n
    by_cases hkn : (k', n) = (k, call.serial)
    · obtain ⟨rfl, rfl⟩ := Prod.mk.inj hkn
      rw [rpcAt, rpcAt, hself, hw]
      rfl
    · rw [rpcAt, hwire k' n hkn, rpcAt]
  have hclientk : (s.ended k c d w).client k = c := Function.update_self ..
  have hclient : ∀ k', k' ≠ k → (s.ended k c d w).client k' = s.client k' := fun k' hk => Function.update_of_ne hk ..
  -- The other live calls are those that were live before, and have other numbers.
  have hother : ∀ k' b call', ((s.ended k c d w).client k').heap b = some call' ↔
      (s.client k').heap b = some call' ∧ (k', call'.serial) ≠ (k, call.serial) := by
    intro k' b call'
    by_cases hk : k' = k
    · subst hk
      rw [hclientk, hheap]
      by_cases hba : b = a
      · subst hba
        rw [Function.update_self, hcall]
        constructor
        · intro hnone
          cases hnone
        · rintro ⟨hcall', hne⟩
          cases hcall'
          exact absurd rfl hne
      · rw [Function.update_of_ne hba]
        refine ⟨fun hb => ⟨hb, fun heq => hba ?_⟩, fun hb => hb.1⟩
        exact hledger.unique b a call' call hb hcall (congrArg Prod.snd heq)
    · rw [hclient k' hk]
      exact ⟨fun hb => ⟨hb, fun heq => hk (congrArg Prod.fst heq)⟩, fun hb => hb.1⟩
  have hkey : d.key = (k, call.serial) := rfl
  refine ⟨?_, fun k' n => ?_, fun k' b call' hb => ?_, fun k' n hn => ?_, fun k' n => ?_, ?_, fun d' hd' => ?_⟩
  · exact (Function.forall_update_iff _ fun _ => Client.Orderly).2 ⟨horderly, fun k' _ => h.orderly k'⟩
  · rw [hrpcs, h.sent]
    by_cases hk : k' = k
    · subst hk
      rw [hclientk, hsent]
    · rw [hclient k' hk]
  · obtain ⟨hb, hne⟩ := (hother k' b call').1 hb
    rw [hrpcs, endedAt, hwire k' _ hne]
    exact h.live k' b call' hb
  · by_cases hkn : (k', n) = (k, call.serial)
    · obtain ⟨rfl, rfl⟩ := Prod.mk.inj hkn
      rw [endedAt, hself] at hn
      cases hn
    · rw [endedAt, hwire k' n hkn] at hn
      obtain ⟨b, call', hb, rfl⟩ := h.unfinished k' n hn
      exact ⟨b, call', (hother k' b call').2 ⟨hb, hkn⟩, rfl⟩
  · have hkeys : (s.ended k c d w).completed.map Completion.key =
        s.completed.map Completion.key ++ [(k, call.serial)] :=
      List.map_append
    rw [hkeys, List.mem_append, List.mem_singleton, ← h.finished]
    by_cases hkn : (k', n) = (k, call.serial)
    · obtain ⟨rfl, rfl⟩ := Prod.mk.inj hkn
      rw [endedAt, hself]
      exact ⟨fun _ => Or.inr rfl, fun _ => rfl⟩
    · rw [endedAt, hwire k' n hkn]
      exact ⟨Or.inl, fun hor => hor.resolve_right hkn⟩
  · have hnot : (k, call.serial) ∉ s.completed.map Completion.key := by
      rw [← h.finished, hended]
      simp
    have hkeys : (s.ended k c d w).completed.map Completion.key =
        s.completed.map Completion.key ++ [(k, call.serial)] :=
      List.map_append
    rw [hkeys]
    exact KeyedList.nodup_push h.nodup hnot
  · rcases List.mem_append.1 hd' with hd' | hd'
    · obtain ⟨hentered, r', hr', hrm⟩ := h.entered d' hd'
      exact ⟨hentered, r', by rw [hrpcs, hr'], hrm⟩
    · rw [List.mem_singleton.1 hd']
      exact ⟨rfl, w.rpc, by rw [hrpcs, rpcAt, hw]; rfl, hmethod⟩

/-! ### The server and the network -/

theorem ServerSide.called (h : s.ServerSide) {k : κ} (hfresh : s.rpcAt k (s.client k).nextSerial = none) (c : Client)
    (r : Rpc) : (s.called k c r).ServerSide := by
  have hwire : ∀ k' n, (k', n) ≠ (k, (s.client k).nextSerial) → (s.called k c r).wire k' n = s.wire k' n :=
    fun k' n hne => setWire_of_ne hne _ _
  refine h.congr rfl rfl rfl (fun k' n r' hr' => ?_) (fun k' n text htext => ?_)
  · have hne : (k', n) ≠ (k, (s.client k).nextSerial) := by
      intro heq
      obtain ⟨rfl, rfl⟩ := Prod.mk.inj heq
      rw [hfresh] at hr'
      cases hr'
    simp only [transitAt, rpcAt, replyAt, hwire k' n hne, and_self]
  · by_cases hkn : (k', n) = (k, (s.client k).nextSerial)
    · obtain ⟨rfl, rfl⟩ := Prod.mk.inj hkn
      have hself : (s.called k' c r).wire k' (s.client k').nextSerial = some ⟨r, true, none, false⟩ := setWire_self ..
      rw [replyAt, hself] at htext
      cases htext
    · rw [replyAt, hwire k' n hkn] at htext
      exact htext

theorem ServerSide.ended (h : s.ServerSide) {k : κ} {d : Completion κ} {w : Wire} (hw : s.wire k d.serial = some w)
    (c : Client) : (s.ended k c d w).ServerSide := by
  have hfield : ∀ {β : Type} (f : Wire → β), f { w with ended := true } = f w → ∀ k' n,
      ((s.ended k c d w).wire k' n).map f = (s.wire k' n).map f := by
    intro β f hf k' n
    exact setWire_congr hw rfl { w with ended := true } f hf k' n
  refine h.congr rfl rfl rfl (fun k' n r' _ => ⟨?_, ?_, ?_⟩) (fun k' n text htext => ?_)
  · exact hfield Wire.inTransit rfl k' n
  · exact hfield Wire.rpc rfl k' n
  · exact hfield Wire.reply rfl k' n
  · have hreply := hfield Wire.reply rfl k' n
    rw [replyAt, hreply] at htext
    exact htext

/-- The state after a request is accepted, with the server it leaves. -/
def arrived (k : κ) (n : Nat) (w : Wire) (t : ServerImpl) (s : Network κ) : Network κ :=
  { s with
    server := t
    accepted := s.accepted ++ [(k, n)]
    requests := s.requests ++ [w.rpc.request] }.setWire k n { w with inTransit := false }

theorem ServerSide.arrived (h : s.ServerSide) {k : κ} {n : Nat} {w : Wire} (hw : s.wire k n = some w)
    (htransit : w.inTransit = true) {api : ServerApi} (hmethod : w.rpc.method = api.method) {a : Addr}
    {peer : List Char} {t : ServerImpl} (hinv : t.Inv) (hcalls : t.calls = s.server.calls ++ [api])
    (hnew : t.heap a = some ⟨api, .finish, some ⟨s.server.calls.length, peer⟩⟩)
    (hheap : ∀ b d, t.heap b = some d → b = a ∨ d = ⟨api, .process, none⟩ ∨ s.server.heap b = some d)
    (hkept : ∀ b api' ctx, s.server.heap b = some ⟨api', .finish, ctx⟩ → t.heap b = some ⟨api', .finish, ctx⟩) :
    (s.arrived k n w t).ServerSide := by
  have hcalls' : (s.arrived k n w t).server.calls = s.server.calls ++ [api] := hcalls
  have haccepted : (s.arrived k n w t).accepted = s.accepted ++ [(k, n)] := rfl
  have hrequests : (s.arrived k n w t).requests = s.requests ++ [w.rpc.request] := rfl
  have hlast : (s.server.calls ++ [api])[s.server.calls.length]? = some api := by simp
  have hfield : ∀ {β : Type} (f : Wire → β), f { w with inTransit := false } = f w → ∀ k' n',
      ((s.arrived k n w t).wire k' n').map f = (s.wire k' n').map f := by
    intro β f hf k' n'
    exact setWire_congr hw rfl { w with inTransit := false } f hf k' n'
  have hself : (s.arrived k n w t).wire k n = some { w with inTransit := false } := setWire_self ..
  have hnot : (k, n) ∉ s.accepted := by
    intro hin
    obtain ⟨i, hi⟩ := List.getElem?_of_mem hin
    have hfalse := (h.accepted i k n hi).1
    rw [transitAt, hw, Option.map_some, htransit] at hfalse
    cases hfalse
  -- An index of the list of accepted calls is an old one or the last.
  have hindex : ∀ i k' n', (s.accepted ++ [(k, n)])[i]? = some (k', n') →
      s.accepted[i]? = some (k', n') ∨ i = s.server.calls.length ∧ k' = k ∧ n' = n := by
    intro i k' n' hi
    rw [List.getElem?_append] at hi
    split at hi
    · exact Or.inl hi
    · rename_i hlt
      obtain ⟨hi0, heq⟩ := List.getElem?_eq_some_iff.1 hi
      rw [List.length_singleton] at hi0
      rw [List.getElem_singleton] at heq
      refine Or.inr ⟨?_, (congrArg Prod.fst heq).symm, (congrArg Prod.snd heq).symm⟩
      rw [← h.length.1]
      omega
  have hold : ∀ {β : Type} {l l' : List β} {i : Nat} {x : β}, l[i]? = some x → (l ++ l')[i]? = some x := by
    intro β l l' i x hx
    rw [List.getElem?_append_left (List.getElem?_eq_some_iff.1 hx).1, hx]
  refine ⟨hinv, ⟨?_, ?_⟩, KeyedList.nodup_push h.nodup hnot, fun i k' n' hi => ?_, fun k' n' text htext => ?_,
    fun b d hd => ?_, fun i k' n' hi hreply => ?_⟩
  · rw [haccepted, hcalls', List.length_append, List.length_append, h.length.1]
    rfl
  · rw [hrequests, hcalls', List.length_append, List.length_append, h.length.2]
    rfl
  · rw [rpcAt, hfield Wire.rpc rfl, hcalls', hrequests]
    rcases hindex i k' n' hi with hi' | ⟨rfl, rfl, rfl⟩
    · obtain ⟨htransit', api', r, hapi, hr, hm, hrequest⟩ := h.accepted i k' n' hi'
      have hkn : (k', n') ≠ (k, n) := fun heq => hnot (heq ▸ List.mem_of_getElem? hi')
      refine ⟨?_, api', r, hold hapi, hr, hm, hold hrequest⟩
      rw [transitAt, Network.arrived, setWire_of_ne hkn]
      exact htransit'
    · refine ⟨by rw [transitAt, hself]; rfl, api, w.rpc, hlast, by rw [hw]; rfl, hmethod, ?_⟩
      rw [← h.length.2]
      simp
  · rw [replyAt, hfield Wire.reply rfl] at htext
    obtain ⟨i, api', hi, hapi, htext⟩ := h.replied k' n' text htext
    rw [haccepted, hcalls']
    exact ⟨i, api', hold hi, hold hapi, htext⟩
  · rw [hcalls']
    rcases hheap b d hd with rfl | rfl | hb
    · obtain rfl : _ = d := Option.some.inj (hnew.symm.trans hd)
      exact Or.inr ⟨rfl, _, rfl, hlast⟩
    · exact Or.inl ⟨rfl, rfl⟩
    · rcases h.context b d hb with hp | ⟨hf, ctx', hctx, hcall⟩
      · exact Or.inl hp
      · exact Or.inr ⟨hf, ctx', hctx, hold hcall⟩
  · rw [replyAt, hfield Wire.reply rfl] at hreply
    rcases hindex i k' n' hi with hi | ⟨rfl, rfl, rfl⟩
    · obtain ⟨b, api', peer', hb⟩ := h.waiting i k' n' hi hreply
      exact ⟨b, api', peer', hkept b api' _ hb⟩
    · exact ⟨a, api, peer, hnew⟩

theorem ServerSide.arrive (h : s.ServerSide) {k : κ} {n : Nat} {w : Wire} (hw : s.wire k n = some w)
    (hmade : ∃ api info deadline, w.rpc = (doFn api).rpc info deadline) (htransit : w.inTransit = true)
    {api : ServerApi} (hmethod : w.rpc.method = api.method) {a : Addr} {peer : List Char} {fresh : Addr}
    (he : serverSystem.enabled s.server (.incoming api a peer fresh)) :
    ∃ t, t.calls = s.server.calls ++ [api] ∧ s.arrive k n api a peer fresh = .ok (s.arrived k n w t) ∧
      (s.arrived k n w t).ServerSide := by
  obtain ⟨hmem, hfresh⟩ := he
  obtain ⟨ctx, ha⟩ := (h.inv.agrees.request api a).1 hmem
  have hstep := ServerImpl.incoming_ok h.inv.agrees ha hfresh peer
  obtain ⟨t, ht, hinv⟩ := h.inv.step (e := .incoming api a peer fresh) ⟨hmem, hfresh⟩ trivial
  have htr : t = (s.server.register api fresh).replied api a peer := by
    rw [hstep, Except.ok.injEq] at ht
    exact ht.symm
  have hparse : Pb.requestCodec.parseFromString (Pb.requestCodec.serialize w.rpc.request) = some w.rpc.request := by
    obtain ⟨api', info, deadline, hrpc⟩ := hmade
    rw [hrpc]
    exact parse_request api' info deadline
  have hcalls : t.calls = s.server.calls ++ [api] := by
    rw [htr, ServerImpl.replied, ServerImpl.register_eq]
  have hupdate : t.heap = Function.update (Function.update s.server.heap fresh (some ⟨api, .process, none⟩)) a
      (some ⟨api, .finish, some ⟨s.server.calls.length, peer⟩⟩) := by
    rw [htr, ServerImpl.replied, ServerImpl.register_eq]
  have hnew : t.heap a = some ⟨api, .finish, some ⟨s.server.calls.length, peer⟩⟩ := by
    rw [hupdate, Function.update_self]
  have hheap : ∀ b d, t.heap b = some d → b = a ∨ d = ⟨api, .process, none⟩ ∨ s.server.heap b = some d := by
    intro b d hd
    rw [hupdate, Function.update_apply, Function.update_apply] at hd
    split_ifs at hd with hba hbf
    · exact Or.inl hba
    · exact Or.inr (Or.inl (Option.some.inj hd).symm)
    · exact Or.inr (Or.inr hd)
  have hkept : ∀ b api' ctx, s.server.heap b = some ⟨api', .finish, ctx⟩ → t.heap b = some ⟨api', .finish, ctx⟩ := by
    intro b api' ctx' hb
    have hba : b ≠ a := by
      rintro rfl
      rw [ha] at hb
      cases hb
    have hbf : b ≠ fresh := by
      rintro rfl
      rw [hfresh] at hb
      cases hb
    rw [hupdate, Function.update_of_ne hba, Function.update_of_ne hbf, hb]
  refine ⟨t, hcalls, ?_, h.arrived hw htransit hmethod hinv hcalls hnew hheap hkept⟩
  simp only [Network.arrive, hw, hparse, ht, Network.arrived]

theorem ServerSide.transmit (h : s.ServerSide) {a : Addr} (hmem : .finish a ∈ s.server.pending) :
    ∃ api k n w, s.wire k n = some w ∧
      s.transmit a = s.setWire k n { w with reply := some (callClass api).message.text } ∧
      (s.setWire k n { w with reply := some (callClass api).message.text }).ServerSide := by
  obtain ⟨api, i, peer, k, n, w, ha, hcall, hi, hcallAt, hw⟩ := h.callAt hmem
  refine ⟨api, k, n, w, hw, by simp only [Network.transmit, hcallAt, hw], ?_⟩
  have hself := setWire_self k n { w with reply := some (callClass api).message.text } s
  refine ⟨h.inv, h.length, h.nodup, fun j k' n' hj => ?_, fun k' n' text htext => ?_, h.context,
    fun j k' n' hj hreply => ?_⟩
  · have hrpc : (s.setWire k n { w with reply := some (callClass api).message.text }).rpcAt k' n' = s.rpcAt k' n' :=
      setWire_congr hw rfl { w with reply := some (callClass api).message.text } Wire.rpc rfl k' n'
    have htransit : (s.setWire k n { w with reply := some (callClass api).message.text }).transitAt k' n' =
        s.transitAt k' n' :=
      setWire_congr hw rfl { w with reply := some (callClass api).message.text } Wire.inTransit rfl k' n'
    rw [hrpc, htransit]
    exact h.accepted j k' n' hj
  · by_cases hkn : (k', n') = (k, n)
    · obtain ⟨rfl, rfl⟩ := Prod.mk.inj hkn
      rw [replyAt, hself] at htext
      cases htext
      exact ⟨i, api, hi, hcall, rfl⟩
    · rw [replyAt, setWire_of_ne hkn] at htext
      exact h.replied k' n' text htext
  · by_cases hkn : (k', n') = (k, n)
    · obtain ⟨rfl, rfl⟩ := Prod.mk.inj hkn
      rw [replyAt, hself] at hreply
      cases hreply
    · rw [replyAt, setWire_of_ne hkn] at hreply
      exact h.waiting j k' n' hj hreply

/-! ### Runs -/

/-- Every event is taken, but for that of a reply that did not go to the wire. -/
theorem Inv.step (h : s.Inv) {e : NetworkEvent κ} (he : networkSystem.enabled s e)
    (hok : ∀ a fresh, e ≠ .written a false fresh) : ∃ t, networkSystem.step s e = .ok t ∧ t.Inv := by
  obtain ⟨hclients, hservers, hshown⟩ := h
  cases e with
  | call k api info now a =>
    obtain ⟨c, hcall, hcl⟩ := hclients.call he api info now
    have hfresh : s.rpcAt k (s.client k).nextSerial = none := (hclients.rpcAt_none_iff k _).2 (Nat.le_refl _)
    refine ⟨_, hcall, hcl, hservers.called hfresh c _, fun d hd => ?_⟩
    exact (hshown d hd).mono (List.append_nil _).symm (List.append_nil _).symm
  | arrive k n api a peer fresh =>
    obtain ⟨⟨w, hw, htransit, hmethod⟩, hreg⟩ := he
    obtain ⟨t, hcalls, harrive, hsv⟩ := hservers.arrive hw (hclients.made hw) htransit hmethod hreg
    refine ⟨_, harrive, hclients.congr rfl rfl (fun k' n' => ?_) (fun k' n' => ?_), hsv, fun d hd => ?_⟩
    · exact setWire_congr hw rfl { w with inTransit := false } Wire.rpc rfl k' n'
    · exact setWire_congr hw rfl { w with inTransit := false } Wire.ended rfl k' n'
    · exact (hshown d hd).mono rfl hcalls
  | transmit a =>
    obtain ⟨api, k, n, w, hw, htransmit, hsv⟩ := hservers.transmit he
    refine ⟨_, congrArg Except.ok htransmit, hclients.congr rfl rfl (fun k' n' => ?_) (fun k' n' => ?_), hsv,
      fun d hd => ?_⟩
    · exact setWire_congr hw rfl { w with reply := some (callClass api).message.text } Wire.rpc rfl k' n'
    · exact setWire_congr hw rfl { w with reply := some (callClass api).message.text } Wire.ended rfl k' n'
    · exact (hshown d hd).mono (List.append_nil _).symm (List.append_nil _).symm
  | written a ok fresh =>
    obtain rfl : ok = true := by
      cases ok with
      | true => rfl
      | false => exact absurd rfl (hok a fresh)
    obtain ⟨hreg, api, k, n, w, hcallAt, hw, hreply⟩ := he
    obtain ⟨t, hcalls, hwritten, hsv⟩ := hservers.written hreg hcallAt hw hreply
    refine ⟨_, hwritten, hclients.congr rfl rfl (fun _ _ => rfl) (fun _ _ => rfl), hsv, fun d hd => ?_⟩
    exact (hshown d hd).mono (List.append_nil _).symm (by rw [List.append_nil]; exact hcalls)
  | complete k a ok =>
    obtain ⟨ha, -⟩ := he
    obtain ⟨call, c, w, hcall, hw, hmethod, -, hcomplete, hcl⟩ := hclients.complete ha ok
    refine ⟨_, hcomplete, hcl, hservers.ended hw c, fun d hd => ?_⟩
    rcases List.mem_append.1 hd with hd | hd
    · exact (hshown d hd).mono (List.append_nil _).symm (List.append_nil _).symm
    · rw [List.mem_singleton.1 hd]
      intro r hr
      have hbind : w.reply.bind (parseReply call.api) = some r := by
        cases ok with
        | true => exact hr
        | false => cases hr
      obtain ⟨text, htext, hparse⟩ := Option.bind_eq_some_iff.1 hbind
      have hreply : s.replyAt k call.serial = some (some text) := by
        rw [replyAt, hw, Option.map_some, htext]
      obtain ⟨i, api, hi, hapi, rfl⟩ := hservers.replied k call.serial text hreply
      obtain ⟨-, api', r', hapi', hr', hmethod', -⟩ := hservers.accepted i k call.serial hi
      have hapis : api.method = call.api := by
        obtain rfl : api = api' := Option.some.inj (hapi.symm.trans hapi')
        rw [rpcAt, hw, Option.map_some, Option.some.injEq] at hr'
        rw [← hmethod', ← hr', hmethod]
      rw [← hapis, parseReply_text, Option.some.injEq] at hparse
      exact ⟨i, api, hi, hapi, hapis, hparse.symm⟩

theorem Inv.next (h : s.Inv) {e : NetworkEvent κ} {t : Network κ} (he : networkSystem.enabled s e)
    (ht : networkSystem.step s e = .ok t) : t.Inv := by
  have hok : ∀ a fresh, e ≠ .written a false fresh := by
    rintro a fresh rfl
    cases ht
  obtain ⟨t', ht', hinv⟩ := h.step he hok
  obtain rfl := Except.ok.inj (ht'.symm.trans ht)
  exact hinv

theorem inv_of_exec {addr : ServerApi → Addr} (hinj : Function.Injective addr) {es : List (NetworkEvent κ)}
    (h : networkSystem.Allowed (start addr) es) (hs : networkSystem.exec (start addr) es = .ok s) : s.Inv :=
  System.exec_inv (inv_start hinj) (fun _ _ _ hu he ht => hu.next he ht) h hs

/-- A served method is completed in its own case. -/
theorem completionCase_method (api : ServerApi) : completionCase (doFn api.method).tag = api.method := by
  cases api <;> rfl

/-- A response that a client prints is the reply of the server to that very call: the server accepted the call in an
object of its method and read the request that the `Do*` function had filled in, and the client prints the response in
the case of the API it called. -/
theorem shown_reply {addr : ServerApi → Addr} (hinj : Function.Injective addr) {es : List (NetworkEvent κ)}
    (h : networkSystem.Allowed (start addr) es) (hs : networkSystem.exec (start addr) es = .ok s) {c : Completion κ}
    (hc : c ∈ s.completed) {r : Reply} (hr : c.reply = some r) :
    c.entered = some c.api ∧ ∃ (i : Nat) (api : ServerApi) (rpc : Rpc), s.accepted[i]? = some c.key ∧
      s.server.calls[i]? = some api ∧ api.method = c.api ∧ (s.client c.client).sent[c.serial]? = some rpc ∧
      rpc.method = c.api ∧ s.requests[i]? = some rpc.request ∧ r = (callClass api).message := by
  obtain ⟨hclients, hservers, hshown⟩ := inv_of_exec hinj h hs
  obtain ⟨hentered, -⟩ := hclients.entered c hc
  obtain ⟨i, api, hi, hapi, hmethod, hmessage⟩ := hshown c hc r hr
  obtain ⟨-, api', rpc, hapi', hrpc, hmethod', hrequest⟩ := hservers.accepted i c.client c.serial hi
  obtain rfl : api = api' := Option.some.inj (hapi.symm.trans hapi')
  refine ⟨?_, i, api, rpc, hi, hapi, hmethod, ?_, hmethod'.trans hmethod, hrequest, hmessage⟩
  · rw [hentered, ← hmethod, completionCase_method]
  · rw [← hclients.sent, hrpc]

/-- Two clients call at the same address of their own; the requests arrive in the other order, and the second call has
its deadline when its reply is on the wire. -/
def twoClientsRun : List (NetworkEvent Bool) :=
  [.call false .allocate .default 0 16, .call true .connect .default 0 16,
    .arrive true 0 .connect 48 "ipv4:10.0.0.8:40002".toList 80, .arrive false 0 .allocate 16 "unix:".toList 96,
    .transmit 16, .transmit 48, .written 48 true 112, .complete false 16 true, .complete true 16 false,
    .written 16 true 112]

theorem shown_reply_twoClients : ∃ (s : Network Bool) (c : Completion Bool) (r : Reply),
    networkSystem.exec (start firstAddr) twoClientsRun = .ok s ∧ c ∈ s.completed ∧ c.reply = some r ∧
      c.entered = some c.api ∧ ∃ i : Nat, s.accepted[i]? = some c.key := by
  obtain ⟨s, hs, hany⟩ := System.exec_test (M := networkSystem) (start firstAddr : Network Bool)
    twoClientsRun (fun s => s.completed.any fun c => c.reply.isSome) (by decide +kernel)
  obtain ⟨c, hc, hsome⟩ := List.any_eq_true.1 hany
  obtain ⟨r, hr⟩ := Option.isSome_iff_exists.1 hsome
  obtain ⟨hentered, i, -, -, hi, -⟩ := shown_reply firstAddr_injective (by decide +kernel) hs hc hr
  exact ⟨s, c, r, hs, hc, hr, hentered, i, hi⟩

/-- No call is accepted twice and none is completed twice, and the calls of a client that waits for nothing are those
that it completed. -/
theorem at_most_once {addr : ServerApi → Addr} (hinj : Function.Injective addr) {es : List (NetworkEvent κ)}
    (h : networkSystem.Allowed (start addr) es) (hs : networkSystem.exec (start addr) es = .ok s) :
    s.accepted.Nodup ∧ (s.completed.map Completion.key).Nodup ∧
      (∀ id ∈ s.accepted ++ s.completed.map Completion.key, id.2 < (s.client id.1).sent.length) ∧
      ∀ k, (s.client k).outstanding = [] → ∀ n < (s.client k).sent.length,
        (s.completed.map Completion.key).count (k, n) = 1 := by
  obtain ⟨hclients, hservers, -⟩ := inv_of_exec hinj h hs
  have hsent : ∀ k n r, s.rpcAt k n = some r → n < (s.client k).sent.length := by
    intro k n r hr
    rw [hclients.sent] at hr
    exact (List.getElem?_eq_some_iff.1 hr).1
  refine ⟨hservers.nodup, hclients.nodup, fun id hid => ?_, fun k hnone n hn => ?_⟩
  · rcases List.mem_append.1 hid with hid | hid
    · obtain ⟨i, hi⟩ := List.getElem?_of_mem hid
      obtain ⟨-, api, r, -, hr, -⟩ := hservers.accepted i id.1 id.2 hi
      exact hsent id.1 id.2 r hr
    · obtain ⟨c, hc, rfl⟩ := List.mem_map.1 hid
      obtain ⟨-, r, hr, -⟩ := hclients.entered c hc
      exact hsent c.client c.serial r hr
  · exact List.count_eq_one_of_mem hclients.nodup (hclients.completed_of_idle hnone hn)

theorem at_most_once_twoClients : ∃ s : Network Bool,
    networkSystem.exec (start firstAddr) twoClientsRun = .ok s ∧ s.accepted.length = 2 ∧ s.accepted.Nodup ∧
      (s.completed.map Completion.key).count (true, 0) = 1 := by
  obtain ⟨s, hs, htest⟩ := System.exec_test (M := networkSystem) (start firstAddr : Network Bool)
    twoClientsRun (fun s => decide (s.accepted.length = 2 ∧ (s.client true).outstanding = [] ∧
      0 < (s.client true).sent.length)) (by decide +kernel)
  obtain ⟨hlength, hnone, hsent⟩ := of_decide_eq_true htest
  obtain ⟨hnodup, -, -, hcount⟩ := at_most_once firstAddr_injective (by decide +kernel) hs
  exact ⟨s, hs, hlength, hnodup, hcount true hnone 0 hsent⟩

end Network

end Cloudein
