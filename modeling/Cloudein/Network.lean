import Cloudein.Session.Dispatch
import Cloudein.Session.Ledger
import Cloudein.Session.Messages
import Cloudein.Server.HandleRpcs

/-!
# Session clients and the session server

Any number of clients and one server, with gRPC between them.  A request travels as the text of its message, reaches
the server at most once, into an object that registered for its method, and a client that is told the status OK reads
its response out of the text that the server wrote.  A call may end with another status at any time, such as that of
its deadline, whatever has become of its request.
-/

namespace Cloudein

open Protobuf Runs Server

/-! ### Texts -/

/-- The request message of a `Do*` function. -/
def Rpc.request (r : Rpc) : Message Pb.Request := ⟨⟨utf8Bytes r.region, utf8Bytes r.txName⟩, []⟩

/-- The method of the service that an object of the server registers for. -/
def Server.ServerApi.method : ServerApi → Api
  | .allocate => .allocate
  | .prepare => .prepare
  | .connect => .connect
  | .release => .release

inductive Reply where
  | allocate (m : Message Pb.AllocateResponse)
  | other (m : Message Pb.Response)

/-- The reply message that an object of the class hands to `Finish`. -/
def Server.CallClass.message (k : CallClass) : Reply :=
  let port (i : Nat) : UInt64 := .ofNat (k.reply.allocatePorts.getD i 0)
  match k.api with
  | .allocate => .allocate ⟨⟨utf8Bytes k.reply.region, port 0, port 1, port 2, port 3, port 4⟩, []⟩
  | _ => .other ⟨⟨utf8Bytes k.reply.region⟩, []⟩

def Reply.text : Reply → List UInt8
  | allocate m => Pb.allocateResponseCodec.serialize m
  | other m => Pb.responseCodec.serialize m

/-- The text of a reply as the response class of a method reads it. -/
def parseReply (method : Api) (text : List UInt8) : Option Reply :=
  match method with
  | .allocate => (Pb.allocateResponseCodec.parseFromString text).map .allocate
  | _ => (Pb.responseCodec.parseFromString text).map .other

/-! ### Calls under way -/

/-- What gRPC holds of a call: its request, which may not have been accepted yet, the reply that the server wrote, and
whether the client was told the end of the call. -/
structure Wire where
  rpc : Rpc
  inTransit : Bool
  reply : Option (List UInt8)
  ended : Bool

/-- An end of a call: the API it was made with, the case of `StartAsyncCompleteRpc` it entered, and the response that
is printed when the status is OK. -/
structure Completion (κ : Type) where
  client : κ
  serial : Nat
  api : Api
  entered : Option Api
  reply : Option Reply

def Completion.key {κ : Type} (c : Completion κ) : κ × Nat := (c.client, c.serial)

structure Network (κ : Type) where
  client : κ → Client
  server : ServerImpl
  wire : κ → Nat → Option Wire
  /-- The calls that the server accepted, in the order of their numbers, and the requests it read. -/
  accepted : List (κ × Nat)
  requests : List (Message Pb.Request)
  completed : List (Completion κ)

inductive NetworkFault where
  | client (e : Cloudein.Fault)
  | server (e : Server.Fault)

inductive NetworkEvent (κ : Type) where
  /-- The client `k` calls the `Do*` function of an API. -/
  | call (k : κ) (api : Api) (info : SessionInfo) (now : Int) (a : Addr)
  /-- The request of the call `n` of the client `k` reaches the object at `a` of the server. -/
  | arrive (k : κ) (n : Nat) (api : ServerApi) (a : Addr) (peer : List Char) (fresh : Addr)
  /-- The reply of the object at `a` of the server goes to the wire. -/
  | transmit (a : Addr)
  /-- The server is told of the reply of its object at `a`; `ok` when it went to the wire. -/
  | written (a : Addr) (ok : Bool) (fresh : Addr)
  /-- The client `k` is told the end of its call at `a`; `ok` when the status is OK. -/
  | complete (k : κ) (a : Addr) (ok : Bool)

namespace Network

variable {κ : Type} [DecidableEq κ]

def start (addr : ServerApi → Addr) : Network κ := ⟨fun _ => .init, .start addr, fun _ _ => none, [], [], []⟩

def setWire (k : κ) (n : Nat) (w : Wire) (s : Network κ) : Network κ :=
  { s with wire := Function.update s.wire k (Function.update (s.wire k) n (some w)) }

def call (k : κ) (api : Api) (info : SessionInfo) (now : Int) (a : Addr) (s : Network κ) :
    Except NetworkFault (Network κ) :=
  match (s.client k).doCall (doFn api) info now a with
  | .error e => .error (.client e)
  | .ok c =>
    .ok ({ s with client := Function.update s.client k c }.setWire k (s.client k).nextSerial
      ⟨(doFn api).rpc info (now + 5000), true, none, false⟩)

/-- A request that cannot be parsed is dropped and not accepted. -/
def arrive (k : κ) (n : Nat) (api : ServerApi) (a : Addr) (peer : List Char) (fresh : Addr) (s : Network κ) :
    Except NetworkFault (Network κ) :=
  match s.wire k n with
  | none => .ok s
  | some w => match Pb.requestCodec.parseFromString (Pb.requestCodec.serialize w.rpc.request) with
    | none => .ok (s.setWire k n { w with inTransit := false })
    | some m => match serverSystem.step s.server (.incoming api a peer fresh) with
      | .error e => .error (.server e)
      | .ok t =>
        .ok ({ s with server := t, accepted := s.accepted ++ [(k, n)], requests := s.requests ++ [m] }.setWire k n
          { w with inTransit := false })

/-- The call that the object at an address of the server has accepted, with the class of the object. -/
def callAt (a : Addr) (s : Network κ) : Option (ServerApi × κ × Nat) :=
  match s.server.heap a with
  | some ⟨api, _, some ctx⟩ => (s.accepted[ctx.call]?).map fun id => (api, id)
  | _ => none

def transmit (a : Addr) (s : Network κ) : Network κ :=
  match s.callAt a with
  | none => s
  | some (api, k, n) => match s.wire k n with
    | none => s
    | some w => s.setWire k n { w with reply := some (callClass api).message.text }

def written (a : Addr) (ok : Bool) (fresh : Addr) (s : Network κ) : Except NetworkFault (Network κ) :=
  match serverSystem.step s.server (.finished a ok fresh) with
  | .error e => .error (.server e)
  | .ok t => .ok { s with server := t }

def complete (k : κ) (a : Addr) (ok : Bool) (s : Network κ) : Except NetworkFault (Network κ) :=
  match (s.client k).heap a with
  | none => .error (.client .useAfterFree)
  | some call => match (s.client k).onNext a with
    | .error e => .error (.client e)
    | .ok c =>
      let response := (s.wire k call.serial).bind Wire.reply
      let t := { s with
        client := Function.update s.client k c
        completed := s.completed ++ [⟨k, call.serial, call.api, c.deleted.getLast?.bind Deleted.entered,
          if ok then response.bind (parseReply call.api) else none⟩] }
      match s.wire k call.serial with
      | none => .ok t
      | some w => .ok (t.setWire k call.serial { w with ended := true })

end Network

/-- A request is delivered once, and to an object that is registered for its method.  The server is told that a reply
went to the wire when it did.  Until then it can be told that it will not, because the call is dead: canceled, behind
its deadline or without a connection, which the client may be told later or never.  The status is OK only when the
reply went to the wire and can be parsed. -/
def networkSystem {κ : Type} [DecidableEq κ] : System (Network κ) (NetworkEvent κ) NetworkFault where
  enabled s
    | .call k _ _ _ a => (s.client k).heap a = none
    | .arrive k n api a peer fresh =>
      (∃ w, s.wire k n = some w ∧ w.inTransit = true ∧ w.rpc.method = api.method) ∧
        serverSystem.enabled s.server (.incoming api a peer fresh)
    | .transmit a => .finish a ∈ s.server.pending
    | .written a ok fresh =>
      serverSystem.enabled s.server (.finished a ok fresh) ∧
        ∃ api k n w, s.callAt a = some (api, k, n) ∧ s.wire k n = some w ∧
          if ok then w.reply ≠ none else w.reply = none
    | .complete k a ok =>
      a ∈ (s.client k).outstanding ∧
        (ok = true → ∃ call w text, (s.client k).heap a = some call ∧ s.wire k call.serial = some w ∧
          w.reply = some text ∧ parseReply call.api text ≠ none)
  step s
    | .call k api info now a => s.call k api info now a
    | .arrive k n api a peer fresh => s.arrive k n api a peer fresh
    | .transmit a => .ok (s.transmit a)
    | .written a ok fresh => s.written a ok fresh
    | .complete k a ok => s.complete k a ok

instance {κ : Type} [DecidableEq κ] (s : Network κ) : ∀ e, Decidable (networkSystem.enabled s e)
  | .call k _ _ _ a => inferInstanceAs (Decidable ((s.client k).heap a = none))
  | .arrive k n api a peer fresh =>
    decidable_of_iff (((s.wire k n).any fun w => w.inTransit = true ∧ w.rpc.method = api.method) = true ∧
        serverSystem.enabled s.server (.incoming api a peer fresh)) <| by
      simp only [Option.any_eq_true, decide_eq_true_eq]
      rfl
  | .transmit a => inferInstanceAs (Decidable (.finish a ∈ s.server.pending))
  | .written a ok fresh =>
    decidable_of_iff (serverSystem.enabled s.server (.finished a ok fresh) ∧
        ((s.callAt a).any fun id => (s.wire id.2.1 id.2.2).any fun w =>
          decide (if ok then w.reply ≠ none else w.reply = none)) = true) <| by
      simp only [Option.any_eq_true, decide_eq_true_eq, Prod.exists]
      constructor
      · rintro ⟨hreg, api, k, n, hid, w, hw⟩
        exact ⟨hreg, api, k, n, w, hid, hw⟩
      · rintro ⟨hreg, api, k, n, w, hid, hw⟩
        exact ⟨hreg, api, k, n, hid, w, hw⟩
  | .complete k a ok =>
    decidable_of_iff (a ∈ (s.client k).outstanding ∧
        (ok = true → (((s.client k).heap a).any fun call => (s.wire k call.serial).any fun w =>
          w.reply.any fun text => (parseReply call.api text).isSome) = true)) <| by
      simp only [Option.any_eq_true, Option.isSome_iff_ne_none]
      refine and_congr_right fun _ => forall_congr' fun _ => ?_
      constructor
      · rintro ⟨call, hcall, w, hw, text, htext, hparse⟩
        exact ⟨call, w, text, hcall, hw, htext, hparse⟩
      · rintro ⟨call, w, text, hcall, hw, htext, hparse⟩
        exact ⟨call, hcall, w, hw, text, htext, hparse⟩

end Cloudein
