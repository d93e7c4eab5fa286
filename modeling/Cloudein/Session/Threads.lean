import Cloudein.Session.Ledger
import Cloudein.Lib.Run

/-!
# The client as threads

Any number of threads issue calls and one thread completes them, step by step: a `Do*` function allocates its call,
pushes its tag and gives it to `Finish`; the completion thread takes a tag from `Next`, pops it from the list and
deletes the call.  `StopAsyncCompleteRpc` shuts the queue down, and once `Next` has returned false the completion
thread deletes what the list still holds.  No `Do*` function is called after the shutdown.
-/

namespace Cloudein

open PairList Runs

/-- Where a thread is in a `Do*` function. -/
inductive Issuer where
  | idle
  | allocated (api : Api) (info : SessionInfo) (a : Addr)
  | pushed (api : Api) (info : SessionInfo) (a : Addr)
deriving DecidableEq

/-- Where the completion thread is in `StartAsyncCompleteRpc`. -/
inductive Completer where
  | waiting
  | received (a : Addr)
  | popped (tag : CloudeinGrpcTag) (a : Addr)
  | returned
deriving DecidableEq

structure Threads where
  client : Client
  issuer : Nat → Issuer
  completer : Completer
  shutdown : Bool

inductive ThreadEvent where
  | allocate (t : Nat) (api : Api) (info : SessionInfo) (now : Int) (a : Addr)
  | push (t : Nat)
  | finish (t : Nat)
  | next (a : Addr)
  | pop
  | complete
  | stop
  /-- `Next` returns false, and the completion thread leaves its loop and cleans up. -/
  | nextFalse

/-- The clean-up loop: `delete it->second` for every pair of the list. -/
def Client.deleteAll : List (CloudeinGrpcTag × Addr) → Client → Except Fault Client
  | [], c => .ok c
  | p :: l, c => match c.delete p.2 none with
    | .error e => .error e
    | .ok c' => deleteAll l c'

/-- The end of `StartAsyncCompleteRpc`: the clean-up loop and `list_tag_idx_.clear()`. -/
def Client.cleanUp (c : Client) : Except Fault Client :=
  match deleteAll c.listTagIdx c with
  | .error e => .error e
  | .ok c' => .ok { c' with listTagIdx := [] }

namespace Threads

def init : Threads := ⟨.init, fun _ => .idle, .waiting, false⟩

def allocate (t : Nat) (api : Api) (info : SessionInfo) (now : Int) (a : Addr) (s : Threads) : Threads :=
  { s with
    client := s.client.newCall (doFn api) now a
    issuer := Function.update s.issuer t (.allocated api info a) }

def push (t : Nat) (s : Threads) : Threads :=
  match s.issuer t with
  | .allocated api info a =>
    { s with
      client := s.client.tagPush (doFn api).tag a
      issuer := Function.update s.issuer t (.pushed api info a) }
  | _ => s

def finish (t : Nat) (s : Threads) : Except Fault Threads :=
  match s.issuer t with
  | .pushed api info a => match s.client.finish (doFn api) info a with
    | .error e => .error e
    | .ok c => .ok { s with client := c, issuer := Function.update s.issuer t .idle }
  | _ => .ok s

def next (a : Addr) (s : Threads) : Threads :=
  { s with client := s.client.next a, completer := .received a }

def pop (s : Threads) : Except Fault Threads :=
  match s.completer with
  | .received a => match s.client.tagPop a with
    | .error e => .error e
    | .ok (tag, c) => .ok { s with client := c, completer := .popped tag a }
  | _ => .ok s

def complete (s : Threads) : Except Fault Threads :=
  match s.completer with
  | .popped tag a => match s.client.completeCall tag a with
    | .error e => .error e
    | .ok c => .ok { s with client := c, completer := .waiting }
  | _ => .ok s

def stop (s : Threads) : Threads := { s with shutdown := true }

def nextFalse (s : Threads) : Except Fault Threads :=
  match s.client.cleanUp with
  | .error e => .error e
  | .ok c => .ok { s with client := c, completer := .returned }

end Threads

/-- The steps a thread may take, `new` returns no live address, `Next` delivers each tag once and returns false only
after the shutdown and when no tag is outstanding. -/
def threadSystem : System Threads ThreadEvent Fault where
  enabled s
    | .allocate t _ _ _ a => s.issuer t = .idle ∧ s.client.heap a = none ∧ s.shutdown = false
    | .push t => ∃ api info a, s.issuer t = .allocated api info a
    | .finish t => ∃ api info a, s.issuer t = .pushed api info a
    | .next a => s.completer = .waiting ∧ a ∈ s.client.outstanding
    | .pop => ∃ a, s.completer = .received a
    | .complete => ∃ tag a, s.completer = .popped tag a
    | .stop => True
    | .nextFalse => s.completer = .waiting ∧ s.shutdown = true ∧ s.client.outstanding = []
  step s
    | .allocate t api info now a => .ok (s.allocate t api info now a)
    | .push t => .ok (s.push t)
    | .finish t => s.finish t
    | .next a => .ok (s.next a)
    | .pop => s.pop
    | .complete => s.complete
    | .stop => .ok s.stop
    | .nextFalse => s.nextFalse

instance (s : Threads) : ∀ e, Decidable (threadSystem.enabled s e)
  | .allocate t _ _ _ a =>
    inferInstanceAs (Decidable (s.issuer t = .idle ∧ s.client.heap a = none ∧ s.shutdown = false))
  | .push t => match h : s.issuer t with
    | .allocated api info a => .isTrue ⟨api, info, a, h⟩
    | .idle => .isFalse fun ⟨_, _, _, h'⟩ => by cases h.symm.trans h'
    | .pushed .. => .isFalse fun ⟨_, _, _, h'⟩ => by cases h.symm.trans h'
  | .finish t => match h : s.issuer t with
    | .pushed api info a => .isTrue ⟨api, info, a, h⟩
    | .idle => .isFalse fun ⟨_, _, _, h'⟩ => by cases h.symm.trans h'
    | .allocated .. => .isFalse fun ⟨_, _, _, h'⟩ => by cases h.symm.trans h'
  | .next a => inferInstanceAs (Decidable (s.completer = .waiting ∧ a ∈ s.client.outstanding))
  | .pop => match h : s.completer with
    | .received a => .isTrue ⟨a, h⟩
    | .waiting => .isFalse fun ⟨_, h'⟩ => by cases h.symm.trans h'
    | .popped .. => .isFalse fun ⟨_, h'⟩ => by cases h.symm.trans h'
    | .returned => .isFalse fun ⟨_, h'⟩ => by cases h.symm.trans h'
  | .complete => match h : s.completer with
    | .popped tag a => .isTrue ⟨tag, a, h⟩
    | .waiting => .isFalse fun ⟨_, _, h'⟩ => by cases h.symm.trans h'
    | .received .. => .isFalse fun ⟨_, _, h'⟩ => by cases h.symm.trans h'
    | .returned => .isFalse fun ⟨_, _, h'⟩ => by cases h.symm.trans h'
  | .stop => .isTrue trivial
  | .nextFalse =>
    inferInstanceAs (Decidable (s.completer = .waiting ∧ s.shutdown = true ∧ s.client.outstanding = []))

end Cloudein
