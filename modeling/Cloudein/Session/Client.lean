import Cloudein.Session.Common
import Cloudein.Lib.PairList
import Mathlib.Logic.Function.Basic

/-!
# The state of `CloudeinSessionClient` and its operations

The heap of `AsyncClientCall_*` structs, the list `list_tag_idx_`, the tags given to `Finish` and not delivered yet,
and the statements of the `Do*` functions and of `StartAsyncCompleteRpc` as operations on them.  An operation that
would dereference `end()` or a freed struct fails.  `serial` numbers the allocations and `deleted` records the
deletions: both are only there to be spoken of.
-/

namespace Cloudein

open PairList

/-- A live `AsyncClientCall_*` struct. -/
structure AsyncClientCall where
  api : Api
  deadline : Int
  serial : Nat
deriving DecidableEq, Repr

/-- A deletion: the allocation deleted, the struct it was allocated as and the struct it was deleted as (none for the
`void*` of the clean-up loop). -/
structure Deleted where
  serial : Nat
  allocated : Api
  entered : Option Api
deriving DecidableEq, Repr

inductive Fault where
  | derefEnd
  | useAfterFree
deriving DecidableEq, Repr

structure Client where
  heap : Addr → Option AsyncClientCall
  listTagIdx : List (CloudeinGrpcTag × Addr)
  /-- The tags given to `Finish` that `Next` has not delivered. -/
  outstanding : List Addr
  sent : List Rpc
  nextSerial : Nat
  deleted : List Deleted

namespace Client

def init : Client := ⟨fun _ => none, [], [], [], 0, []⟩

/-- `new AsyncClientCall_*` at the address `a`, and the deadline of the call. -/
def newCall (f : DoFn) (now : Int) (a : Addr) (c : Client) : Client :=
  { c with
    heap := Function.update c.heap a (some ⟨f.api, now + 5000, c.nextSerial⟩)
    nextSerial := c.nextSerial + 1 }

def tagPush (tag : CloudeinGrpcTag) (a : Addr) (c : Client) : Client :=
  { c with listTagIdx := c.listTagIdx ++ [(tag, a)] }

/-- `PrepareAsync*`, `StartCall` and `Finish` with the address of the call as tag. -/
def finish (f : DoFn) (info : SessionInfo) (a : Addr) (c : Client) : Except Fault Client :=
  match c.heap a with
  | none => .error .useAfterFree
  | some call =>
    .ok { c with sent := c.sent ++ [f.rpc info call.deadline], outstanding := c.outstanding ++ [a] }

def next (a : Addr) (c : Client) : Client := { c with outstanding := c.outstanding.erase a }

/-- The lookup dereferences what `find_if` returns without comparing it with `end()`. -/
def tagPop (a : Addr) (c : Client) : Except Fault (CloudeinGrpcTag × Client) :=
  match findSnd c.listTagIdx a with
  | none => .error .derefEnd
  | some p => .ok (p.1, { c with listTagIdx := eraseSnd c.listTagIdx a })

def freed (a : Addr) (as : Option Api) (call : AsyncClientCall) (c : Client) : Client :=
  { c with
    heap := Function.update c.heap a none
    deleted := c.deleted ++ [⟨call.serial, call.api, as⟩] }

def delete (a : Addr) (as : Option Api) (c : Client) : Except Fault Client :=
  match c.heap a with
  | none => .error .useAfterFree
  | some call => .ok (c.freed a as call)

/-- The `switch` of `StartAsyncCompleteRpc`: every case casts the address to its own struct, prints the response and
deletes the struct. -/
def completeCall (tag : CloudeinGrpcTag) (a : Addr) (c : Client) : Except Fault Client :=
  c.delete a (some (completionCase tag))

/-- A whole `Do*` function. -/
def doCall (f : DoFn) (info : SessionInfo) (now : Int) (a : Addr) (c : Client) : Except Fault Client :=
  ((c.newCall f now a).tagPush f.tag a).finish f info a

/-- A whole iteration of the loop of `StartAsyncCompleteRpc`, on the tag `a`. -/
def onNext (a : Addr) (c : Client) : Except Fault Client :=
  match (c.next a).tagPop a with
  | .error e => .error e
  | .ok (tag, c') => c'.completeCall tag a

/-! ### What each operation does -/

theorem finish_ok (f : DoFn) (info : SessionInfo) {a : Addr} {c : Client} {call : AsyncClientCall}
    (h : c.heap a = some call) :
    c.finish f info a =
      .ok { c with sent := c.sent ++ [f.rpc info call.deadline], outstanding := c.outstanding ++ [a] } := by
  simp only [finish, h]

theorem delete_ok (as : Option Api) {a : Addr} {c : Client} {call : AsyncClientCall} (h : c.heap a = some call) :
    c.delete a as = .ok (c.freed a as call) := by
  simp only [delete, h]

theorem tagPop_ok {a : Addr} {c : Client} {tag : CloudeinGrpcTag} (h : findSnd c.listTagIdx a = some (tag, a)) :
    c.tagPop a = .ok (tag, { c with listTagIdx := eraseSnd c.listTagIdx a }) := by
  simp only [tagPop, h]

theorem doCall_eq (f : DoFn) (info : SessionInfo) (now : Int) (a : Addr) (c : Client) :
    c.doCall f info now a = .ok
      { heap := Function.update c.heap a (some ⟨f.api, now + 5000, c.nextSerial⟩)
        listTagIdx := c.listTagIdx ++ [(f.tag, a)]
        outstanding := c.outstanding ++ [a]
        sent := c.sent ++ [f.rpc info (now + 5000)]
        nextSerial := c.nextSerial + 1
        deleted := c.deleted } := by
  have h : ((c.newCall f now a).tagPush f.tag a).heap a = some ⟨f.api, now + 5000, c.nextSerial⟩ := by
    simp [newCall, tagPush]
  rw [doCall, finish_ok f info h]
  rfl

theorem onNext_ok {a : Addr} {c : Client} {tag : CloudeinGrpcTag} {call : AsyncClientCall}
    (ht : findSnd c.listTagIdx a = some (tag, a)) (hh : c.heap a = some call) :
    c.onNext a = .ok
      { heap := Function.update c.heap a none
        listTagIdx := eraseSnd c.listTagIdx a
        outstanding := c.outstanding.erase a
        sent := c.sent
        nextSerial := c.nextSerial
        deleted := c.deleted ++ [⟨call.serial, call.api, some (completionCase tag)⟩] } := by
  have hp : (c.next a).tagPop a = .ok (tag, { c.next a with listTagIdx := eraseSnd c.listTagIdx a }) :=
    tagPop_ok (c := c.next a) ht
  simp only [onNext, hp, completeCall]
  rw [delete_ok (c := { c.next a with listTagIdx := eraseSnd c.listTagIdx a }) _ hh]
  rfl

end Client

end Cloudein
