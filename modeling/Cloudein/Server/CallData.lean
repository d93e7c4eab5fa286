import Cloudein.Session.Common
import Cloudein.Lib.PairList
import Cloudein.Server.Peer

/-!
# The call objects of the server

`AllocateData`, `PrepareData`, `ConnectData` and `ReleaseData` are the same object with three differences: the API it
registers for, the tag its address is pushed with and the reply it sends.  An object registers for the next call of
its API when it is created; when the call comes it creates the object for the call after it, replies, and deletes
itself when the reply is done.  What gRPC holds is the list of registrations that have not been delivered yet.  The
fields of the request are only printed and are left out; the peer stays because its address is cut out of a string.
-/

namespace Cloudein.Server

open PairList

inductive GrpcTag where
  | doAllocateApi
  | doPrepareApi
  | doConnectApi
  | doReleaseApi
deriving DecidableEq, Repr

inductive ServerApi where
  | allocate
  | prepare
  | connect
  | release
deriving DecidableEq, Repr

structure Response where
  region : String
  allocatePorts : List Nat
deriving DecidableEq, Repr

structure CallClass where
  api : ServerApi
  tag : GrpcTag
  reply : Response
deriving DecidableEq, Repr

def allocateData : CallClass :=
  ⟨.allocate, .doAllocateApi, ⟨"WSL-Allocate-resp", [50001, 50002, 50003, 50004, 50005]⟩⟩
def prepareData : CallClass := ⟨.prepare, .doPrepareApi, ⟨"WSL-Prepare-resp", []⟩⟩
def connectData : CallClass := ⟨.connect, .doConnectApi, ⟨"WSL-Connect-resp", []⟩⟩
def releaseData : CallClass := ⟨.release, .doReleaseApi, ⟨"WSL-Release-resp", []⟩⟩

def callClass : ServerApi → CallClass
  | .allocate => allocateData
  | .prepare => prepareData
  | .connect => connectData
  | .release => releaseData

/-- The class the `switch` of `HandleRpcs` casts to. -/
def castClass : GrpcTag → CallClass
  | .doAllocateApi => allocateData
  | .doPrepareApi => prepareData
  | .doConnectApi => connectData
  | .doReleaseApi => releaseData

@[simp] theorem callClass_api (api : ServerApi) : (callClass api).api = api := by cases api <;> rfl

/-- The tag of a class selects that class. -/
@[simp] theorem castClass_tag (api : ServerApi) : castClass (callClass api).tag = callClass api := by
  cases api <;> rfl

inductive CallStatus where
  | create
  | process
  | finish
deriving DecidableEq, Repr

/-- The accepted call a `ServerContext` describes, as a number in the order of acceptance, and its peer. -/
structure ServerContext where
  call : Nat
  peer : List Char
deriving DecidableEq, Repr

structure CallData where
  api : ServerApi
  status : CallStatus
  ctx : Option ServerContext
deriving DecidableEq, Repr

/-- A registration with gRPC, to be delivered with the address as its tag. -/
inductive Registration where
  | request (api : ServerApi) (a : Addr)
  | finish (a : Addr)
deriving DecidableEq, Repr

inductive Fault where
  | assertFailed
  | derefEnd
  | badCast
  | useAfterFree
  /-- `Proceed` reads a context no call was accepted into. -/
  | emptyContext
  | outOfRange
deriving DecidableEq, Repr

structure ServerImpl where
  heap : Addr → Option CallData
  listTagIdx : List (GrpcTag × Addr)
  pending : List Registration
  calls : List ServerApi
  /-- The replies handed to `Finish`, each with its call. -/
  answered : List (Nat × Response)

namespace ServerImpl

def tagPush (tag : GrpcTag) (a : Addr) (s : ServerImpl) : ServerImpl :=
  { s with listTagIdx := s.listTagIdx ++ [(tag, a)] }

/-- Unlike that of the client, this `tag_pop` leaves the pair in the list. -/
def tagPop (a : Addr) (s : ServerImpl) : Except Fault GrpcTag :=
  match findSnd s.listTagIdx a with
  | none => .error .derefEnd
  | some p => .ok p.1

def tagErase (a : Addr) (s : ServerImpl) : Except Fault ServerImpl :=
  match findSnd s.listTagIdx a with
  | none => .error .derefEnd
  | some _ => .ok { s with listTagIdx := eraseSnd s.listTagIdx a }

/-- `Proceed` on the status `CREATE`: the object registers for a call of its API. -/
def proceedCreate (k : CallClass) (a : Addr) (d : CallData) (s : ServerImpl) : ServerImpl :=
  { s with
    heap := Function.update s.heap a (some { d with status := .process })
    pending := s.pending ++ [.request k.api a] }

def construct (k : CallClass) (a : Addr) (s : ServerImpl) : ServerImpl :=
  let d : CallData := ⟨k.api, .create, none⟩
  { s with heap := Function.update s.heap a (some d) }.proceedCreate k a d

/-- `Proceed` on the status `PROCESS`: the object of the next call is created and pushed, and the reply is sent. -/
def proceedProcess (k : CallClass) (a : Addr) (d : CallData) (fresh : Addr) (s : ServerImpl) :
    Except Fault ServerImpl :=
  let s' := (s.construct k fresh).tagPush k.tag fresh
  match d.ctx with
  | none => .error .emptyContext
  | some ctx => match ip ctx.peer with
    | none => .error .outOfRange
    | some _ => .ok { s' with
        heap := Function.update s'.heap a (some { d with status := .finish })
        pending := s'.pending ++ [.finish a]
        answered := s'.answered ++ [(ctx.call, k.reply)] }

/-- `Proceed` on the status `FINISH`: the object leaves the list and deletes itself. -/
def proceedFinish (a : Addr) (s : ServerImpl) : Except Fault ServerImpl :=
  match s.tagErase a with
  | .error e => .error e
  | .ok s' => .ok { s' with heap := Function.update s'.heap a none }

/-- `Proceed` of the class `k` on the object at `a`; `fresh` is what `new` returns when it is called. -/
def proceed (k : CallClass) (a fresh : Addr) (s : ServerImpl) : Except Fault ServerImpl :=
  match s.heap a with
  | none => .error .useAfterFree
  | some d =>
    if d.api ≠ k.api then .error .badCast
    else if d.status = .create then .ok (s.proceedCreate k a d)
    else if d.status = .process then s.proceedProcess k a d fresh
    else if d.status = .finish then s.proceedFinish a
    else .error .assertFailed

/-- The body of the loop of `HandleRpcs`, on a tag and a flag that `Next` delivered. -/
def onNext (a : Addr) (ok : Bool) (fresh : Addr) (s : ServerImpl) : Except Fault ServerImpl :=
  if ok = false then .error .assertFailed
  else match s.tagPop a with
    | .error e => .error e
    | .ok tag => s.proceed (castClass tag) a fresh

/-- gRPC accepts a call into the object that registered for its API. -/
def accept (api : ServerApi) (a : Addr) (peer : List Char) (s : ServerImpl) : ServerImpl :=
  { s with
    heap := Function.update s.heap a ((s.heap a).map fun d => { d with ctx := some ⟨s.calls.length, peer⟩ })
    pending := s.pending.erase (.request api a)
    calls := s.calls ++ [api] }

def replyDone (a : Addr) (s : ServerImpl) : ServerImpl := { s with pending := s.pending.erase (.finish a) }

def init : ServerImpl := ⟨fun _ => none, [], [], [], []⟩

def register (api : ServerApi) (a : Addr) (s : ServerImpl) : ServerImpl :=
  (s.construct (callClass api) a).tagPush (callClass api).tag a

/-- `HandleRpcs` up to its loop; `new` returns the address `addr api` for the object of an API. -/
def start (addr : ServerApi → Addr) : ServerImpl :=
  (((init.register .allocate (addr .allocate)).register .prepare (addr .prepare)).register .connect
    (addr .connect)).register .release (addr .release)

/-! ### What each operation does -/

theorem register_eq (api : ServerApi) (a : Addr) (s : ServerImpl) :
    s.register api a =
      { s with
        heap := Function.update s.heap a (some ⟨api, .process, none⟩)
        listTagIdx := s.listTagIdx ++ [((callClass api).tag, a)]
        pending := s.pending ++ [.request api a] } := by
  simp [register, construct, proceedCreate, tagPush]

/-- An object in the status `PROCESS` whose call came registers its successor, replies and waits for the reply to be
done. -/
theorem proceed_process {api : ServerApi} {a fresh : Addr} {ctx : ServerContext} {s : ServerImpl}
    (h : s.heap a = some ⟨api, .process, some ctx⟩) :
    s.proceed (callClass api) a fresh = .ok
      { heap := Function.update (Function.update s.heap fresh (some ⟨api, .process, none⟩)) a
          (some ⟨api, .finish, some ctx⟩)
        listTagIdx := s.listTagIdx ++ [((callClass api).tag, fresh)]
        pending := s.pending ++ [.request api fresh] ++ [.finish a]
        calls := s.calls
        answered := s.answered ++ [(ctx.call, (callClass api).reply)] } := by
  obtain ⟨host, hip⟩ := ip_isSome ctx.peer
  have hreg : (s.construct (callClass api) fresh).tagPush (callClass api).tag fresh = s.register api fresh := rfl
  simp [proceed, h, proceedProcess, hreg, register_eq, hip]

theorem proceed_finish {api : ServerApi} {a fresh : Addr} {ctx : Option ServerContext} {tag : GrpcTag}
    {s : ServerImpl} (h : s.heap a = some ⟨api, .finish, ctx⟩) (ht : findSnd s.listTagIdx a = some (tag, a)) :
    s.proceed (callClass api) a fresh = .ok
      { s with heap := Function.update s.heap a none, listTagIdx := eraseSnd s.listTagIdx a } := by
  simp [proceed, h, proceedFinish, tagErase, ht]

/-- The loop body proceeds the object of a listed address as the class of its tag. -/
theorem onNext_true {a fresh : Addr} {tag : GrpcTag} {s : ServerImpl} (ht : findSnd s.listTagIdx a = some (tag, a)) :
    s.onNext a true fresh = s.proceed (castClass tag) a fresh := by
  simp [onNext, tagPop, ht]

/-- No `Proceed` throws at the peer of its call, whatever the text of the peer. -/
theorem proceed_ne_outOfRange (k : CallClass) (a fresh : Addr) (s : ServerImpl) :
    s.proceed k a fresh ≠ .error .outOfRange := by
  have hprocess : ∀ d, s.proceedProcess k a d fresh ≠ .error .outOfRange := by
    intro d
    unfold proceedProcess
    cases hctx : d.ctx with
    | none => simp
    | some ctx =>
      obtain ⟨host, hip⟩ := ip_isSome ctx.peer
      simp [hip]
  have hfinish : s.proceedFinish a ≠ .error .outOfRange := by
    unfold proceedFinish tagErase
    cases findSnd s.listTagIdx a <;> simp
  unfold proceed
  cases s.heap a with
  | none => simp
  | some d =>
    simp only
    split_ifs
    · simp
    · simp
    · exact hprocess d
    · exact hfinish
    · simp

end ServerImpl

/-- The address of the peer is cut out without an exception.  It is the text between the first colon and the last,
with one colon what stands behind it, and without a colon the whole text. -/
theorem peerAddress_exact :
    (∀ (k : CallClass) (a fresh : Addr) (s : ServerImpl), s.proceed k a fresh ≠ .error .outOfRange) ∧
      ∀ uri : StdString,
        (findFirstOf uri.chars ':' + 1).toNat ≤ uri.chars.length ∧
        (':' ∉ uri.chars → ip uri.chars = some uri.chars) ∧
        (∀ scheme rest, uri.chars = scheme ++ ':' :: rest → ':' ∉ scheme → ':' ∉ rest → ip uri.chars = some rest) ∧
        ∀ scheme host port, uri.chars = scheme ++ ':' :: (host ++ ':' :: port) → ':' ∉ scheme → ':' ∉ port →
          ip uri.chars = some host :=
  ⟨ServerImpl.proceed_ne_outOfRange, fun uri => ⟨findFirstOf_add_one_le uri.chars ':', ip_noColon uri,
    fun _ _ => ip_oneColon uri, fun _ _ _ => ip_host uri⟩⟩

end Cloudein.Server
