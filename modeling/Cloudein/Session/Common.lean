import Mathlib.Data.List.Basic

/-!
# What the session client shares

The enumerations and structures of `Cloudein_Session_Common.h`, the requests of the ten client APIs and the
constants by which the ten `Do*` functions of `CloudeinSessionClient` differ.  Console output is left out.
-/

namespace Cloudein

/-- An address returned by `new`. -/
abbrev Addr := Nat

inductive CloudeinRegion where
  | seoulProduct
  | seoulDevelope
  | seoulDraft
deriving DecidableEq, Repr

/-- The value of the enumerator, as `std::to_string` sees it. -/
def CloudeinRegion.val : CloudeinRegion → Nat
  | seoulProduct => 0
  | seoulDevelope => 1
  | seoulDraft => 2

structure SessionInfo where
  region : CloudeinRegion
  txName : String
  allocatePort1 : UInt32
  allocatePort2 : UInt32
  allocatePort3 : UInt32
  allocatePort4 : UInt32
  allocatePort5 : UInt32
deriving DecidableEq, Repr

/-- `SessionInfo(reg, name)`. -/
def SessionInfo.of (reg : CloudeinRegion) (name : String) : SessionInfo :=
  ⟨reg, name, 0, 0, 0, 0, 0⟩

/-- `SessionInfo()`. -/
def SessionInfo.default : SessionInfo := .of .seoulDevelope "SEOUL_DEV_TX"

inductive CloudeinGrpcTag where
  | doAllocateApi
  | doPrepareApi
  | doConnectApi
  | doReleaseApi
  | doDisconnectApi
  | doTimeoutApi
  | doPrepareFailApi
  | doConnectFailApi
  | doRebootFailApi
  | doAuthFailApi
deriving DecidableEq, Repr

/-- The ten APIs of the `CloudeinSession` service.  Each has its own method of the stub, its own `Do*` function,
its own struct `AsyncClientCall_Do*` and its own state class. -/
inductive Api where
  | allocate
  | prepare
  | connect
  | release
  | disconnect
  | timeout
  | prepareFail
  | connectFail
  | rebootFail
  | authFail
deriving DecidableEq, Repr

/-- A request as it is handed to the stub: the method called, the two fields every request message has and the
deadline set on the context, in milliseconds. -/
structure Rpc where
  method : Api
  region : String
  txName : String
  deadline : Int
deriving DecidableEq, Repr

/-- What a `Do*` function fixes: the API whose struct it allocates and whose method it calls, the transmitter name
in the request and the tag it pushes. -/
structure DoFn where
  api : Api
  txName : String
  tag : CloudeinGrpcTag
deriving DecidableEq, Repr

def doAllocate : DoFn := ⟨.allocate, "tx-DoAllocate", .doAllocateApi⟩
def doPrepare : DoFn := ⟨.prepare, "tx-DoPrepare", .doPrepareApi⟩
def doConnect : DoFn := ⟨.connect, "tx-DoConnect", .doConnectApi⟩
def doRelease : DoFn := ⟨.release, "tx-DoRelease", .doReleaseApi⟩
def doDisconnect : DoFn := ⟨.disconnect, "tx-DoDisconnect", .doDisconnectApi⟩
def doTimeout : DoFn := ⟨.timeout, "tx-DoTimeout", .doTimeoutApi⟩
def doPrepareFail : DoFn := ⟨.prepareFail, "tx-DoPrepareFail", .doPrepareFailApi⟩
-- The last three functions push the tag of `DoPrepareFail` (lines 138, 155 and 172 of the source).
def doConnectFail : DoFn := ⟨.connectFail, "tx-DoConnectFail", .doPrepareFailApi⟩
def doRebootFail : DoFn := ⟨.rebootFail, "tx-DoRebootFail", .doPrepareFailApi⟩
def doAuthFail : DoFn := ⟨.authFail, "tx-DoAuthFail", .doPrepareFailApi⟩

def doFn : Api → DoFn
  | .allocate => doAllocate
  | .prepare => doPrepare
  | .connect => doConnect
  | .release => doRelease
  | .disconnect => doDisconnect
  | .timeout => doTimeout
  | .prepareFail => doPrepareFail
  | .connectFail => doConnectFail
  | .rebootFail => doRebootFail
  | .authFail => doAuthFail

/-- The request a `Do*` function builds from the session info, sent with the deadline of the call. -/
def DoFn.rpc (f : DoFn) (info : SessionInfo) (deadline : Int) : Rpc :=
  ⟨f.api, toString info.region.val, f.txName, deadline⟩

@[simp] theorem doFn_api (api : Api) : (doFn api).api = api := by cases api <;> rfl

/-- The case of the `switch` in `StartAsyncCompleteRpc` that a tag selects: the struct the address is cast to, read
and deleted as. -/
def completionCase : CloudeinGrpcTag → Api
  | .doAllocateApi => .allocate
  | .doPrepareApi => .prepare
  | .doConnectApi => .connect
  | .doReleaseApi => .release
  | .doDisconnectApi => .disconnect
  | .doTimeoutApi => .timeout
  | .doPrepareFailApi => .prepareFail
  | .doConnectFailApi => .connectFail
  | .doRebootFailApi => .rebootFail
  | .doAuthFailApi => .authFail

/-- The APIs whose `Do*` function pushes the tag of another API. -/
def Api.mistagged : Api → Bool
  | .connectFail | .rebootFail | .authFail => true
  | _ => false

/-- The tag a `Do*` function pushes selects its own case, except for those three. -/
theorem completionCase_eq_iff (api : Api) :
    completionCase (doFn api).tag = api ↔ api.mistagged = false := by
  cases api <;> decide

end Cloudein
