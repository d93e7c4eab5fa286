import Cloudein.Session.Common
import Cloudein.Lib.Run
import Mathlib.Logic.Function.Basic

/-!
# Session contexts

Any number of `CloudeinSessionContext` objects.  A context holds the state object of the last `setState` and the gRPC
client of `set_TS_gRPC`; the session info it was constructed with is stored in `CloudeinState::info_`, a static member
that all state objects of all contexts share.  So a context sends the region of the context constructed last, and the
contexts are isolated exactly when all of them are constructed with one region.
-/

namespace Cloudein

open Runs

inductive ContextFault where
  | nullState
  | nullClient
deriving DecidableEq, Repr

structure SessionContext where
  /-- The session info the context was constructed with; nothing reads it. -/
  own : SessionInfo
  /-- The API of the state object, null before the first `setState`. -/
  state : Option Api
  client : Bool

structure Sessions where
  /-- The static `CloudeinState::info_`. -/
  info : SessionInfo
  contexts : Nat → Option SessionContext
  /-- The requests sent, each with its context. -/
  sent : List (Nat × Rpc)

namespace Sessions

def init : Sessions := ⟨.default, fun _ => none, []⟩

/-- `CloudeinSessionContext(info)`: `state_` is null, and `state_->info_` is the static member. -/
def construct (c : Nat) (info : SessionInfo) (s : Sessions) : Sessions :=
  { s with
    info := info
    contexts := Function.update s.contexts c (some ⟨info, none, false⟩) }

def setTsGrpc (c : Nat) (s : Sessions) : Sessions :=
  { s with contexts := Function.update s.contexts c ((s.contexts c).map fun ctx => { ctx with client := true }) }

def setState (c : Nat) (api : Api) (s : Sessions) : Sessions :=
  { s with contexts := Function.update s.contexts c ((s.contexts c).map fun ctx => { ctx with state := some api }) }

/-- The request that `handle` of the state object of an API sends: that of the `Do*` function of the API on
`this->info_`, whichever context calls it. -/
def handle (api : Api) (now : Int) (s : Sessions) : Rpc := (doFn api).rpc s.info (now + 5000)

def request (c : Nat) (now : Int) (s : Sessions) : Except ContextFault Sessions :=
  match s.contexts c with
  | none => .error .nullState
  | some ctx => match ctx.state with
    | none => .error .nullState
    | some api => if ctx.client then .ok { s with sent := s.sent ++ [(c, s.handle api now)] } else .error .nullClient

/-- What context `c` sends once it is connected and in the state of an API. -/
def sends (c : Nat) (api : Api) (now : Int) (s : Sessions) : Except ContextFault (List (Nat × Rpc)) :=
  match ((s.setTsGrpc c).setState c api).request c now with
  | .error e => .error e
  | .ok s' => .ok (s'.sent.drop s.sent.length)

end Sessions

inductive SessionEvent where
  | construct (c : Nat) (info : SessionInfo)
  | setTsGrpc (c : Nat)
  | setState (c : Nat) (api : Api)
  | request (c : Nat) (now : Int)

def SessionEvent.context : SessionEvent → Nat
  | construct c _ => c
  | setTsGrpc c => c
  | setState c _ => c
  | request c _ => c

/-- A context is constructed once, before anything else is done with it. -/
def sessionSystem : System Sessions SessionEvent ContextFault where
  enabled s
    | .construct c _ => s.contexts c = none
    | .setTsGrpc c => (s.contexts c).isSome
    | .setState c _ => (s.contexts c).isSome
    | .request c _ => (s.contexts c).isSome
  step s
    | .construct c info => .ok (s.construct c info)
    | .setTsGrpc c => .ok (s.setTsGrpc c)
    | .setState c api => .ok (s.setState c api)
    | .request c now => s.request c now

instance (s : Sessions) : ∀ e, Decidable (sessionSystem.enabled s e)
  | .construct c _ => inferInstanceAs (Decidable (s.contexts c = none))
  | .setTsGrpc c => inferInstanceAs (Decidable ((s.contexts c).isSome = true))
  | .setState c _ => inferInstanceAs (Decidable ((s.contexts c).isSome = true))
  | .request c _ => inferInstanceAs (Decidable ((s.contexts c).isSome = true))

/-! ### Isolation -/

private theorem CloudeinRegion.toString_val_inj {r r' : CloudeinRegion} (h : toString r.val = toString r'.val) :
    r = r' := by
  cases r <;> cases r' <;> first | rfl | exact absurd h (by decide)

namespace Sessions

private theorem sends_eq {s : Sessions} {c : Nat} (hc : (s.contexts c).isSome) (api : Api) (now : Int) :
    s.sends c api now = .ok [(c, s.handle api now)] := by
  obtain ⟨ctx, hctx⟩ := Option.isSome_iff_exists.1 hc
  have hset : ((s.setTsGrpc c).setState c api).contexts c = some { ctx with client := true, state := some api } := by
    simp [setTsGrpc, setState, hctx]
  simp only [sends, request, hset, if_true]
  exact congrArg Except.ok List.drop_left

private theorem handle_congr {s s' : Sessions} (h : s'.info.region = s.info.region) (api : Api) (now : Int) :
    s'.handle api now = s.handle api now := by
  simp only [handle, DoFn.rpc, h]

private theorem request_ok {s s' : Sessions} {c : Nat} {now : Int} (h : s.request c now = .ok s') :
    ∃ ctx api, s.contexts c = some ctx ∧ s' = { s with sent := s.sent ++ [(c, s.handle api now)] } := by
  unfold request at h
  split at h
  · cases h
  · rename_i ctx hctx
    split at h
    · cases h
    · rename_i api hapi
      split at h
      · exact ⟨ctx, api, hctx, (Except.ok.inj h).symm⟩
      · cases h

end Sessions

/-- A request sent on the event carries the region its context was constructed with, and the event does not change
what the other contexts send. -/
def Isolated (s : Sessions) (e : SessionEvent) : Prop :=
  ∀ s', sessionSystem.step s e = .ok s' →
    (∀ c rpc, s'.sent = s.sent ++ [(c, rpc)] →
      ∃ ctx, s.contexts c = some ctx ∧ rpc.region = toString ctx.own.region.val) ∧
    ∀ d, d ≠ e.context → (s.contexts d).isSome → ∀ api now, s'.sends d api now = s.sends d api now

/-- A new context is constructed with the region of the contexts there are. -/
def SameRegion (s : Sessions) : SessionEvent → Prop
  | .construct _ info => ∀ d ctx, s.contexts d = some ctx → ctx.own.region = info.region
  | _ => True

/-- Every context was constructed with the region of the static session info. -/
def Sessions.Uniform (s : Sessions) : Prop := ∀ d ctx, s.contexts d = some ctx → ctx.own.region = s.info.region

namespace Sessions.Uniform

variable {s : Sessions}

private theorem map_context (h : s.Uniform) (c : Nat) {f : SessionContext → SessionContext}
    (hf : ∀ ctx, (f ctx).own = ctx.own) :
    { s with contexts := Function.update s.contexts c ((s.contexts c).map f) : Sessions }.Uniform := by
  intro d ctx hd
  by_cases hdc : d = c
  · subst hdc
    obtain ⟨ctx', hctx', rfl⟩ := Option.map_eq_some_iff.1 (by simpa using hd)
    rw [hf]
    exact h d ctx' hctx'
  · exact h d ctx (by simpa [hdc] using hd)

theorem step (h : s.Uniform) {e : SessionEvent} (hsame : SameRegion s e) {s' : Sessions}
    (hs : sessionSystem.step s e = .ok s') : s'.Uniform := by
  cases e with
  | construct c info =>
    cases hs
    intro d ctx hd
    by_cases hdc : d = c
    · subst hdc
      obtain rfl : _ = ctx := by simpa [construct] using hd
      rfl
    · exact hsame d ctx (by simpa [construct, hdc] using hd)
  | setTsGrpc c =>
    cases hs
    exact h.map_context c fun _ => rfl
  | setState c api =>
    cases hs
    exact h.map_context c fun _ => rfl
  | request c now =>
    obtain ⟨_, _, _, rfl⟩ := request_ok hs
    exact h

/-- An event that leaves the session info and the other contexts alone, and sends nothing, isolates. -/
theorem isolated_of_silent {e : SessionEvent}
    (hs : ∀ s', sessionSystem.step s e = .ok s' → s'.sent = s.sent ∧ s'.info.region = s.info.region ∧
      ∀ d, d ≠ e.context → s'.contexts d = s.contexts d) : Isolated s e := by
  intro s' hs'
  obtain ⟨hsent, hinfo, hctx⟩ := hs s' hs'
  refine ⟨fun c rpc hrpc => ?_, fun d hd hsome api now => ?_⟩
  · rw [hsent] at hrpc
    have := congrArg List.length hrpc
    simp at this
  · rw [sends_eq hsome, sends_eq (by rw [hctx d hd]; exact hsome), handle_congr hinfo]

theorem isolated_iff (h : s.Uniform) {e : SessionEvent} (he : sessionSystem.enabled s e) :
    Isolated s e ↔ SameRegion s e := by
  cases e with
  | construct c info =>
    constructor
    · intro hiso d ctx hd
      have hdc : d ≠ c := by
        rintro rfl
        rw [show s.contexts d = none from he] at hd
        cases hd
      have hsome : (s.contexts d).isSome := by rw [hd]; rfl
      -- Any request shows the region, so what `d` sends for `Allocate` is enough.
      have hsends := (hiso _ rfl).2 d hdc hsome .allocate 0
      have hsome' : ((s.construct c info).contexts d).isSome := by simpa [construct, hdc] using hsome
      rw [sends_eq hsome, sends_eq hsome'] at hsends
      have hregion : toString info.region.val = toString s.info.region.val := by
        simpa [handle, DoFn.rpc, construct] using hsends
      rw [h d ctx hd, CloudeinRegion.toString_val_inj hregion]
    · intro hsame s' hs'
      cases hs'
      refine ⟨fun d rpc hrpc => ?_, fun d hdc hsome api now => ?_⟩
      · have := congrArg List.length hrpc
        simp [construct] at this
      · have hdc : d ≠ c := hdc
        obtain ⟨ctx, hctx⟩ := Option.isSome_iff_exists.1 hsome
        rw [sends_eq hsome, sends_eq (by simpa [construct, hdc] using hsome)]
        rw [handle_congr (s := s) (by rw [← h d ctx hctx, hsame d ctx hctx]; rfl)]
  | setTsGrpc c =>
    refine iff_of_true (isolated_of_silent fun s' hs' => ?_) trivial
    cases hs'
    exact ⟨rfl, rfl, fun d hd => Function.update_of_ne hd _ _⟩
  | setState c api =>
    refine iff_of_true (isolated_of_silent fun s' hs' => ?_) trivial
    cases hs'
    exact ⟨rfl, rfl, fun d hd => Function.update_of_ne hd _ _⟩
  | request c now =>
    refine iff_of_true (fun s' hs' => ?_) trivial
    obtain ⟨ctx, api, hctx, rfl⟩ := request_ok hs'
    refine ⟨fun d rpc hrpc => ?_, fun d _ hsome api' now' => ?_⟩
    · have heq := List.append_cancel_left hrpc
      simp only [List.cons.injEq, Prod.mk.injEq, and_true] at heq
      obtain ⟨rfl, rfl⟩ := heq
      exact ⟨ctx, hctx, by rw [h c ctx hctx]; rfl⟩
    · rw [sends_eq hsome, sends_eq (by exact hsome)]
      rfl

end Sessions.Uniform

/-- In every run, every request carries the region of its own context and no event changes what the other contexts
send, exactly when every context is constructed with the region of those constructed before it. -/
theorem isolated_run_iff {es : List SessionEvent} (h : sessionSystem.Allowed .init es) :
    sessionSystem.Along Isolated .init es ↔ sessionSystem.Along SameRegion .init es :=
  System.along_congr (I := Sessions.Uniform) (fun _ _ hd => by cases hd) (fun _ _ hu he => hu.isolated_iff he)
    (fun _ _ _ hu _ hsame hs => hu.step hsame hs) h

def draftThenProduct : List SessionEvent :=
  [.construct 0 (.of .seoulDraft "WSL"), .setTsGrpc 0, .setState 0 .allocate, .construct 1 (.of .seoulProduct "WSL")]

/-- The first context then sends the region of the second. -/
theorem second_context_overwrites :
    ¬ ∀ es, sessionSystem.Allowed .init es → sessionSystem.Along Isolated .init es := by
  intro h
  have hiso := (h (draftThenProduct ++ [.request 0 0]) (by decide)).at (p := draftThenProduct) (q := []) rfl
  obtain ⟨ctx, hctx, hregion⟩ := (hiso _ rfl).1 0 _ rfl
  cases hctx
  exact absurd hregion (by decide)

def twoContextRun : List SessionEvent :=
  [.construct 0 (.of .seoulDraft "WSL"), .setTsGrpc 0, .construct 1 (.of .seoulDraft "TX"), .setState 0 .allocate,
    .setTsGrpc 1, .setState 1 .release, .request 0 0, .request 1 3]

theorem isolated_twoContexts :
    sessionSystem.Along Isolated .init twoContextRun ↔ sessionSystem.Along SameRegion .init twoContextRun :=
  isolated_run_iff (by decide)

end Cloudein
