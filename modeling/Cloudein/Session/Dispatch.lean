import Cloudein.Session.Client
import Cloudein.Lib.Run

/-!
# Which case a completed call enters

Runs of whole `Do*` calls and whole iterations of the completion loop, in any order.  Between two events the list
`list_tag_idx_` holds exactly the live calls, each with the tag its `Do*` function pushed (`Sync`).  So a completed
call enters the case of that tag, which is the case of its own API unless the call was made by `DoConnectFail`,
`DoRebootFail` or `DoAuthFail`.
-/

namespace Cloudein

open PairList Runs

inductive ClientEvent where
  /-- A call of the `Do*` function of an API; `new` returns `a`. -/
  | call (api : Api) (info : SessionInfo) (now : Int) (a : Addr)
  | deliver (a : Addr)

/-- `new` returns no live address, and `Next` delivers each tag once. -/
def clientSystem : System Client ClientEvent Fault where
  enabled c
    | .call _ _ _ a => c.heap a = none
    | .deliver a => a ∈ c.outstanding
  step c
    | .call api info now a => c.doCall (doFn api) info now a
    | .deliver a => c.onNext a

instance (c : Client) : ∀ e, Decidable (clientSystem.enabled c e)
  | .call _ _ _ a => inferInstanceAs (Decidable (c.heap a = none))
  | .deliver a => inferInstanceAs (Decidable (a ∈ c.outstanding))

/-- The tag the list holds for an address: that of the `Do*` function that allocated the call living there. -/
def Client.tagAt (c : Client) (a : Addr) : Option CloudeinGrpcTag := (c.heap a).map fun call => (doFn call.api).tag

/-- Between two events every live call is outstanding and listed with its tag. -/
structure Client.Sync (c : Client) : Prop where
  tags : Represents c.listTagIdx c.tagAt
  nodup : c.outstanding.Nodup
  live : ∀ a, a ∈ c.outstanding ↔ c.heap a ≠ none

namespace Client

theorem sync_init : init.Sync :=
  ⟨represents_nil.congr fun _ => rfl, List.nodup_nil, fun a => by simp [init]⟩

theorem Sync.call {c : Client} (h : c.Sync) {a : Addr} (ha : c.heap a = none) (api : Api) (info : SessionInfo)
    (now : Int) : ∃ c', c.doCall (doFn api) info now a = .ok c' ∧ c'.Sync := by
  refine ⟨_, doCall_eq .., h.tags.push_map ha (by rw [doFn_api]),
    KeyedList.nodup_push h.nodup fun hm => (h.live a).1 hm ha, fun k => ?_⟩
  rw [List.mem_append, h.live, List.mem_singleton]
  by_cases hk : k = a
  · subst hk
    simp
  · simp [hk]

theorem Sync.delivered {c : Client} (h : c.Sync) {a : Addr} (ha : a ∈ c.outstanding) :
    ∃ call, c.heap a = some call ∧ findSnd c.listTagIdx a = some ((doFn call.api).tag, a) := by
  obtain ⟨call, hc⟩ := Option.ne_none_iff_exists'.1 ((h.live a).1 ha)
  exact ⟨call, hc, h.tags.find (by simp [tagAt, hc])⟩

theorem Sync.deliver {c : Client} (h : c.Sync) {a : Addr} (ha : a ∈ c.outstanding) :
    ∃ c', c.onNext a = .ok c' ∧ c'.Sync := by
  obtain ⟨call, hc, hf⟩ := h.delivered ha
  refine ⟨_, onNext_ok hf hc, h.tags.erase_map a, h.nodup.erase a, fun k => ?_⟩
  rw [h.nodup.mem_erase_iff, h.live]
  by_cases hk : k = a
  · subst hk
    simp
  · simp [hk]

theorem Sync.step {c : Client} (h : c.Sync) {e : ClientEvent} (he : clientSystem.enabled c e) :
    ∃ c', clientSystem.step c e = .ok c' ∧ c'.Sync := by
  cases e with
  | call api info now a => exact h.call he api info now
  | deliver a => exact h.deliver he

end Client

theorem clientSystem_safe {es : List ClientEvent} (h : clientSystem.Allowed .init es) :
    ∃ c, clientSystem.exec .init es = .ok c ∧ c.Sync :=
  System.exec_safe Client.sync_init (fun _ _ hs he => hs.step he) h

/-- A delivered address is that of a live call, and the tag popped for it selects the case of the API whose struct
was allocated there. -/
def EntersOwnCase (c : Client) : ClientEvent → Prop
  | .deliver a => ∃ call tag c', c.heap a = some call ∧ (c.next a).tagPop a = .ok (tag, c') ∧
      completionCase tag = call.api
  | .call .. => True

/-- The call at a delivered address was not allocated by `DoConnectFail`, `DoRebootFail` or `DoAuthFail`. -/
def NotMistagged (c : Client) : ClientEvent → Prop
  | .deliver a => ∀ call, c.heap a = some call → call.api.mistagged = false
  | .call .. => True

theorem Client.Sync.entersOwnCase_iff {c : Client} (h : c.Sync) {e : ClientEvent}
    (he : clientSystem.enabled c e) :
    EntersOwnCase c e ↔ NotMistagged c e := by
  cases e with
  | call api info now a => exact Iff.rfl
  | deliver a =>
    obtain ⟨call, hcall, hf⟩ := h.delivered he
    have htag := Client.tagPop_ok (c := c.next a) hf
    simp only [EntersOwnCase, NotMistagged, hcall, htag, Option.some.injEq, forall_eq', Except.ok.injEq,
      Prod.mk.injEq]
    rw [← completionCase_eq_iff]
    constructor
    · rintro ⟨_, _, _, rfl, ⟨rfl, -⟩, hcase⟩
      exact hcase
    · exact fun hcase => ⟨call, _, _, rfl, ⟨rfl, rfl⟩, hcase⟩

/-- Every run of `Do*` calls and deliveries succeeds, and each delivered call enters the case of its own API exactly
when no delivered call was made by one of the three functions that push the tag of `DoPrepareFail`. -/
theorem entersOwnCase_run_iff {es : List ClientEvent} (h : clientSystem.Allowed .init es) :
    (∃ c, clientSystem.exec .init es = .ok c) ∧
      (clientSystem.Along EntersOwnCase .init es ↔ clientSystem.Along NotMistagged .init es) := by
  obtain ⟨c, hc, _⟩ := clientSystem_safe h
  refine ⟨⟨c, hc⟩, System.along_congr Client.sync_init (fun _ _ hs he => hs.entersOwnCase_iff he)
    (fun u e t hu he _ ht => ?_) h⟩
  obtain ⟨t', ht', hs⟩ := hu.step he
  rw [ht, Except.ok.injEq] at ht'
  exact ht' ▸ hs

def connectFailRun : List ClientEvent := [.call .connectFail .default 0 16, .deliver 16]

/-- The call of `DoConnectFail` enters the case of `DoPrepareFail`. -/
theorem connectFail_enters_prepareFail :
    ¬ ∀ es, clientSystem.Allowed .init es → clientSystem.Along EntersOwnCase .init es := by
  intro h
  obtain ⟨call, tag, c', hcall, htag, hcase⟩ :=
    (h connectFailRun (by decide)).at (p := [ClientEvent.call .connectFail .default 0 16]) (q := []) rfl
  cases hcall
  cases htag
  cases hcase

def outOfOrderRun : List ClientEvent :=
  [.call .allocate .default 0 16, .call .release .default 5 32, .deliver 32, .deliver 16]

theorem entersOwnCase_outOfOrder :
    (∃ c, clientSystem.exec .init outOfOrderRun = .ok c) ∧
      (clientSystem.Along EntersOwnCase .init outOfOrderRun ↔ clientSystem.Along NotMistagged .init outOfOrderRun) :=
  entersOwnCase_run_iff (by decide)

end Cloudein
