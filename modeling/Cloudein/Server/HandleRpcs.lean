import Cloudein.Server.CallData
import Cloudein.Lib.Run

/-!
# The loop of `HandleRpcs`

Runs of the loop over the calls gRPC accepts and the replies it is done with, in any order.  As long as every event
is delivered with `ok` true, no step fails and `LoopInv` holds after every iteration: each API has one object that
waits for the next call, every other object waits for its reply to be done, and `list_tag_idx_` lists the live objects
under their classes.  The first event with `ok` false, such as the reply to a client that has given up, stops the
server at `GPR_ASSERT(ok)`.
-/

namespace Cloudein.Server

open PairList Runs

inductive ServerEvent where
  /-- A call of the API is accepted into the object at `a`; `new` returns `fresh` when it is called next. -/
  | incoming (api : ServerApi) (a : Addr) (peer : List Char) (fresh : Addr)
  | finished (a : Addr) (ok : Bool) (fresh : Addr)
deriving DecidableEq, Repr

/-- gRPC delivers what is registered, each registration once, and `new` returns no live address.  A request fails only
at the shutdown of the server, which `HandleRpcs` does not reach. -/
def serverSystem : System ServerImpl ServerEvent Fault where
  enabled s
    | .incoming api a _ fresh => .request api a ∈ s.pending ∧ s.heap fresh = none
    | .finished a _ fresh => .finish a ∈ s.pending ∧ s.heap fresh = none
  step s
    | .incoming api a peer fresh => (s.accept api a peer).onNext a true fresh
    | .finished a ok fresh => (s.replyDone a).onNext a ok fresh

instance (s : ServerImpl) : ∀ e, Decidable (serverSystem.enabled s e)
  | .incoming api a _ fresh => inferInstanceAs (Decidable (.request api a ∈ s.pending ∧ s.heap fresh = none))
  | .finished a _ fresh => inferInstanceAs (Decidable (.finish a ∈ s.pending ∧ s.heap fresh = none))

def ServerEvent.Ok : ServerEvent → Prop
  | incoming .. => True
  | finished _ ok _ => ok = true

instance : ∀ e, Decidable (ServerEvent.Ok e)
  | .incoming .. => .isTrue trivial
  | .finished _ ok _ => inferInstanceAs (Decidable (ok = true))

/-- The tag the list holds for an address: that of the class of the object living there. -/
def ServerImpl.tagAt (s : ServerImpl) (a : Addr) : Option GrpcTag := (s.heap a).map fun d => (callClass d.api).tag

/-- The list, the objects and the registrations agree, and every accepted call was answered. -/
structure ServerImpl.Agrees (s : ServerImpl) : Prop where
  tags : Represents s.listTagIdx s.tagAt
  nodup : s.pending.Nodup
  request : ∀ api a, .request api a ∈ s.pending ↔ ∃ ctx, s.heap a = some ⟨api, .process, ctx⟩
  finish : ∀ a, .finish a ∈ s.pending ↔ ∃ api ctx, s.heap a = some ⟨api, .finish, ctx⟩
  status : ∀ a d, s.heap a = some d → d.status ≠ .create
  answered : s.answered = s.calls.zipIdx.map fun p => (p.2, (callClass p.1).reply)

/-- Every API has exactly one registration for its next call. -/
def ServerImpl.Accepting (s : ServerImpl) : Prop := ∀ api, ∃! a, .request api a ∈ s.pending

namespace ServerImpl

/-- The object at `a` has replied to a call of its API. -/
def replied (api : ServerApi) (a : Addr) (peer : List Char) (s : ServerImpl) : ServerImpl where
  heap := Function.update s.heap a (some ⟨api, .finish, some ⟨s.calls.length, peer⟩⟩)
  listTagIdx := s.listTagIdx
  pending := s.pending.erase (.request api a) ++ [.finish a]
  calls := s.calls ++ [api]
  answered := s.answered ++ [(s.calls.length, (callClass api).reply)]

/-- The object at `a` has deleted itself. -/
def removed (a : Addr) (s : ServerImpl) : ServerImpl :=
  { s with
    heap := Function.update s.heap a none
    listTagIdx := eraseSnd s.listTagIdx a
    pending := s.pending.erase (.finish a) }

private theorem agrees_init : init.Agrees :=
  ⟨represents_nil.congr fun _ => rfl, List.nodup_nil, by simp [init], by simp [init], by simp [init], rfl⟩

namespace Agrees

variable {s : ServerImpl} (h : s.Agrees)

include h

theorem find {a : Addr} {d : CallData} (ha : s.heap a = some d) :
    findSnd s.listTagIdx a = some ((callClass d.api).tag, a) :=
  h.tags.find (by simp [tagAt, ha])

private theorem request_not_mem {a : Addr} (ha : s.heap a = none) (api : ServerApi) : .request api a ∉ s.pending := by
  rw [h.request]
  simp [ha]

theorem register {a : Addr} (ha : s.heap a = none) (api : ServerApi) : (s.register api a).Agrees := by
  have hreq := h.request_not_mem ha
  rw [register_eq]
  refine ⟨h.tags.push_map ha rfl, KeyedList.nodup_push h.nodup (hreq api), fun api' b => ?_, fun b => ?_,
    fun b d hb => ?_, h.answered⟩
  · have hmem := h.request api' b
    by_cases hba : b = a
    · subst hba
      simp [hreq, eq_comm]
    · simp [hba, hmem]
  · have hmem := h.finish b
    by_cases hba : b = a
    · subst hba
      simp [hmem, ha]
    · simp [hba, hmem]
  · by_cases hba : b = a
    · subst hba
      obtain rfl : _ = d := by simpa using hb
      simp
    · exact h.status b d (by simpa [hba] using hb)

theorem replied {a : Addr} {api : ServerApi} {ctx : Option ServerContext}
    (ha : s.heap a = some ⟨api, .process, ctx⟩) (peer : List Char) : (s.replied api a peer).Agrees := by
  have hfin : .finish a ∉ s.pending := by
    rw [h.finish]
    simp [ha]
  unfold ServerImpl.replied
  refine ⟨h.tags.same_map ha rfl, ?_, fun api' b => ?_, fun b => ?_, fun b d hb => ?_, ?_⟩
  · exact KeyedList.nodup_push (h.nodup.erase _) fun hm => hfin (List.mem_of_mem_erase hm)
  · have hmem := h.request api' b
    rw [List.mem_append, h.nodup.mem_erase_iff, hmem]
    by_cases hba : b = a
    · subst hba
      simp [ha, eq_comm]
    · simp [hba]
  · have hmem := h.finish b
    rw [List.mem_append, h.nodup.mem_erase_iff, hmem]
    by_cases hba : b = a
    · subst hba
      simp
    · simp [hba]
  · by_cases hba : b = a
    · subst hba
      obtain rfl : _ = d := by simpa using hb
      simp
    · exact h.status b d (by simpa [hba] using hb)
  · rw [h.answered, List.zipIdx_append, List.map_append]
    simp

theorem removed {a : Addr} {api : ServerApi} {ctx : Option ServerContext}
    (ha : s.heap a = some ⟨api, .finish, ctx⟩) : (s.removed a).Agrees := by
  unfold ServerImpl.removed
  refine ⟨h.tags.erase_map a, h.nodup.erase _, fun api' b => ?_, fun b => ?_, fun b d hb => ?_, h.answered⟩
  · have hmem := h.request api' b
    rw [h.nodup.mem_erase_iff, hmem]
    by_cases hba : b = a
    · subst hba
      simp [ha]
    · simp [hba]
  · have hmem := h.finish b
    rw [h.nodup.mem_erase_iff, hmem]
    by_cases hba : b = a
    · subst hba
      simp
    · simp [hba]
  · have hba : b ≠ a := by
      rintro rfl
      simp at hb
    exact h.status b d (by simpa [hba] using hb)

end Agrees

theorem incoming_ok {s : ServerImpl} (h : s.Agrees) {api : ServerApi} {a fresh : Addr} {ctx : Option ServerContext}
    (ha : s.heap a = some ⟨api, .process, ctx⟩) (hfresh : s.heap fresh = none) (peer : List Char) :
    serverSystem.step s (.incoming api a peer fresh) = .ok ((s.register api fresh).replied api a peer) := by
  have hne : a ≠ fresh := by
    rintro rfl
    rw [hfresh] at ha
    cases ha
  have hmem : .request api a ∈ s.pending := (h.request api a).2 ⟨ctx, ha⟩
  have hacc : (s.accept api a peer).heap a = some ⟨api, .process, some ⟨s.calls.length, peer⟩⟩ := by
    simp [accept, ha]
  have hfind : findSnd (s.accept api a peer).listTagIdx a = some ((callClass api).tag, a) := h.find ha
  have hnext : (s.accept api a peer).onNext a true fresh = (s.accept api a peer).proceed (callClass api) a fresh := by
    rw [onNext_true hfind, castClass_tag]
  have herase : (s.pending ++ [Registration.request api fresh]).erase (.request api a) =
      s.pending.erase (.request api a) ++ [.request api fresh] := List.erase_append_left _ hmem
  -- `accept` writes the context that the reply overwrites together with the status.
  have hheap : ∀ x y z, Function.update (Function.update (Function.update s.heap a x) fresh y) a z =
      Function.update (Function.update s.heap fresh y) a z := by
    intro x y z
    rw [Function.update_comm hne, Function.update_idem]
  simp only [serverSystem, hnext, proceed_process hacc, register_eq, replied, herase]
  simp only [accept, hheap]

theorem finished_ok {s : ServerImpl} (h : s.Agrees) {api : ServerApi} {a : Addr} {ctx : Option ServerContext}
    (ha : s.heap a = some ⟨api, .finish, ctx⟩) (fresh : Addr) :
    serverSystem.step s (.finished a true fresh) = .ok (s.removed a) := by
  have hfind : findSnd (s.replyDone a).listTagIdx a = some ((callClass api).tag, a) := h.find ha
  have hnext : (s.replyDone a).onNext a true fresh = (s.replyDone a).proceed (callClass api) a fresh := by
    rw [onNext_true hfind, castClass_tag]
  have hdone : (s.replyDone a).heap a = some ⟨api, .finish, ctx⟩ := ha
  simp only [serverSystem, hnext, proceed_finish hdone hfind]
  rfl

theorem Accepting.incoming {s : ServerImpl} (hacc : s.Accepting) (h : s.Agrees) {api : ServerApi} {a : Addr}
    (hmem : .request api a ∈ s.pending) {fresh : Addr} (hfresh : s.heap fresh = none) (peer : List Char) :
    ((s.register api fresh).replied api a peer).Accepting := by
  intro api'
  have hreq := h.request_not_mem hfresh
  have hnodup : (s.pending ++ [Registration.request api fresh]).Nodup := by
    have := (h.register hfresh api).nodup
    rwa [register_eq] at this
  have hpending : ∀ b, .request api' b ∈ ((s.register api fresh).replied api a peer).pending ↔
      (.request api' b ∈ s.pending ∧ ¬ (api' = api ∧ b = a)) ∨ api' = api ∧ b = fresh := by
    intro b
    rw [register_eq, replied]
    simp only [List.mem_append, hnodup.mem_erase_iff, List.mem_singleton, Registration.request.injEq, reduceCtorEq,
      or_false, ne_eq]
    constructor
    · rintro ⟨hne, hb | hb⟩
      · exact Or.inl ⟨hb, hne⟩
      · exact Or.inr hb
    · rintro (⟨hb, hne⟩ | ⟨rfl, rfl⟩)
      · exact ⟨hne, Or.inl hb⟩
      · refine ⟨?_, Or.inr ⟨rfl, rfl⟩⟩
        rintro ⟨-, rfl⟩
        exact hreq _ hmem
  obtain ⟨b, hb, huniq⟩ := hacc api'
  -- The call that is answered leaves its API to the fresh one; the other APIs keep theirs.
  by_cases hapi : api' = api
  · subst hapi
    refine ⟨fresh, (hpending fresh).2 (Or.inr ⟨rfl, rfl⟩), fun c hc => ?_⟩
    rcases (hpending c).1 hc with ⟨hc, hne⟩ | ⟨-, hc⟩
    · have hca : c = a := (huniq c hc).trans (huniq a hmem).symm
      exact absurd ⟨rfl, hca⟩ hne
    · exact hc
  · refine ⟨b, (hpending b).2 (Or.inl ⟨hb, fun hne => hapi hne.1⟩), fun c hc => ?_⟩
    rcases (hpending c).1 hc with ⟨hc, -⟩ | ⟨hc, -⟩
    · exact huniq c hc
    · exact absurd hc hapi

theorem Accepting.removed {s : ServerImpl} (hacc : s.Accepting) (h : s.Agrees) (a : Addr) :
    (s.removed a).Accepting := by
  intro api
  have hpending : ∀ b, .request api b ∈ (s.removed a).pending ↔ .request api b ∈ s.pending := by
    intro b
    rw [ServerImpl.removed, h.nodup.mem_erase_iff]
    simp
  simpa only [hpending] using hacc api

structure Inv (s : ServerImpl) : Prop where
  agrees : s.Agrees
  accepting : s.Accepting

theorem inv_start {addr : ServerApi → Addr} (hinj : Function.Injective addr) : (start addr).Inv := by
  have hne : ∀ api api', api ≠ api' → addr api ≠ addr api' := fun api api' hne heq => hne (hinj heq)
  have hagrees : (start addr).Agrees := by
    refine (((agrees_init.register rfl .allocate).register ?_ .prepare).register ?_ .connect).register ?_ .release <;>
      simp [register_eq, init, hne]
  refine ⟨hagrees, fun api => ⟨addr api, ?_, fun b hb => ?_⟩⟩
  · cases api <;> simp [start, register_eq, init]
  · cases api <;> simpa [start, register_eq, init] using hb

theorem Inv.step {s : ServerImpl} (h : s.Inv) {e : ServerEvent} (he : serverSystem.enabled s e) (hok : e.Ok) :
    ∃ s', serverSystem.step s e = .ok s' ∧ s'.Inv := by
  cases e with
  | incoming api a peer fresh =>
    obtain ⟨hmem, hfresh⟩ := he
    obtain ⟨ctx, ha⟩ := (h.agrees.request api a).1 hmem
    have hreg : (s.register api fresh).heap a = some ⟨api, .process, ctx⟩ := by
      have hne : a ≠ fresh := by
        rintro rfl
        rw [hfresh] at ha
        cases ha
      simpa [register_eq, hne] using ha
    exact ⟨_, incoming_ok h.agrees ha hfresh peer, (h.agrees.register hfresh api).replied hreg peer,
      h.accepting.incoming h.agrees hmem hfresh peer⟩
  | finished a ok fresh =>
    obtain ⟨hmem, -⟩ := he
    obtain ⟨api, ctx, ha⟩ := (h.agrees.finish a).1 hmem
    have hok : ok = true := hok
    subst hok
    exact ⟨_, finished_ok h.agrees ha fresh, h.agrees.removed ha, h.accepting.removed h.agrees a⟩

/-- What holds after every iteration. -/
structure LoopInv (s : ServerImpl) : Prop where
  acceptor : ∀ api, ∃! a, ∃ d, s.heap a = some d ∧ d.api = api ∧ d.status = .process
  /-- It is registered, once, for the next call; every other object has one `Finish` outstanding. -/
  object : ∀ a d, s.heap a = some d →
    d.status = .process ∧ s.pending.count (.request d.api a) = 1 ∧ .finish a ∉ s.pending ∨
      d.status = .finish ∧ s.pending.count (.finish a) = 1 ∧ ∀ api, .request api a ∉ s.pending
  /-- The list has every live object once, under its class, and nothing else. -/
  listed : ∀ a d, s.heap a = some d →
    ((callClass d.api).tag, a) ∈ s.listTagIdx ∧ (s.listTagIdx.map Prod.snd).count a = 1
  live : ∀ p ∈ s.listTagIdx, ∃ d, s.heap p.2 = some d
  /-- Every accepted call was answered once, with the reply of its class. -/
  answered : s.answered = s.calls.zipIdx.map fun p => (p.2, (callClass p.1).reply)

theorem Inv.loopInv {s : ServerImpl} (h : s.Inv) : s.LoopInv := by
  obtain ⟨h, hacc⟩ := h
  refine ⟨fun api => ?_, fun a d ha => ?_, fun a d ha => ?_, fun p hp => ?_, h.answered⟩
  · obtain ⟨a, hmem, huniq⟩ := hacc api
    obtain ⟨ctx, ha⟩ := (h.request api a).1 hmem
    refine ⟨a, ⟨_, ha, rfl, rfl⟩, ?_⟩
    rintro b ⟨⟨_, _, ctx'⟩, hb, rfl, rfl⟩
    exact huniq b ((h.request _ b).2 ⟨ctx', hb⟩)
  · obtain ⟨api, status, ctx⟩ := d
    cases status with
    | create => exact absurd rfl (h.status a _ ha)
    | process =>
      have hmem : .request api a ∈ s.pending := (h.request api a).2 ⟨ctx, ha⟩
      have hfin : .finish a ∉ s.pending := by
        rw [h.finish]
        simp [ha]
      exact Or.inl ⟨rfl, List.count_eq_one_of_mem h.nodup hmem, hfin⟩
    | finish =>
      have hmem : .finish a ∈ s.pending := (h.finish a).2 ⟨api, ctx, ha⟩
      have hreq : ∀ api, .request api a ∉ s.pending := by
        intro api
        rw [h.request]
        simp [ha]
      exact Or.inr ⟨rfl, List.count_eq_one_of_mem h.nodup hmem, hreq⟩
  · have htag : s.tagAt a = some (callClass d.api).tag := by simp [tagAt, ha]
    exact ⟨(h.tags.mem _ a).2 htag, h.tags.count_eq_one htag⟩
  · have htag : s.tagAt p.2 = some p.1 := (h.tags.mem p.1 p.2).1 hp
    obtain ⟨d, hd, -⟩ := Option.map_eq_some_iff.1 htag
    exact ⟨d, hd⟩

end ServerImpl

/-- In every run whose events are all delivered with `ok` true, no step fails and `LoopInv` holds after every
iteration. -/
theorem handleRpcs_loopInv {addr : ServerApi → Addr} (hinj : Function.Injective addr) {es : List ServerEvent}
    (h : serverSystem.Allowed (.start addr) es) (hok : ∀ e ∈ es, e.Ok) :
    ∃ s, serverSystem.exec (.start addr) es = .ok s ∧ s.LoopInv := by
  have hgood : serverSystem.Along (fun _ e => e.Ok) (.start addr) es := System.along_of_forall (fun _ => hok) _
  obtain ⟨s, hs, hinv⟩ := System.exec_safe_of (ServerImpl.inv_start hinj) (fun _ _ hu he hg => hu.step he hg) h hgood
  exact ⟨s, hs, hinv.loopInv⟩

def firstAddr : ServerApi → Addr
  | .allocate => 16
  | .prepare => 32
  | .connect => 48
  | .release => 64

theorem firstAddr_injective : Function.Injective firstAddr := by
  intro api api' h
  cases api <;> cases api' <;> first | rfl | exact absurd h (by decide)

/-- Two calls and the end of the second; its object's address is reused by the next call. -/
def reuseRun : List ServerEvent :=
  [.incoming .allocate 16 "ipv4:10.0.0.7:40001".toList 80, .incoming .connect 48 "ipv6:[::1]:40002".toList 96,
    .finished 48 true 112, .incoming .allocate 80 "unix".toList 48]

theorem handleRpcs_loopInv_reuse :
    ∃ s, serverSystem.exec (.start firstAddr) reuseRun = .ok s ∧ s.LoopInv :=
  handleRpcs_loopInv firstAddr_injective (by decide) (by decide)

/-! ### A reply that does not reach its client -/

/-- The server takes the event, with one object per API that accepts the next call, and the object of a reply that is
done, to whatever end, is gone. -/
def Survives (s : ServerImpl) (e : ServerEvent) : Prop :=
  ∃ s', serverSystem.step s e = .ok s' ∧ s'.LoopInv ∧
    ∀ a ok fresh, e = .finished a ok fresh → s'.heap a = none ∧ ∀ p ∈ s'.listTagIdx, p.2 ≠ a

theorem ServerImpl.Inv.survives_iff {s : ServerImpl} (h : s.Inv) {e : ServerEvent}
    (he : serverSystem.enabled s e) :
    Survives s e ↔ e.Ok := by
  constructor
  · rintro ⟨s', hs, -⟩
    cases e with
    | incoming api a peer fresh => trivial
    | finished a ok fresh =>
      cases ok with
      | false => cases hs
      | true => rfl
  · intro hok
    obtain ⟨s', hs, hinv⟩ := h.step he hok
    refine ⟨s', hs, hinv.loopInv, ?_⟩
    rintro a ok fresh rfl
    obtain rfl : ok = true := hok
    obtain ⟨api, ctx, ha⟩ := (h.agrees.finish a).1 he.1
    have hs' : s' = s.removed a := by
      rw [ServerImpl.finished_ok h.agrees ha fresh, Except.ok.injEq] at hs
      exact hs.symm
    have hgone : s'.heap a = none := by
      rw [hs']
      exact Function.update_self ..
    refine ⟨hgone, fun p hp hpa => ?_⟩
    obtain ⟨d, hd⟩ := hinv.loopInv.live p hp
    rw [hpa, hgone] at hd
    cases hd

/-- The server survives every event of a run exactly when every event of it is delivered with `ok` true. -/
theorem survives_run_iff {addr : ServerApi → Addr} (hinj : Function.Injective addr) {es : List ServerEvent}
    (h : serverSystem.Allowed (.start addr) es) :
    serverSystem.Along Survives (.start addr) es ↔ serverSystem.Along (fun _ e => e.Ok) (.start addr) es := by
  refine System.along_congr (ServerImpl.inv_start hinj) (fun _ _ hu he => hu.survives_iff he) ?_ h
  intro u e t hu he hok ht
  obtain ⟨t', ht', hinv⟩ := hu.step he hok
  rw [ht, Except.ok.injEq] at ht'
  exact ht' ▸ hinv

/-- A client gives up before its reply is on the wire. -/
def deadCallRun : List ServerEvent :=
  [.incoming .allocate 16 "ipv4:10.0.0.7:40001".toList 80, .finished 16 false 96]

theorem dead_call_stops_server :
    ¬ ∀ addr es, Function.Injective addr → serverSystem.Allowed (.start addr) es →
      serverSystem.Along Survives (.start addr) es := by
  intro h
  have hsurv := (h firstAddr deadCallRun firstAddr_injective (by decide)).at
    (p := [ServerEvent.incoming .allocate 16 "ipv4:10.0.0.7:40001".toList 80]) (q := []) rfl
  obtain ⟨s', hs', -⟩ := hsurv
  cases hs'

theorem survives_run_iff_reuse :
    serverSystem.Along Survives (.start firstAddr) reuseRun ↔
      serverSystem.Along (fun _ e => e.Ok) (.start firstAddr) reuseRun :=
  survives_run_iff firstAddr_injective (by decide)

end Cloudein.Server
