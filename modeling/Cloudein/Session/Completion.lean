import Cloudein.Session.Life

/-!
# The completion thread finds and deletes every call once

When `StopAsyncCompleteRpc` is called while no `Do*` call is in progress, every run keeps `Threads.Inv`: the client
tracks an abstract state and its ledger balances.  So `tag_pop` always finds the delivered address, and when `Next`
returns false the list is empty and every call was deleted once.  A `Do*` call in progress at the shutdown breaks
this: the clean-up loop deletes its struct.
-/

namespace Cloudein

open PairList Runs

/-- When `StopAsyncCompleteRpc` is called, every `Do*` call has returned. -/
def StopsQuietly (s : Threads) : ThreadEvent → Prop
  | .stop => ∀ t, s.issuer t = .idle
  | _ => True

structure Threads.Inv (s : Threads) : Prop where
  tracks : ∃ φ, Tracks s φ
  ledger : s.client.Ledger
  quiet : s.shutdown = true → ∀ t, s.issuer t = .idle
  returned : s.completer = .returned → s.shutdown = true ∧ s.client.outstanding = [] ∧ ∀ a, s.client.heap a = none
  cases : ∀ d ∈ s.client.deleted, d.entered ≠ none

namespace Threads.Inv

theorem init : Threads.init.Inv :=
  ⟨⟨_, Tracks.init⟩, Client.ledger_init, by simp [Threads.init], by simp [Threads.init],
    by simp [Threads.init, Client.init]⟩

/-- After the shutdown, with nothing outstanding and the completion thread waiting, no call is live. -/
theorem idle_empty {s : Threads} (h : s.Inv) (hc : s.completer = .waiting) (hs : s.shutdown = true)
    (ho : s.client.outstanding = []) : s.client.listTagIdx = [] ∧ ∀ a, s.client.heap a = none := by
  obtain ⟨φ, hφ⟩ := h.tracks
  have hnone : ∀ a, φ a = none := by
    intro a
    cases hx : φ a with
    | none => rfl
    | some x =>
      have hat : s.At a x.2 := (hφ.pos_some hx x.2).2 rfl
      cases hp : x.2 <;> simp [hp, Threads.At, h.quiet hs, ho, hc] at hat
  exact ⟨hφ.tags.eq_nil fun a => by rw [hnone]; rfl, fun a => (hφ.heap_none a).2 (hnone a)⟩

theorem running {s : Threads} (h : s.Inv) {t : Nat} (ht : s.issuer t ≠ .idle) : s.shutdown = false := by
  by_contra hs
  exact ht (h.quiet (by simpa using hs) t)

/-- Before the shutdown an issuing thread has only the calls and the ledger to keep in order. -/
theorem issue {s s' : Threads} (h : s.Inv) (hs : s.shutdown = false) (hs' : s'.shutdown = s.shutdown)
    (hc : s'.completer = s.completer) (htracks : ∃ φ, Tracks s' φ) (hledger : s'.client.Ledger)
    (hdeleted : s'.client.deleted = s.client.deleted) : s'.Inv := by
  refine ⟨htracks, hledger, fun hsd => ?_, fun hret => ?_, ?_⟩
  · rw [hs', hs] at hsd
    cases hsd
  · rw [hc] at hret
    rw [(h.returned hret).1] at hs
    cases hs
  · rw [hdeleted]
    exact h.cases

theorem step {s : Threads} (h : s.Inv) {e : ThreadEvent} (he : threadSystem.enabled s e) (hq : StopsQuietly s e) :
    ∃ s', threadSystem.step s e = .ok s' ∧ s'.Inv := by
  obtain ⟨φ, hφ⟩ := h.tracks
  cases e with
  | allocate t api info now a =>
    obtain ⟨ht, ha, hs⟩ := he
    exact ⟨_, rfl, h.issue hs rfl rfl ⟨_, hφ.allocate ht ha api info now⟩ (h.ledger.newCall _ now ha) rfl⟩
  | push t =>
    obtain ⟨api, info, a, ht⟩ := he
    have hs : s.shutdown = false := h.running (t := t) (by simp [ht])
    refine ⟨_, rfl, h.issue hs ?_ ?_ ⟨_, hφ.push ht⟩ ?_ ?_⟩ <;> simp only [Threads.push, ht]
    · exact h.ledger.congr rfl rfl rfl
    · rfl
  | finish t =>
    obtain ⟨api, info, a, ht⟩ := he
    have hs : s.shutdown = false := h.running (t := t) (by simp [ht])
    obtain ⟨c, hf, hfin, api', htr⟩ := hφ.finish ht
    have hc : c.heap = s.client.heap ∧ c.nextSerial = s.client.nextSerial ∧ c.deleted = s.client.deleted := by
      unfold Client.finish at hf
      split at hf
      · cases hf
      · simp only [Except.ok.injEq] at hf
        subst hf
        exact ⟨rfl, rfl, rfl⟩
    exact ⟨_, hfin, h.issue hs rfl rfl ⟨_, htr⟩ (h.ledger.congr hc.1 hc.2.1 hc.2.2) hc.2.2⟩
  | next a =>
    obtain ⟨hc, ha⟩ := he
    obtain ⟨api, htr⟩ := hφ.next hc ha
    exact ⟨_, rfl, ⟨_, htr⟩, h.ledger.congr rfl rfl rfl, h.quiet, by simp [Threads.next], h.cases⟩
  | pop =>
    obtain ⟨a, hc⟩ := he
    obtain ⟨api, -, hpop, htr⟩ := hφ.pop hc
    exact ⟨_, hpop, ⟨_, htr⟩, h.ledger.congr rfl rfl rfl, h.quiet, by simp, h.cases⟩
  | complete =>
    obtain ⟨tag, a, hc⟩ := he
    obtain ⟨call, hcall, hcomp, htr⟩ := hφ.complete hc
    refine ⟨_, hcomp, ⟨_, htr⟩, h.ledger.freed hcall _, h.quiet, by simp, fun d hd => ?_⟩
    rcases List.mem_append.1 hd with hd | hd
    · exact h.cases d hd
    · rw [List.mem_singleton.1 hd]
      simp
  | stop => exact ⟨_, rfl, ⟨φ, hφ.heap, hφ.tags, hφ.nodup, hφ.pos, hφ.issuing⟩, h.ledger, fun _ => hq,
      fun hc => ⟨rfl, (h.returned hc).2⟩, h.cases⟩
  | nextFalse =>
    obtain ⟨hc, hs, ho⟩ := he
    obtain ⟨hl, hh⟩ := h.idle_empty hc hs ho
    -- The queue is drained before `Next` returns false, so no call is left to delete.
    have hclean : s.nextFalse =
        .ok { s with client := { s.client with listTagIdx := [] }, completer := .returned } := by
      simp only [Threads.nextFalse, Client.cleanUp, hl, Client.deleteAll]
    refine ⟨_, hclean, ⟨fun _ => none, fun a => ?_, represents_nil.congr fun _ => rfl, ?_, fun a p => ?_, ?_⟩,
      h.ledger.congr rfl rfl rfl, h.quiet, fun _ => ⟨hs, ho, hh⟩, h.cases⟩
    · simp [hh]
    · exact hφ.nodup
    · cases p <;> simp [Threads.At, h.quiet hs, ho]
    · simp [h.quiet hs]

end Threads.Inv

/-- What the completion thread relies on, in one state. -/
structure Threads.Safe (s : Threads) : Prop where
  distinct : (s.client.listTagIdx.map Prod.snd).Nodup
  /-- The address `tag_pop` is about to look up has exactly one entry. -/
  found : ∀ a, s.completer = .received a → (s.client.listTagIdx.map Prod.snd).count a = 1
  /-- Every allocated struct is live and was never deleted, or was deleted once. -/
  deleted : ∀ n < s.client.nextSerial, s.client.deletedSerials.count n = 1 ∨
    s.client.deletedSerials.count n = 0 ∧ ∃ a call, s.client.heap a = some call ∧ call.serial = n
  /-- `Next` returns false only when the list is empty. -/
  empty : threadSystem.enabled s .nextFalse → s.client.listTagIdx = []
  /-- Then every allocated struct was deleted once, and none by the clean-up loop. -/
  finished : s.completer = .returned → ∀ n < s.client.nextSerial, s.client.deletedSerials.count n = 1
  cleanUp : ∀ d ∈ s.client.deleted, d.entered ≠ none

theorem Threads.Inv.safe {s : Threads} (h : s.Inv) : s.Safe := by
  obtain ⟨φ, hφ⟩ := h.tracks
  refine ⟨hφ.tags.distinct, fun a ha => ?_, fun n hn => ?_, fun he => (h.idle_empty he.1 he.2.1 he.2.2).1,
    fun hc n hn => h.ledger.count_eq_one (h.returned hc).2.2 hn, h.cases⟩
  · obtain ⟨api, ha⟩ := (hφ.pos a .received).1 ha
    exact hφ.tags.count_eq_one (t := (doFn api).tag) (by rw [ha]; rfl)
  · by_cases hd : n ∈ s.client.deletedSerials
    · exact Or.inl (List.count_eq_one_of_mem h.ledger.nodup hd)
    · exact Or.inr ⟨List.count_eq_zero_of_not_mem hd, (h.ledger.total n hn).resolve_left hd⟩

/-- In every run of the threads in which every `Do*` call has returned when `StopAsyncCompleteRpc` is called, no step
fails and every state reached is safe. -/
theorem threads_safe {es : List ThreadEvent} (h : threadSystem.Allowed .init es)
    (hq : threadSystem.Along StopsQuietly .init es) :
    ∃ s, threadSystem.exec .init es = .ok s ∧ s.Safe := by
  obtain ⟨s, hs, hinv⟩ := System.exec_safe_of Threads.Inv.init (fun _ _ hu he hg => hu.step he hg) h hq
  exact ⟨s, hs, hinv.safe⟩

/-- Two threads issue calls while the first ones are completed, and the third call gets the address of the first. -/
def reusedAddress : List ThreadEvent :=
  [.allocate 0 .allocate .default 0 16, .allocate 1 .connect .default 0 32, .push 1, .push 0, .finish 0, .next 16,
    .finish 1, .pop, .complete, .allocate 0 .release .default 9 16, .next 32, .push 0, .pop, .finish 0, .complete,
    .next 16, .pop, .complete]

theorem threads_safe_reusedAddress :
    ∃ s, threadSystem.exec .init (reusedAddress ++ [.stop, .nextFalse]) = .ok s ∧ s.Safe := by
  refine threads_safe (by decide)
    (System.along_append.2 ⟨System.along_of_forall (fun u e he => ?_) _, fun u hu => ?_⟩)
  · cases e with
    | stop => simp [reusedAddress] at he
    | _ => trivial
  · refine ⟨fun t => ?_, fun _ _ => ⟨trivial, fun _ _ => trivial⟩⟩
    rw [← Except.ok.inj hu]
    by_cases h0 : t = 0
    · subst h0
      rfl
    · by_cases h1 : t = 1
      · subst h1
        rfl
      · simp [h0, h1, Threads.init, Threads.allocate, Threads.push, Threads.next]

/-- A `Do*` call in progress at the shutdown: `Next` returns false while its pair is in the list. -/
theorem stop_during_call :
    ¬ ∀ es s, threadSystem.Allowed .init es → threadSystem.exec .init es = .ok s →
      threadSystem.enabled s .nextFalse → s.client.listTagIdx = [] := by
  intro h
  have := h [.allocate 0 .allocate .default 0 16, .push 0, .stop] _ (by decide) rfl ⟨rfl, rfl, rfl⟩
  cases this

end Cloudein
