import Cloudein.Session.Threads

/-!
# The life of a call

An abstract model of the client: for every address, the API of the call that lives there and where the call is
(`Life`).  The heap, the list, the queue and the positions of the threads of the concrete client all follow from it
(`Tracks`), and each step of a thread changes the abstract state at one address only.
-/

namespace Cloudein

open PairList

/-- Where a live call is: with the thread that issues it, in the queue, or with the completion thread. -/
inductive Phase where
  | allocated (t : Nat)
  | pushed (t : Nat)
  | outstanding
  | received
  | popped
deriving DecidableEq

/-- The abstract state: the API and the phase of the call at each address. -/
abbrev Life := Addr → Option (Api × Phase)

/-- The tag the list holds for a call: none before the push and after the pop. -/
def listedTag : Api × Phase → Option CloudeinGrpcTag
  | (_, .allocated _) => none
  | (api, .pushed _) => some (doFn api).tag
  | (api, .outstanding) => some (doFn api).tag
  | (api, .received) => some (doFn api).tag
  | (_, .popped) => none

/-- The call at `a` is in the phase `p`, read off the queue and the positions of the threads. -/
def Threads.At (s : Threads) (a : Addr) : Phase → Prop
  | .allocated t => ∃ api info, s.issuer t = .allocated api info a
  | .pushed t => ∃ api info, s.issuer t = .pushed api info a
  | .outstanding => a ∈ s.client.outstanding
  | .received => s.completer = .received a
  | .popped => ∃ tag, s.completer = .popped tag a

/-- A thread moves no call but those it is at before or after its step. -/
theorem Threads.at_issuer {s s' : Threads} {t : Nat} {i : Issuer} {b : Addr} {p : Phase}
    (hold : ∀ api info, s.issuer t ≠ .allocated api info b ∧ s.issuer t ≠ .pushed api info b)
    (hnew : ∀ api info, i ≠ .allocated api info b ∧ i ≠ .pushed api info b)
    (hissuer : s'.issuer = Function.update s.issuer t i) (hcompleter : s'.completer = s.completer)
    (hout : b ∈ s'.client.outstanding ↔ b ∈ s.client.outstanding) : s'.At b p ↔ s.At b p := by
  cases p with
  | allocated t' =>
    by_cases htt : t' = t
    · subst htt
      simp [Threads.At, hissuer, hold, hnew]
    · simp [Threads.At, hissuer, htt]
  | pushed t' =>
    by_cases htt : t' = t
    · subst htt
      simp [Threads.At, hissuer, hold, hnew]
    · simp [Threads.At, hissuer, htt]
  | outstanding => exact hout
  | received => simp [Threads.At, hcompleter]
  | popped => simp [Threads.At, hcompleter]

/-- The completion thread moves no call but those it is at before or after its step. -/
theorem Threads.at_completer {s s' : Threads} {b : Addr} {p : Phase}
    (hold : s.completer ≠ .received b ∧ ∀ tag, s.completer ≠ .popped tag b)
    (hnew : s'.completer ≠ .received b ∧ ∀ tag, s'.completer ≠ .popped tag b)
    (hissuer : s'.issuer = s.issuer) (hout : b ∈ s'.client.outstanding ↔ b ∈ s.client.outstanding) :
    s'.At b p ↔ s.At b p := by
  cases p with
  | allocated t => simp [Threads.At, hissuer]
  | pushed t => simp [Threads.At, hissuer]
  | outstanding => exact hout
  | received => simp [Threads.At, hold.1, hnew.1]
  | popped => simp [Threads.At, hold.2, hnew.2]

/-- The heap, the list, the queue and the positions of the threads all follow from the abstract state. -/
structure Tracks (s : Threads) (φ : Life) : Prop where
  heap : ∀ a, (s.client.heap a).map AsyncClientCall.api = (φ a).map Prod.fst
  tags : Represents s.client.listTagIdx fun a => (φ a).bind listedTag
  nodup : s.client.outstanding.Nodup
  pos : ∀ a p, s.At a p ↔ ∃ api, φ a = some (api, p)
  issuing : ∀ t api info a, s.issuer t = .allocated api info a → φ a = some (api, .allocated t)

namespace Tracks

theorem init : Tracks .init fun _ => none := by
  refine ⟨fun _ => rfl, represents_nil.congr fun _ => rfl, List.nodup_nil, fun a p => ?_, ?_⟩
  · cases p <;> simp [Threads.At, Threads.init, Client.init]
  · simp [Threads.init]

section

variable {s : Threads} {φ : Life} (h : Tracks s φ)
include h

theorem heap_none (a : Addr) : s.client.heap a = none ↔ φ a = none := by
  rw [← Option.map_eq_none_iff (f := AsyncClientCall.api), h.heap, Option.map_eq_none_iff]

private theorem heap_some {a : Addr} {x : Api × Phase} (ha : φ a = some x) :
    ∃ call, s.client.heap a = some call ∧ call.api = x.1 := by
  have := h.heap a
  rw [ha, Option.map_some, Option.map_eq_some_iff] at this
  exact this

theorem pos_some {a : Addr} {x : Api × Phase} (ha : φ a = some x) (p : Phase) : s.At a p ↔ p = x.2 := by
  rw [h.pos, ha]
  constructor
  · rintro ⟨api, hx⟩
    cases hx
    rfl
  · rintro rfl
    exact ⟨x.1, rfl⟩

private theorem pos_none {a : Addr} (ha : φ a = none) (p : Phase) : ¬ s.At a p := by
  rw [h.pos, ha]
  rintro ⟨_, hx⟩
  cases hx

private theorem heap_api {a : Addr} {x : Api × Phase} (ha : φ a = some x) :
    (s.client.heap a).map AsyncClientCall.api = some x.1 := by
  rw [h.heap, ha, Option.map_some]

private theorem not_issuing {a b : Addr} {x : Api × Phase} (ha : φ a = some x) (hx : ∀ t, x.2 ≠ .allocated t)
    {t : Nat} {api : Api} {info : SessionInfo} (hb : s.issuer t = .allocated api info b) : b ≠ a := by
  rintro rfl
  exact hx t ((h.pos_some ha (.allocated t)).1 ⟨api, info, hb⟩).symm

/-- A step that moves only the call at `a` is followed by changing the abstract state at `a`. -/
theorem update {s' : Threads} {a : Addr} {v : Option (Api × Phase)}
    (hheap : ∀ b, b ≠ a → s'.client.heap b = s.client.heap b)
    (hheapa : (s'.client.heap a).map AsyncClientCall.api = v.map Prod.fst)
    (htags : Represents s'.client.listTagIdx (Function.update (fun b => (φ b).bind listedTag) a (v.bind listedTag)))
    (hnodup : s'.client.outstanding.Nodup)
    (hpos : ∀ b p, b ≠ a → (s'.At b p ↔ s.At b p))
    (hposa : ∀ p, s'.At a p ↔ ∃ api, v = some (api, p))
    (hissuing : ∀ t api info b, s'.issuer t = .allocated api info b →
      (b = a ∧ v = some (api, .allocated t)) ∨ (b ≠ a ∧ s.issuer t = .allocated api info b)) :
    Tracks s' (Function.update φ a v) := by
  refine ⟨fun b => ?_, htags.congr fun b => ?_, hnodup, fun b p => ?_, fun t api info b hb => ?_⟩
  · by_cases hb : b = a
    · subst hb
      rw [hheapa, Function.update_self]
    · rw [hheap b hb, h.heap, Function.update_of_ne hb]
  · by_cases hb : b = a
    · subst hb
      rw [Function.update_self, Function.update_self]
    · rw [Function.update_of_ne hb, Function.update_of_ne hb]
  · by_cases hb : b = a
    · subst hb
      rw [hposa, Function.update_self]
    · rw [hpos b p hb, h.pos, Function.update_of_ne hb]
  · rcases hissuing t api info b hb with ⟨rfl, hv⟩ | ⟨hba, hb⟩
    · rw [Function.update_self, hv]
    · rw [Function.update_of_ne hba, h.issuing t api info b hb]

/-- Between the push and the pop the list does not change. -/
theorem tags_same {a : Addr} {v : Option (Api × Phase)} (ha : (φ a).bind listedTag = v.bind listedTag) :
    Represents s.client.listTagIdx (Function.update (fun b => (φ b).bind listedTag) a (v.bind listedTag)) := by
  refine h.tags.congr fun b => ?_
  by_cases hb : b = a
  · subst hb
    rw [Function.update_self, ha]
  · rw [Function.update_of_ne hb]

theorem allocate {t : Nat} {a : Addr} (ht : s.issuer t = .idle) (ha : s.client.heap a = none) (api : Api)
    (info : SessionInfo) (now : Int) :
    Tracks (s.allocate t api info now a) (Function.update φ a (some (api, .allocated t))) := by
  have hφ : φ a = none := (h.heap_none a).1 ha
  have hnone := h.pos_none hφ
  refine h.update (fun b hb => ?_) ?_ (h.tags_same (by simp [hφ, listedTag])) h.nodup (fun b p hb => ?_) (fun p => ?_)
    fun t' api' info' b hb => ?_
  · simp [Threads.allocate, Client.newCall, hb]
  · simp [Threads.allocate, Client.newCall]
  · exact Threads.at_issuer (by simp [ht]) (by simp [Ne.symm hb]) rfl rfl Iff.rfl
  · have := hnone p
    cases p with
    | allocated t' => by_cases htt : t' = t <;> simp_all [Threads.At, Threads.allocate, eq_comm]
    | pushed t' => by_cases htt : t' = t <;> simp_all [Threads.At, Threads.allocate]
    | outstanding => simp_all [Threads.At, Threads.allocate, Client.newCall]
    | received => simp_all [Threads.At, Threads.allocate]
    | popped => simp_all [Threads.At, Threads.allocate]
  · by_cases htt : t' = t
    · subst htt
      obtain ⟨rfl, rfl, rfl⟩ : api = api' ∧ info = info' ∧ a = b := by simpa [Threads.allocate] using hb
      exact Or.inl ⟨rfl, rfl⟩
    · have hb : s.issuer t' = .allocated api' info' b := by simpa [Threads.allocate, htt] using hb
      refine Or.inr ⟨fun hba => ?_, hb⟩
      exact hnone (.allocated t') ⟨api', info', hba ▸ hb⟩

theorem push {t : Nat} {api : Api} {info : SessionInfo} {a : Addr} (ht : s.issuer t = .allocated api info a) :
    Tracks (s.push t) (Function.update φ a (some (api, .pushed t))) := by
  have hφ : φ a = some (api, .allocated t) := h.issuing t api info a ht
  have hpos := h.pos_some hφ
  have hs : s.push t = { s with
      client := s.client.tagPush (doFn api).tag a
      issuer := Function.update s.issuer t (.pushed api info a) } := by
    simp only [Threads.push, ht]
  rw [hs]
  refine h.update (fun b hb => rfl) ?_ (h.tags.push (by simp [hφ, listedTag]) _) h.nodup (fun b p hb => ?_)
    (fun p => ?_) fun t' api' info' b hb => ?_
  · exact (h.heap_api hφ).trans rfl
  · exact Threads.at_issuer (by simp [ht, Ne.symm hb]) (by simp [Ne.symm hb]) rfl rfl Iff.rfl
  · have := hpos p
    cases p with
    | allocated t' => by_cases htt : t' = t <;> simp_all [Threads.At]
    | pushed t' => by_cases htt : t' = t <;> simp_all [Threads.At, eq_comm]
    | outstanding => simp_all [Threads.At, Client.tagPush]
    | received => simp_all [Threads.At]
    | popped => simp_all [Threads.At]
  · have htt : t' ≠ t := by
      rintro rfl
      simp at hb
    have hb : s.issuer t' = .allocated api' info' b := by simpa [htt] using hb
    refine Or.inr ⟨fun hba => htt ?_, hb⟩
    have := (hpos (.allocated t')).1 ⟨api', info', hba ▸ hb⟩
    simpa using this

theorem finish {t : Nat} {api : Api} {info : SessionInfo} {a : Addr} (ht : s.issuer t = .pushed api info a) :
    ∃ c, s.client.finish (doFn api) info a = .ok c ∧ s.finish t =
        .ok { s with client := c, issuer := Function.update s.issuer t .idle } ∧
      ∃ api', Tracks { s with client := c, issuer := Function.update s.issuer t .idle }
        (Function.update φ a (some (api', .outstanding))) := by
  obtain ⟨api', hφ⟩ := (h.pos a (.pushed t)).1 ⟨api, info, ht⟩
  have hpos := h.pos_some hφ
  obtain ⟨call, hcall, -⟩ := h.heap_some hφ
  have hf := Client.finish_ok (doFn api) info hcall
  refine ⟨_, hf, by simp only [Threads.finish, ht, hf], api', ?_⟩
  refine h.update (fun b hb => rfl) ?_ (h.tags_same (by rw [hφ]; rfl)) ?_ (fun b p hb => ?_) (fun p => ?_)
    fun t' api'' info' b hb => ?_
  · exact (h.heap_api hφ).trans rfl
  · refine KeyedList.nodup_push h.nodup fun hm => ?_
    have := (hpos .outstanding).1 hm
    cases this
  · exact Threads.at_issuer (by simp [ht, Ne.symm hb]) (by simp) rfl rfl (by simp [hb])
  · have := hpos p
    cases p with
    | allocated t' => by_cases htt : t' = t <;> simp_all [Threads.At]
    | pushed t' => by_cases htt : t' = t <;> simp_all [Threads.At]
    | outstanding => simp_all [Threads.At]
    | received => simp_all [Threads.At]
    | popped => simp_all [Threads.At]
  · have htt : t' ≠ t := by
      rintro rfl
      simp at hb
    have hb : s.issuer t' = .allocated api'' info' b := by simpa [htt] using hb
    exact Or.inr ⟨h.not_issuing hφ (by simp) hb, hb⟩

theorem next {a : Addr} (hc : s.completer = .waiting) (ha : a ∈ s.client.outstanding) :
    ∃ api, Tracks (s.next a) (Function.update φ a (some (api, .received))) := by
  obtain ⟨api, hφ⟩ := (h.pos a .outstanding).1 ha
  have hpos := h.pos_some hφ
  refine ⟨api, h.update (fun b hb => rfl) ?_ (h.tags_same (by rw [hφ]; rfl)) (h.nodup.erase a) (fun b p hb => ?_)
    (fun p => ?_) fun t' api' info' b hb => ?_⟩
  · exact (h.heap_api hφ).trans rfl
  · exact Threads.at_completer (by simp [hc]) (by simp [Threads.next, Ne.symm hb]) rfl (List.mem_erase_of_ne hb)
  · have := hpos p
    cases p with
    | allocated t' => simp_all [Threads.At, Threads.next]
    | pushed t' => simp_all [Threads.At, Threads.next]
    | outstanding => simp [Threads.At, Threads.next, Client.next, h.nodup.mem_erase_iff]
    | received => simp [Threads.At, Threads.next]
    | popped => simp [Threads.At, Threads.next]
  · exact Or.inr ⟨h.not_issuing hφ (by simp) hb, hb⟩

theorem pop {a : Addr} (hc : s.completer = .received a) :
    ∃ api, φ a = some (api, .received) ∧
      s.pop = .ok { s with
        client := { s.client with listTagIdx := eraseSnd s.client.listTagIdx a }
        completer := .popped (doFn api).tag a } ∧
      Tracks { s with
        client := { s.client with listTagIdx := eraseSnd s.client.listTagIdx a }
        completer := .popped (doFn api).tag a } (Function.update φ a (some (api, .popped))) := by
  obtain ⟨api, hφ⟩ := (h.pos a .received).1 hc
  have hpos := h.pos_some hφ
  have hf := Client.tagPop_ok (h.tags.find (k := a) (t := (doFn api).tag) (by rw [hφ]; rfl))
  refine ⟨api, hφ, by simp only [Threads.pop, hc, hf], ?_⟩
  refine h.update (fun b hb => rfl) ?_ (h.tags.erase a) h.nodup (fun b p hb => ?_) (fun p => ?_)
    fun t' api' info' b hb => ?_
  · exact (h.heap_api hφ).trans rfl
  · exact Threads.at_completer (by simp [hc, Ne.symm hb]) (by simp [Ne.symm hb]) rfl Iff.rfl
  · have := hpos p
    cases p with
    | allocated t' => simp_all [Threads.At]
    | pushed t' => simp_all [Threads.At]
    | outstanding => simp_all [Threads.At]
    | received => simp [Threads.At]
    | popped => simp [Threads.At]
  · exact Or.inr ⟨h.not_issuing hφ (by simp) hb, hb⟩

theorem complete {tag : CloudeinGrpcTag} {a : Addr} (hc : s.completer = .popped tag a) :
    ∃ call, s.client.heap a = some call ∧
      s.complete = .ok { s with
        client := s.client.freed a (some (completionCase tag)) call
        completer := .waiting } ∧
      Tracks { s with
        client := s.client.freed a (some (completionCase tag)) call
        completer := .waiting } (Function.update φ a none) := by
  obtain ⟨api, hφ⟩ := (h.pos a .popped).1 ⟨tag, hc⟩
  have hpos := h.pos_some hφ
  obtain ⟨call, hcall, -⟩ := h.heap_some hφ
  have hd := Client.delete_ok (some (completionCase tag)) hcall
  refine ⟨call, hcall, by simp only [Threads.complete, hc, Client.completeCall, hd], ?_⟩
  refine h.update (fun b hb => ?_) ?_ (h.tags_same (by rw [hφ]; rfl)) h.nodup (fun b p hb => ?_) (fun p => ?_)
    fun t' api' info' b hb => ?_
  · simp [Client.freed, hb]
  · simp [Client.freed]
  · exact Threads.at_completer (by simp [hc, Ne.symm hb]) (by simp) rfl Iff.rfl
  · have := hpos p
    cases p with
    | allocated t' => simp_all [Threads.At]
    | pushed t' => simp_all [Threads.At]
    | outstanding => simp_all [Threads.At, Client.freed]
    | received => simp [Threads.At]
    | popped => simp [Threads.At]
  · exact Or.inr ⟨h.not_issuing hφ (by simp) hb, hb⟩

end

end Tracks

end Cloudein
