import Cloudein.Rest.Handlers

/-!
# What interleaved requests leave in the list

The parsed configuration travels from `recvdata_copy` to the section under the lock in the one static record
`tx_received`, which the copies of other requests overwrite in between.  A section saves what the last copy left: a
configuration is kept when some section runs while the last copy was of a request that posted its `tx-ip`, and lost
otherwise.  A copy that throws in front of its first `strncpy` leaves the record as it was.  The runs are those in
which no pass has erased an entry.
-/

namespace Cloudein.Rest

open CString KeyedList Runs

/-- What a `recvdata_copy` copies: the configuration that its request posts, or as much of it as comes before the
exception that it throws, which may be nothing. -/
def copiedBy (body : JsonValue) : Option (Except JsonException (TxField → List Char)) :=
  match body.member "tx-ip" with
  | .error _ => none
  | .ok _ => some (posted body)

/-- What the last `recvdata_copy` of a run copied that copied anything. -/
def lastCopy (es : List RestEvent) : Option (Except JsonException (TxField → List Char)) :=
  (es.filterMap fun
    | .copy _ body => copiedBy body
    | _ => none).getLast?

/-- The configurations posted by the requests of a run whose copy returns. -/
def postedBy (es : List RestEvent) : List (TxField → List Char) :=
  es.filterMap fun
    | .copy _ body => (posted body).toOption
    | _ => none

/-- The list has one entry for every posted `tx-ip`, and every entry holds the configuration of one request that
posted its `tx-ip`. -/
structure KeepsConfigurations (es : List RestEvent) (l : List TxInfo) : Prop where
  once : ∀ g ∈ postedBy es, (l.map TxInfo.txIp).count (cstr (g .txIp)) = 1
  whole : ∀ t ∈ l, ∃ g ∈ postedBy es, cstr (g .txIp) = t.txIp ∧ t.Holds g

def ShortTxIps (es : List RestEvent) : Prop := ∀ g ∈ postedBy es, (cstr (g .txIp)).length < maxTokenStringLength

/-- A pass leaves the list as it is. -/
def ErasesNothing (s : Handlers) (e : RestEvent) : Prop := ∀ now, e = .pass now → restSystem.step s e = .ok s

/-- No section runs after a copy that threw part-way, and for every posted `tx-ip` a section runs after the copy of a
request that posted it, with no other copy in between. -/
structure Undisturbed (es : List RestEvent) : Prop where
  returned : ∀ p i now q, es = p ++ .save i now :: q → ∃ g, lastCopy p = some (.ok g)
  saved : ∀ g ∈ postedBy es, ∃ p i now q g', es = p ++ .save i now :: q ∧ lastCopy p = some (.ok g') ∧
    cstr (g' .txIp) = cstr (g .txIp)

/-! ### The last copy -/

private theorem lastCopy_copy {body : JsonValue} {x : Except JsonException (TxField → List Char)}
    (h : copiedBy body = some x) (p : List RestEvent) (i : Nat) : lastCopy (p ++ [.copy i body]) = some x := by
  simp [lastCopy, h]

private theorem lastCopy_copy_none {body : JsonValue} (h : copiedBy body = none) (p : List RestEvent) (i : Nat) :
    lastCopy (p ++ [.copy i body]) = lastCopy p := by
  simp [lastCopy, h]

private theorem lastCopy_save (p : List RestEvent) (i : Nat) (now : Int) :
    lastCopy (p ++ [.save i now]) = lastCopy p := by
  simp [lastCopy]

private theorem lastCopy_pass (p : List RestEvent) (now : Nat → Int) : lastCopy (p ++ [.pass now]) = lastCopy p := by
  simp [lastCopy]

private theorem posted_of_copiedBy {body : JsonValue} {x : Except JsonException (TxField → List Char)}
    (h : copiedBy body = some x) : posted body = x := by
  unfold copiedBy at h
  split at h
  · cases h
  · exact Option.some.inj h

/-- The record is as it was, and the handler is done. -/
theorem copy_of_copiedBy_none {body : JsonValue} (h : copiedBy body = none) (s : Handlers) (i : Nat) :
    (s.copy i body).store = s.store ∧ (s.copy i body).pc = Function.update s.pc i .done := by
  unfold copiedBy at h
  split at h
  · rename_i e he
    have hcopy : recvdataCopy body s.store.txReceived = (s.store.txReceived, some e) := by
      rw [recvdataCopy, recvKeys, copyMembers, he]
    simp [Handlers.copy, TxStore.recvdataCopy, hcopy]
  · cases h

private theorem mem_of_lastCopy {p : List RestEvent} {x : Except JsonException (TxField → List Char)}
    (h : lastCopy p = some x) : ∃ i body, .copy i body ∈ p ∧ copiedBy body = some x := by
  have hmem := List.mem_of_getLast? h
  obtain ⟨e, he, hx⟩ := List.mem_filterMap.1 hmem
  cases e with
  | copy i body => exact ⟨i, body, he, hx⟩
  | save i now => simp at hx
  | pass now => simp at hx

private theorem mem_postedBy_of_lastCopy {p : List RestEvent} {g : TxField → List Char}
    (h : lastCopy p = some (.ok g)) (q : List RestEvent) : g ∈ postedBy (p ++ q) := by
  obtain ⟨i, body, hmem, hbody⟩ := mem_of_lastCopy h
  refine List.mem_filterMap.2 ⟨.copy i body, List.mem_append_left q hmem, ?_⟩
  simp [posted_of_copiedBy hbody, Except.toOption]

/-! ### The invariant -/

/-- The record, the list and the handlers after a run in which no pass erased an entry. -/
structure Tracked (es : List RestEvent) (s : Handlers) : Prop where
  distinct : Distinct TxInfo.txIp s.store.txInfoList
  /-- The record holds what the last copy copied. -/
  received : ∀ g, lastCopy es = some (.ok g) → s.store.txReceived.Holds g
  /-- An entry holds what the last copy before some section copied. -/
  entry : ∀ t ∈ s.store.txInfoList, ∃ p i now q, es = p ++ .save i now :: q ∧
    ∀ g, lastCopy p = some (.ok g) → t.Holds g
  /-- A section saves what the last copy before it copied. -/
  saved : ∀ p i now q g, es = p ++ .save i now :: q → lastCopy p = some (.ok g) →
    (cstr (g .txIp)).length < maxTokenStringLength → lookup TxInfo.txIp s.store.txInfoList (cstr (g .txIp)) ≠ none
  copied : ∀ i, s.pc i = .copied → lastCopy es ≠ none

namespace Tracked

theorem init : Tracked [] .init :=
  ⟨distinct_nil, by simp [lastCopy], by simp [Handlers.init, TxStore.init], by simp, by simp [Handlers.init]⟩

/-- The section that left an entry so is a section of the longer run. -/
private theorem entry_concat {p : List RestEvent} {s : Handlers} (h : Tracked p s) (e : RestEvent) {t : TxInfo}
    (ht : t ∈ s.store.txInfoList) : ∃ p' j now q, p ++ [e] = p' ++ .save j now :: q ∧
      ∀ g, lastCopy p' = some (.ok g) → t.Holds g := by
  obtain ⟨p', j, now, q, hp, hholds⟩ := h.entry t ht
  exact ⟨p', j, now, q ++ [e], by rw [hp]; simp, hholds⟩

/-- An event that is neither a copy nor a section, or a copy that copies nothing, goes by. -/
private theorem goesBy {p : List RestEvent} {s t : Handlers} (h : Tracked p s) {e : RestEvent}
    (hstore : t.store = s.store) (hlast : lastCopy (p ++ [e]) = lastCopy p) (hsave : ∀ i now, e ≠ .save i now)
    (hpc : ∀ i, t.pc i = .copied → s.pc i = .copied) : Tracked (p ++ [e]) t := by
  refine ⟨hstore ▸ h.distinct, fun g hg => ?_, fun u hu => ?_, fun p' j now q g hsplit hg hshort => ?_,
    fun i hi => ?_⟩
  · rw [hlast] at hg
    exact hstore ▸ h.received g hg
  · rw [hstore] at hu
    exact h.entry_concat e hu
  · rw [hstore]
    rcases System.concat_eq_append_cons hsplit with ⟨-, he⟩ | ⟨q', hp⟩
    · exact absurd he (hsave j now)
    · exact h.saved p' j now q' g hp hg hshort
  · rw [hlast]
    exact h.copied i (hpc i hi)

theorem copy {p : List RestEvent} {s : Handlers} (h : Tracked p s) (i : Nat) (body : JsonValue) :
    Tracked (p ++ [.copy i body]) (s.copy i body) := by
  cases hbody : copiedBy body with
  | none =>
    obtain ⟨hstore, hpc⟩ := copy_of_copiedBy_none hbody s i
    refine h.goesBy hstore (lastCopy_copy_none hbody p i) (fun j now => by simp) fun j hj => ?_
    rw [hpc, Function.update_apply] at hj
    split_ifs at hj
    exact hj
  | some x =>
    have hlast := lastCopy_copy hbody p i
    refine ⟨h.distinct, fun g hg => ?_, fun t => h.entry_concat _, fun p' j now q g hsplit hg hshort => ?_,
      fun j _ => ?_⟩
    · rw [hlast, Option.some.injEq] at hg
      obtain ⟨r, hholds, hcopy⟩ := TxStore.recvdataCopy_ok ((posted_of_copiedBy hbody).trans hg) s.store
      have hreceived : (s.copy i body).store.txReceived = r := by
        simp only [Handlers.copy, hcopy]
      rw [hreceived]
      exact hholds
    · rcases System.concat_eq_append_cons hsplit with ⟨-, he⟩ | ⟨q', hp⟩
      · cases he
      · exact h.saved p' j now q' g hp hg hshort
    · rw [hlast]
      simp

theorem save {p : List RestEvent} {s : Handlers} (h : Tracked p s) {i : Nat} (hpc : s.pc i = .copied) (now : Int) :
    Tracked (p ++ [.save i now]) (s.save i now) := by
  have hlookup : lookup TxInfo.txIp (s.save i now).store.txInfoList =
      Function.update (lookup TxInfo.txIp s.store.txInfoList) s.store.txReceived.txIp
        (some (((lookup TxInfo.txIp s.store.txInfoList s.store.txReceived.txIp).getD
          s.store.txReceived).renewed now)) :=
    lookup_saveAndInit s.store.txReceived now s.store.txInfoList
  have hdistinct : Distinct TxInfo.txIp (s.save i now).store.txInfoList :=
    distinct_saveAndInit h.distinct s.store.txReceived now
  refine ⟨hdistinct, fun g hg => ?_, fun t ht => ?_, fun p' j n q g hsplit hg hshort => ?_, fun j _ => ?_⟩
  · rw [lastCopy_save] at hg
    exact h.received g hg
  · have hsome := hdistinct.lookup_eq_some.2 ⟨ht, rfl⟩
    rw [hlookup] at hsome
    by_cases hk : t.txIp = s.store.txReceived.txIp
    · rw [hk, Function.update_self, Option.some.injEq] at hsome
      cases hfound : lookup TxInfo.txIp s.store.txInfoList s.store.txReceived.txIp with
      | none =>
        rw [hfound] at hsome
        exact ⟨p, i, now, [], rfl, fun g hg => hsome ▸ h.received g hg⟩
      | some u =>
        rw [hfound] at hsome
        obtain ⟨p', j, n, q, hp, hholds⟩ := h.entry_concat (.save i now) (of_lookup hfound).1
        exact ⟨p', j, n, q, hp, fun g hg => hsome ▸ hholds g hg⟩
    · rw [Function.update_of_ne hk] at hsome
      exact h.entry_concat _ (of_lookup hsome).1
  · rw [hlookup]
    by_cases hk : cstr (g .txIp) = s.store.txReceived.txIp
    · rw [hk, Function.update_self]
      simp
    · rw [Function.update_of_ne hk]
      rcases System.concat_eq_append_cons hsplit with ⟨rfl, -⟩ | ⟨q', hp⟩
      · exact absurd ((h.received g hg).txIp hshort).symm hk
      · exact h.saved p' j n q' g hp hg hshort
  · rw [lastCopy_save]
    exact h.copied i hpc

end Tracked

theorem tracked {es : List RestEvent} (h : restSystem.Allowed .init es)
    (hpass : restSystem.Along ErasesNothing .init es) {s : Handlers} (hs : restSystem.exec .init es = .ok s) :
    Tracked es s := by
  refine System.exec_hist_run (I := fun es s => restSystem.Along ErasesNothing .init es → Tracked es s)
    (fun _ => Tracked.init) ?_ h hs hpass
  intro p u e v hexec hu he hv hp
  have hu := hu hp.left
  have hnothing : ErasesNothing u e := hp.at hexec
  cases e with
  | copy i body =>
    cases hv
    exact hu.copy i body
  | save i now =>
    cases hv
    exact hu.save he.1 now
  | pass now =>
    rw [hnothing now rfl, Except.ok.injEq] at hv
    subst hv
    exact hu.goesBy rfl (lastCopy_pass p now) (fun i n => by simp) fun i hi => hi

namespace Tracked

variable {es : List RestEvent} {s : Handlers} (h : Tracked es s)

include h

private theorem keepsConfigurations (hshort : ShortTxIps es) (hes : Undisturbed es) :
    KeepsConfigurations es s.store.txInfoList := by
  constructor
  · intro g hg
    obtain ⟨p, i, now, q, g', hsplit, hlast, hip⟩ := hes.saved g hg
    have hg' : g' ∈ postedBy es := by
      rw [hsplit]
      exact mem_postedBy_of_lastCopy hlast _
    obtain ⟨t, ht⟩ := Option.ne_none_iff_exists'.1 (h.saved p i now q g' hsplit hlast (hshort g' hg'))
    obtain ⟨hmem, hkey⟩ := of_lookup ht
    rw [← hip, ← hkey]
    exact List.count_eq_one_of_mem h.distinct (List.mem_map_of_mem hmem)
  · intro t ht
    obtain ⟨p, i, now, q, hsplit, hholds⟩ := h.entry t ht
    obtain ⟨g, hlast⟩ := hes.returned p i now q hsplit
    have hg : g ∈ postedBy es := by
      rw [hsplit]
      exact mem_postedBy_of_lastCopy hlast _
    have hip : t.txIp = cstr (g .txIp) := (hholds g hlast).txIp (hshort g hg)
    exact ⟨g, hg, hip.symm, hholds g hlast⟩

private theorem undisturbed (hshort : ShortTxIps es) (hreturned : ∀ p i now q, es = p ++ .save i now :: q →
    ∃ g, lastCopy p = some (.ok g)) (hkeeps : KeepsConfigurations es s.store.txInfoList) : Undisturbed es := by
  refine ⟨hreturned, fun g hg => ?_⟩
  have hone := hkeeps.once g hg
  have hmem : cstr (g .txIp) ∈ s.store.txInfoList.map TxInfo.txIp := List.count_pos_iff.1 (by omega)
  obtain ⟨t, ht, htip⟩ := List.mem_map.1 hmem
  obtain ⟨p, i, now, q, hsplit, hholds⟩ := h.entry t ht
  obtain ⟨g', hlast⟩ := hreturned p i now q hsplit
  have hg' : g' ∈ postedBy es := by
    rw [hsplit]
    exact mem_postedBy_of_lastCopy hlast _
  exact ⟨p, i, now, q, g', hsplit, hlast, by rw [← htip, (hholds g' hlast).txIp (hshort g' hg')]⟩

end Tracked

/-- A run in which no pass erases an entry does not fail. -/
theorem handlers_ok {es : List RestEvent} {s : Handlers} (hpass : restSystem.Along ErasesNothing s es) :
    ∃ s', restSystem.exec s es = .ok s' := by
  induction es generalizing s with
  | nil => exact ⟨s, rfl⟩
  | cons e es ih =>
    obtain ⟨he, hes⟩ := hpass
    have hstep : ∃ t, restSystem.step s e = .ok t := by
      cases e with
      | copy i body => exact ⟨_, rfl⟩
      | save i now => exact ⟨_, rfl⟩
      | pass now => exact ⟨s, he now rfl⟩
    obtain ⟨t, ht⟩ := hstep
    rw [System.exec_cons_ok ht]
    exact ih (hes t ht)

private theorem returned_of_all {es : List RestEvent} (h : restSystem.Allowed .init es)
    (hpass : restSystem.Along ErasesNothing .init es)
    (hall : ∀ i body, .copy i body ∈ es → (∃ g, posted body = .ok g) ∨ copiedBy body = none) {p q : List RestEvent}
    {i : Nat} {now : Int} (hes : es = p ++ .save i now :: q) : ∃ g, lastCopy p = some (.ok g) := by
  subst hes
  obtain ⟨u, hu⟩ := handlers_ok hpass.left
  have hpc : u.pc i = .copied := (h.at hu).1
  obtain ⟨x, hx⟩ := Option.ne_none_iff_exists'.1 ((tracked h.left hpass.left hu).copied i hpc)
  obtain ⟨j, body, hmem, hbody⟩ := mem_of_lastCopy hx
  rcases hall j body (List.mem_append_left _ hmem) with ⟨g, hg⟩ | hnone
  · rw [posted_of_copiedBy hbody] at hg
    exact ⟨g, by rw [hx, hg]⟩
  · rw [hbody] at hnone
    cases hnone

/-- Every run of handlers that is undisturbed keeps the configurations posted until a pass erases one, and a run in
which every copy returns, or throws before it has copied anything, keeps them only if it is undisturbed. -/
theorem keepsConfigurations_run {es : List RestEvent} (h : restSystem.Allowed .init es)
    (hpass : restSystem.Along ErasesNothing .init es) :
    ∃ s, restSystem.exec .init es = .ok s ∧
      (ShortTxIps es ∧ Undisturbed es → KeepsConfigurations es s.store.txInfoList) ∧
      (ShortTxIps es → (∀ i body, .copy i body ∈ es → (∃ g, posted body = .ok g) ∨ copiedBy body = none) →
        (KeepsConfigurations es s.store.txInfoList ↔ Undisturbed es)) := by
  obtain ⟨s, hs⟩ := handlers_ok hpass
  have htracked := tracked h hpass hs
  refine ⟨s, hs, fun hes => htracked.keepsConfigurations hes.1 hes.2, fun hshort hall => ⟨fun hkeeps => ?_, ?_⟩⟩
  · exact htracked.undisturbed hshort (fun p i now q hes => returned_of_all h hpass hall hes) hkeeps
  · exact htracked.keepsConfigurations hshort

def overtakenRun : List RestEvent :=
  [.copy 1 (requestBody "10.0.0.1" "1"), .copy 2 (requestBody "10.0.0.2" "2"), .save 1 100, .save 2 100]

def overtakenEnd : Handlers :=
  (((Handlers.init.copy 1 (requestBody "10.0.0.1" "1")).copy 2 (requestBody "10.0.0.2" "2")).save 1 100).save 2 100

/-- Both sections save the configuration of the second request, and that of the first is lost. -/
theorem overtaken_configuration_lost :
    ¬ ∀ es s, restSystem.Allowed .init es → (∀ now, .pass now ∉ es) → restSystem.exec .init es = .ok s →
      (∀ i, s.pc i ≠ .copied) → KeepsConfigurations es s.store.txInfoList := by
  intro h
  have hlost : ¬ ∀ g ∈ postedBy overtakenRun,
      (overtakenEnd.store.txInfoList.map TxInfo.txIp).count (cstr (g .txIp)) = 1 := by
    decide +kernel
  have hdone : ∀ i, overtakenEnd.pc i ≠ .copied := by
    intro i
    have hpc : overtakenEnd.pc i = if i = 2 then .done else if i = 1 then .done else Handlers.init.pc i := by
      by_cases h2 : i = 2
      · subst h2
        rfl
      · by_cases h1 : i = 1
        · subst h1
          rfl
        · simp [overtakenEnd, Handlers.save, Handlers.copy, h1, h2]
    rw [hpc]
    split
    · decide
    · split
      · decide
      · exact fun hidle => by cases hidle
  have hkeeps := h overtakenRun overtakenEnd (by decide) (by simp [overtakenRun]) rfl hdone
  exact hlost hkeeps.once

def orderlyRequests : List RestEvent :=
  [.copy 1 (requestBody "10.0.0.1" "1"), .copy 3 .null, .save 1 100,
    .copy 2 (requestBody "10.0.0.2" "2"), .save 2 100]

/-- A request without a `tx-ip` comes between the two steps of another one, and a pass finds both entries new. -/
theorem keepsConfigurations_orderlyRequests :
    ∃ s, restSystem.exec .init (orderlyRequests ++ [.pass fun _ => 105]) = .ok s ∧
      (KeepsConfigurations (orderlyRequests ++ [.pass fun _ => 105]) s.store.txInfoList ↔
        Undisturbed (orderlyRequests ++ [.pass fun _ => 105])) := by
  obtain ⟨u, hu⟩ : ∃ u, restSystem.exec .init orderlyRequests = .ok u := ⟨_, rfl⟩
  have hpass : restSystem.Along ErasesNothing .init (orderlyRequests ++ [.pass fun _ => 105]) := by
    refine System.Along.concat (System.along_of_forall (fun v e he => ?_) _) hu ?_
    · rintro now rfl
      simp [orderlyRequests] at he
    · rintro now ⟨⟩
      rw [← Except.ok.inj hu]
      rfl
  have hcopies : ∀ i body, .copy i body ∈ orderlyRequests ++ [RestEvent.pass fun _ => 105] →
      (∃ g, posted body = .ok g) ∨ copiedBy body = none := by
    intro i body hmem
    simp only [orderlyRequests, List.cons_append, List.nil_append, List.mem_cons, RestEvent.copy.injEq,
      List.not_mem_nil, or_false, reduceCtorEq, false_or] at hmem
    rcases hmem with ⟨-, rfl⟩ | ⟨-, rfl⟩ | ⟨-, rfl⟩
    · exact Or.inl ⟨_, rfl⟩
    · exact Or.inr rfl
    · exact Or.inl ⟨_, rfl⟩
  obtain ⟨s, hs, -, hiff⟩ := keepsConfigurations_run (by decide) hpass
  refine ⟨s, hs, hiff ?_ hcopies⟩
  have hshort : ∀ g ∈ postedBy (orderlyRequests ++ [.pass fun _ => 105]),
      (cstr (g .txIp)).length < maxTokenStringLength := by decide +kernel
  exact hshort

end Cloudein.Rest
